import ChainTable.Client.Tokens
import ChainTable.Library.Decimal
import ChainTable.Membership.HeadAndTail

/-! The address that a server registers in ZooKeeper, and the one that others connect to. -/

namespace ChainTable

/-- An IPv4 address. -/
structure InAddr where
  first : UInt8
  second : UInt8
  third : UInt8
  fourth : UInt8
  deriving DecidableEq, Repr

/-- An address that a socket can be bound or connected to. -/
structure SockaddrIn where
  addr : InAddr
  port : UInt16
  deriving DecidableEq, Repr

/-- No digit is a NUL. -/
theorem zero_not_mem_print (n : Nat) : 0 ∉ Decimal.print n := fun member =>
  absurd (Decimal.isDigit_of_mem_print member) (by decide)

/-- `inet_ntop` of an IPv4 address: its bytes in decimal, with dots between them. -/
def inetNtop (addr : InAddr) : Key where
  bytes := Decimal.print addr.first.toNat ++ 46 :: (Decimal.print addr.second.toNat ++
    46 :: (Decimal.print addr.third.toNat ++ 46 :: Decimal.print addr.fourth.toNat))
  nulFree := by simp [zero_not_mem_print]

/-- One of the four numbers that `inet_pton` reads, which has no zeros in front. -/
def inetOctet (text : List UInt8) : Option UInt8 :=
  if text ≠ [] ∧ (text = [48] ∨ text.head? ≠ some 48) ∧ text.length ≤ 3 ∧
      text.all (Decimal.IsDigit ·) ∧ Decimal.read text < 256 then
    some (UInt8.ofNat (Decimal.read text))
  else none

/-- `inet_pton` of an IPv4 address, none for a text that is no such address. -/
def inetPton (text : Key) : Option InAddr :=
  match (text.bytes.splitOn 46).map inetOctet with
  | [some first, some second, some third, some fourth] => some ⟨first, second, third, fourth⟩
  | _ => none

/-- `isspace`, for the bytes that `atoi` skips. -/
def IsSpace (byte : UInt8) : Prop :=
  byte = 32 ∨ 9 ≤ byte.toNat ∧ byte.toNat ≤ 13

instance (byte : UInt8) : Decidable (IsSpace byte) :=
  inferInstanceAs (Decidable (_ ∨ _))

/-- The number at the start of a text without a sign, for `strtol`. -/
def unsignedNumber (text : List UInt8) : Int :=
  Decimal.read (text.takeWhile (Decimal.IsDigit ·))

/-- The number at the start of a text, with the spaces and the sign in front of it. -/
def signedNumber (text : Key) : Int :=
  let text := text.bytes.dropWhile (IsSpace ·)
  -- A minus or a plus may stand in front of the digits.
  if text.head? = some 45 then -unsignedNumber (text.drop 1)
  else if text.head? = some 43 then unsignedNumber (text.drop 1)
  else unsignedNumber text

/-- `strtol` to the base 10, whose `long` stays at the ends of its range. -/
def strtol (text : Key) : Int :=
  max (-(2 ^ 63)) (min (signedNumber text) (2 ^ 63 - 1))

/-- `atoi`, which takes the `long` of `strtol` as an `int`. -/
def atoi (text : Key) : Int :=
  int32 (strtol text)

/-- `htons` of a port that is passed on as a number of 16 bits. -/
def sinPort (port : Int) : UInt16 :=
  .ofNat (port % 2 ^ 16).toNat

/--
`network_server_init`: the port that the socket is bound to, as a `short` on the way.

For the port 0, `bind` chooses one that is free.
-/
def networkServerInit (ephemeral : UInt16) (port : Int) : UInt16 :=
  if sinPort (int16 port) = 0 then ephemeral else sinPort (int16 port)

/-- What the list of `getifaddrs` has for an interface. -/
inductive IfaAddr where
  /-- `ifa_addr` is NULL. -/
  | null
  /-- The address is of another family than `AF_INET`. -/
  | other
  | inet (addr : InAddr)
  deriving DecidableEq, Repr

/-- The loopback address, `127.0.0.1`. -/
def loopback : InAddr := ⟨127, 0, 0, 1⟩

/-- The loop of `get_local_ip`: what it leaves in `ip_str`, and `found`. -/
def getLocalIpLoop (ipStr : List UInt8) : List IfaAddr → C (List UInt8 × Bool)
  | [] => return (ipStr, false)
  | .null :: rest => getLocalIpLoop ipStr rest
  | .other :: rest => getLocalIpLoop ipStr rest
  | .inet addr :: rest => do
    let ipStr ← writeAt ipStr 0 ((inetNtop addr).bytes ++ [0])
    -- The loopback address stays in the buffer unless another one follows.
    if strcmp (← cString ipStr) (inetNtop loopback) = 0 then getLocalIpLoop ipStr rest
    else return (ipStr, true)

/-- `get_local_ip`, whose buffer stays as it was when `getifaddrs` fails. -/
def getLocalIp (ifaddr : Option (List IfaAddr)) (ipStr : List UInt8) : C (List UInt8 × Int) := do
  match ifaddr with
  | none => return (ipStr, -1)
  | some interfaces =>
    let (ipStr, found) ← getLocalIpLoop ipStr interfaces
    return (ipStr, if found then 0 else -1)

/-- The port that `main` goes on with, which is any positive one. -/
def AcceptedPort (serverPort : Key) : Prop :=
  0 < atoi serverPort

instance (serverPort : Key) : Decidable (AcceptedPort serverPort) :=
  inferInstanceAs (Decidable (_ < _))

/-- The name of every server in front of its number. -/
def nodeName : Key := ⟨[110, 111, 100, 101], by decide⟩

/-- The text of an address and a port. -/
def addressText (address serverPort : Key) : Key where
  bytes := address.bytes ++ 58 :: serverPort.bytes
  nulFree := by simp [address.nulFree, serverPort.nulFree]

/-- The name that is left of a path when the root and a slash are taken off, seven bytes in all. -/
def zkNodeName (zkNodeId : Key) : Key :=
  ⟨zkNodeId.bytes.drop 7, fun zero => zkNodeId.nulFree (List.mem_of_mem_drop zero)⟩

/--
`zk_register_server`: the name of the server among the children, and the data of its node.

It is none when `zoo_create` fails and the process exits. Nothing is known of `serverAddress`.
-/
def zkRegisterServer (rootPath : Key) (zooCreate : Key → List UInt8 → Option Key)
    (ifaddr : Option (List IfaAddr)) (serverAddress : List UInt8) (serverPort : Key) :
    C (Option (Key × List UInt8)) := do
  let path ← nodePath rootPath nodeName
  -- The result of `get_local_ip` is not looked at.
  let (serverAddress, _) ← getLocalIp ifaddr serverAddress
  let text := addressText (← cString serverAddress) serverPort
  -- The array that is printed to has 120 bytes, of which one is for the terminator.
  if text.bytes.length < 120 then
    let nodeMetadata := text.bytes ++ [0]
    return (zooCreate path nodeMetadata).map fun zkNodeId => (zkNodeName zkNodeId, nodeMetadata)
  else throw .outOfBounds

/-- How the calls of `network_connect` come out. -/
structure Network where
  /-- `socket` gives a descriptor. -/
  socket : Bool
  /-- `connect` gets through to an address. -/
  connect : SockaddrIn → Bool

/-- `network_connect`: the address of the connection, or none. -/
def networkConnect (network : Network) (serverAddress : Key) (serverPort : Int) :
    Option SockaddrIn :=
  if network.socket then
    match inetPton serverAddress with
    | none => none
    | some addr =>
      let servAddr : SockaddrIn := ⟨addr, sinPort serverPort⟩
      if network.connect servAddr then some servAddr else none
  else none

/-- A copy of the next token of `strtok`, both of which are used without a look at the pointer. -/
def copyToken (buffer : List UInt8) (position : Nat) : C (Key × List UInt8 × Nat) := do
  let (token, buffer, position) ← strtok 58 buffer position
  match token with
  | none => throw .nullDereference
  | some token =>
    match ← strdup (← cString (buffer.drop token)) with
    | none => throw .nullDereference
    | some copy => return (copy, buffer, position)

/-- `rtable_connect`: the address of the connection, or none for NULL. -/
def rtableConnect (network : Network) (addressPort : Key) : C (Option SockaddrIn) := do
  mallocUnchecked
  let (hostname, adrsport, position) ← copyToken (addressPort.bytes ++ [0]) 0
  let (port, _, _) ← copyToken adrsport position
  mallocUnchecked
  return networkConnect network hostname (atoi port)

section Texts

/-- A number of one byte is read back from its text. -/
theorem inetOctet_print (octet : UInt8) : inetOctet (Decimal.print octet.toNat) = some octet := by
  -- The text is not empty, has no leading zero, and is at most three digits long.
  have below : octet.toNat < 256 := octet.toNat_lt
  have short := Decimal.length_print_le (by decide : 0 < 3) (by omega : octet.toNat < 10 ^ 3)
  have digits : (Decimal.print octet.toNat).all (Decimal.IsDigit ·) :=
    List.all_eq_true.mpr fun _ member => decide_eq_true (Decimal.isDigit_of_mem_print member)
  rw [inetOctet, Decimal.read_print,
    if_pos ⟨Decimal.print_ne_nil _, Decimal.head_print _, short, digits, below⟩, UInt8.ofNat_toNat]

/-- An address is read back from its text. -/
theorem inetPton_inetNtop (addr : InAddr) : inetPton (inetNtop addr) = some addr := by
  -- No number has a dot in it, so that the dots are where the text is split.
  have free (n : Nat) : (46 : UInt8) ∉ Decimal.print n := fun member =>
    absurd (Decimal.isDigit_of_mem_print member) (by decide)
  simp only [inetPton, inetNtop, List.splitOn_append_cons_self,
    List.splitOn_eq_singleton (free _), List.singleton_append, List.map_cons, List.map_nil,
    inetOctet_print]

/-- Different addresses have different texts. -/
theorem inetNtop_injective : Function.Injective inetNtop := by
  -- Reading the text back gives the address.
  intro left right same
  have read := congrArg inetPton same
  rw [inetPton_inetNtop, inetPton_inetNtop] at read
  exact Option.some.inj read

/-- The text of an address fits the buffer of `get_local_ip` with its terminator. -/
theorem length_inetNtop (addr : InAddr) : (inetNtop addr).bytes.length ≤ 15 := by
  -- There are four numbers of three digits, and three points.
  have short (octet : UInt8) : (Decimal.print octet.toNat).length ≤ 3 :=
    Decimal.length_print_le (by decide) (by have := octet.toNat_lt; omega)
  have := short addr.first
  have := short addr.second
  have := short addr.third
  have := short addr.fourth
  simp only [inetNtop, List.length_append, List.length_cons]
  omega

/-- What begins with a colon has no number at its start. -/
theorem takeWhile_colon {behind : List UInt8} (colon : ∀ byte ∈ behind.head?, byte = 58) :
    behind.takeWhile (Decimal.IsDigit ·) = [] ∧ behind.dropWhile (IsSpace ·) = behind := by
  -- A colon is neither a digit nor a space.
  cases behind with
  | nil => exact ⟨rfl, rfl⟩
  | cons byte behind =>
    obtain rfl := colon byte rfl
    exact ⟨by rw [List.takeWhile_cons_of_neg (by decide)],
      by rw [List.dropWhile_cons_of_neg (by decide)]⟩

/-- A number ends where a colon begins. -/
theorem unsignedNumber_append (front : List UInt8) {behind : List UInt8}
    (colon : ∀ byte ∈ behind.head?, byte = 58) :
    unsignedNumber (front ++ behind) = unsignedNumber front := by
  rw [unsignedNumber, List.takeWhile_append, (takeWhile_colon colon).1]
  split
  · rename_i whole
    rw [List.append_nil, unsignedNumber]
    -- All bytes in front of the colon are digits.
    have same := (List.takeWhile_prefix (Decimal.IsDigit ·)).eq_of_length whole
    rw [same]
  · rfl

/-- `atoi` does not look behind a colon. -/
theorem atoi_append {text front : Key} {behind : List UInt8}
    (split : text.bytes = front.bytes ++ behind) (colon : ∀ byte ∈ behind.head?, byte = 58) :
    atoi text = atoi front := by
  have skipped : text.bytes.dropWhile (IsSpace ·) =
      front.bytes.dropWhile (IsSpace ·) ++ behind := by
    rw [split, List.dropWhile_append, (takeWhile_colon colon).2]
    split
    · rename_i empty
      rw [List.isEmpty_iff.mp empty, List.nil_append]
    · rfl
  unfold atoi strtol signedNumber
  rw [skipped]
  cases front.bytes.dropWhile (IsSpace ·) with
  | nil =>
    -- A colon is no sign either.
    have number := unsignedNumber_append [] colon
    rw [List.nil_append] at number ⊢
    have noSign : ∀ sign : UInt8, sign ≠ 58 → behind.head? ≠ some sign :=
      fun sign other head => other (colon sign head)
    simp only [if_neg (noSign 45 (by decide)), if_neg (noSign 43 (by decide)), List.head?_nil,
      reduceCtorEq, if_false, number]
  | cons byte rest =>
    have whole := unsignedNumber_append (byte :: rest) colon
    rw [List.cons_append] at whole
    simp only [List.cons_append, List.head?_cons, List.drop_succ_cons, List.drop_zero, whole,
      unsignedNumber_append rest colon]

/-- A text with a positive number at its start has something in front of its first colon. -/
theorem exists_port {text : Key} (positive : 0 < atoi text) :
    ∃ (front : Key) (behind : List UInt8), text.bytes = front.bytes ++ behind ∧
      front.bytes ≠ [] ∧ 58 ∉ front.bytes ∧ ∀ byte ∈ behind.head?, byte = 58 := by
  have split := (List.takeWhile_append_dropWhile (p := (· ≠ (58 : UInt8))) (l := text.bytes)).symm
  have free : 58 ∉ text.bytes.takeWhile (· ≠ 58) := fun member => by
    simpa using List.mem_takeWhile_imp member
  have colon : ∀ byte ∈ (text.bytes.dropWhile (· ≠ (58 : UInt8))).head?, byte = 58 := by
    intro byte head
    have stopped := List.head?_dropWhile_not (· ≠ (58 : UInt8)) text.bytes
    rw [Option.mem_def.mp head] at stopped
    simpa using stopped
  let front : Key := ⟨text.bytes.takeWhile (· ≠ 58), fun zero =>
    text.nulFree ((List.takeWhile_prefix _).subset zero)⟩
  refine ⟨front, _, split, fun empty => ?_, free, colon⟩
  -- Without anything in front, there would be no number.
  rw [@atoi_append text front _ split colon, atoi, strtol, signedNumber, empty] at positive
  exact absurd positive (by decide)

end Texts

/-- The address that `get_local_ip` leaves: the first one besides loopback, or else loopback. -/
def localAddr : List IfaAddr → Option InAddr
  | [] => none
  | .null :: rest => localAddr rest
  | .other :: rest => localAddr rest
  | .inet addr :: rest => if addr = loopback then (localAddr rest).or (some addr) else some addr

/-- A string that is written to the front of a buffer is what the buffer holds from then on. -/
theorem writeAt_string (string : Key) {buffer : List UInt8}
    (room : string.bytes.length < buffer.length) :
    ∃ written, writeAt buffer 0 (string.bytes ++ [0]) = pure written ∧ Holds written string ∧
      written.length = buffer.length := by
  -- The bytes replace as many at the front of the buffer.
  have fits : (string.bytes ++ [0]).length ≤ buffer.length := by
    rw [List.length_append, List.length_singleton]
    omega
  have front := @writeAt_front [] _ _ fits
  refine ⟨_, front, ⟨buffer.drop (string.bytes ++ [0]).length, by simp⟩, ?_⟩
  simp only [List.nil_append, List.length_append, List.length_drop, List.length_singleton] at *
  omega

/-- The loop leaves the text of the local address, in a buffer that has the room for any address. -/
theorem getLocalIpLoop_spec (interfaces : List IfaAddr) {ipStr : List UInt8}
    (room : 16 ≤ ipStr.length) :
    ∃ left found, getLocalIpLoop ipStr interfaces [] = .ok ((left, found), []) ∧
      left.length = ipStr.length ∧
      (localAddr interfaces = none → left = ipStr) ∧
      ∀ addr ∈ localAddr interfaces, Holds left (inetNtop addr) := by
  induction interfaces generalizing ipStr with
  | nil => exact ⟨ipStr, false, rfl, rfl, fun _ => rfl, fun addr member => by cases member⟩
  | cons interface rest ih =>
    cases interface with
    | null => exact ih room
    | other => exact ih room
    | inet addr =>
      have short := length_inetNtop addr
      obtain ⟨buffer, written, holds, length⟩ :=
        writeAt_string (inetNtop addr) (by omega : (inetNtop addr).bytes.length < ipStr.length)
      rw [getLocalIpLoop, written, pure_bind, holds.cString, pure_bind]
      simp only [strcmp_eq_zero_iff, inetNtop_injective.eq_iff]
      rw [localAddr]
      by_cases same : addr = loopback
      · -- The loop goes on, and overwrites the loopback address if it finds another one.
        rw [if_pos same, if_pos same]
        obtain ⟨left, found, ran, kept, untouched, told⟩ := ih (length.symm ▸ room)
        refine ⟨left, found, ran, kept.trans length, fun none => ?_, fun other member => ?_⟩
        · simp at none
        · cases later : localAddr rest with
          | none =>
            rw [later, Option.none_or] at member
            cases member
            rw [untouched later]
            exact holds
          | some behind =>
            rw [later, Option.some_or] at member
            exact told other (later.trans member)
      · rw [if_neg same, if_neg same]
        refine ⟨buffer, true, rfl, length, fun none => (by cases none), fun other member => ?_⟩
        cases member
        exact holds

/-- A token that is there is copied, and terminated in the array. -/
theorem copyToken_spec (before after : List UInt8) (word : Key) (free : 58 ∉ word.bytes)
    (filled : word.bytes ≠ []) {byte : UInt8} (ends : byte = 58 ∨ byte = 0) :
    copyToken (before ++ word.bytes ++ byte :: after) before.length [] =
      .ok ((word, before ++ word.bytes ++ 0 :: after,
        if byte = 0 then before.length + word.bytes.length
        else before.length + word.bytes.length + 1), []) := by
  -- The token ends where the separator or the end was, which is zero from then on.
  have found := strtok_word before after 0 free word.nulFree filled ends
  have read := @cString_token 58 before after 0 word
  simp only [List.replicate_zero, List.append_nil, Nat.add_zero] at found read
  rw [copyToken, found, pure_bind]
  dsimp only
  rw [read, pure_bind]
  rfl

/-- `rtable_connect` reads the two halves of a text as an address and as a port. -/
theorem rtableConnect_addressText (network : Network) (addr : InAddr) {serverPort : Key}
    (positive : 0 < atoi serverPort) :
    rtableConnect network (addressText (inetNtop addr) serverPort) [] =
      .ok (networkConnect network (inetNtop addr) (atoi serverPort), []) := by
  obtain ⟨front, behind, split, filled, free, colon⟩ := exists_port positive
  -- The text of an address has digits and dots, and no colon.
  have digits (n : Nat) : (58 : UInt8) ∉ Decimal.print n := fun member =>
    absurd (Decimal.isDigit_of_mem_print member) (by decide)
  have hostFree : 58 ∉ (inetNtop addr).bytes := by simp [inetNtop, digits]
  have hostFilled : (inetNtop addr).bytes ≠ [] := by simp [inetNtop]
  have host := copyToken_spec [] (serverPort.bytes ++ [0]) (inetNtop addr) hostFree hostFilled
    (.inl rfl)
  -- The port ends with the text, or in front of a colon in it.
  obtain ⟨byte, after, ends, whole⟩ : ∃ byte after, (byte = 58 ∨ byte = 0) ∧
      serverPort.bytes ++ [0] = front.bytes ++ byte :: after := by
    cases behind with
    | nil => exact ⟨0, [], .inr rfl, by rw [split, List.append_nil]⟩
    | cons byte behind => exact ⟨byte, behind ++ [0], .inl (colon byte rfl), by simp [split]⟩
  have port := copyToken_spec ((inetNtop addr).bytes ++ [0]) after front free filled ends
  have same : [] ++ (inetNtop addr).bytes ++ 0 :: (serverPort.bytes ++ [0]) =
      (inetNtop addr).bytes ++ [0] ++ front.bytes ++ byte :: after := by
    rw [whole]
    simp
  rw [same] at host
  have text : (addressText (inetNtop addr) serverPort).bytes ++ [0] =
      [] ++ (inetNtop addr).bytes ++ 58 :: (serverPort.bytes ++ [0]) := by simp [addressText]
  have start : ([] : List UInt8).length + (inetNtop addr).bytes.length + 1 =
      ((inetNtop addr).bytes ++ [0]).length := by simp
  rw [if_neg (by decide), start] at host
  rw [rtableConnect, run_bind mallocUnchecked_nil, text]
  refine (run_bind host).trans ?_
  dsimp only
  rw [run_bind port]
  dsimp only
  rw [run_bind mallocUnchecked_nil, atoi_append split colon]
  rfl

/-- A port is the same number of 16 bits, whether or not it was a `short` on the way. -/
theorem sinPort_int16 (port : Int) : sinPort (int16 port) = sinPort port := by
  -- Both reduce modulo 2^16.
  unfold sinPort int16
  congr 2
  omega

/-- A port is 0 in 16 bits if it is a multiple of 2^16. -/
theorem sinPort_eq_zero_iff (port : Int) : sinPort port = 0 ↔ (2 ^ 16 : Int) ∣ port := by
  -- The remainder is small enough for 16 bits.
  have below : (port % 2 ^ 16).toNat < 2 ^ 16 := by omega
  rw [← UInt16.toNat_inj, sinPort, UInt16.toNat_ofNat_of_lt' below, Int.dvd_iff_emod_eq_zero]
  change (port % 2 ^ 16).toNat = 0 ↔ port % 2 ^ 16 = 0
  omega

/-- The port that was asked for is the one that a socket is bound to, unless any port would do. -/
theorem sinPort_eq_networkServerInit_iff {ephemeral : UInt16} (chosen : ephemeral ≠ 0)
    (port : Int) : sinPort port = networkServerInit ephemeral port ↔ ¬ (2 ^ 16 : Int) ∣ port := by
  -- The port is zero exactly for multiples of 2^16, and then another one is chosen.
  rw [networkServerInit, sinPort_int16, ← sinPort_eq_zero_iff]
  split
  · rename_i any
    rw [any]
    exact iff_of_false chosen.symm fun differs => differs rfl
  · rename_i own
    exact iff_of_true rfl own

/-- `network_connect` to the text of an address connects to that address. -/
theorem networkConnect_inetNtop (network : Network) (addr : InAddr) (port : Int) :
    networkConnect network (inetNtop addr) port =
      if network.socket = true ∧ network.connect ⟨addr, sinPort port⟩ = true then
        some ⟨addr, sinPort port⟩
      else none := by
  -- The text is read back, and the rest is the socket and the connection.
  rw [networkConnect, inetPton_inetNtop]
  by_cases socket : network.socket <;> simp [socket]

/-- `zk_register_server` stores the text of the local address and the port, if its array can. -/
theorem zkRegisterServer_spec {rootPath : Key} (fits : PathFits rootPath nodeName)
    (zooCreate : Key → List UInt8 → Option Key) {interfaces : List IfaAddr} {addr : InAddr}
    (found : localAddr interfaces = some addr) {serverAddress : List UInt8}
    (room : 16 ≤ serverAddress.length) (serverPort : Key) :
    zkRegisterServer rootPath zooCreate (some interfaces) serverAddress serverPort [] =
      if (addressText (inetNtop addr) serverPort).bytes.length < 120 then
        .ok ((zooCreate (childPath rootPath nodeName)
          ((addressText (inetNtop addr) serverPort).bytes ++ [0])).map fun zkNodeId =>
            (zkNodeName zkNodeId, (addressText (inetNtop addr) serverPort).bytes ++ [0]), [])
      else .error .outOfBounds := by
  obtain ⟨left, given, ran, -, -, told⟩ := getLocalIpLoop_spec interfaces room
  have told := told addr found
  have asked : getLocalIp (some interfaces) serverAddress [] =
      .ok ((left, if given then 0 else -1), []) := by
    rw [getLocalIp, run_bind ran]
    rfl
  rw [zkRegisterServer, nodePath_eq, if_pos fits, pure_bind, run_bind asked]
  dsimp only
  rw [told.cString, pure_bind]
  -- Only the length of the text decides between the two ends.
  by_cases short : (addressText (inetNtop addr) serverPort).bytes.length < 120
  · rw [if_pos short, if_pos short]
    rfl
  · rw [if_neg short, if_neg short]
    rfl

/--
What a server registers leads every other process to the address and the port that it was given.

The server listens there, unless the port is a multiple of 2^16: then it listens on a port that
`bind` chose. This holds for every text that is accepted as a port, whatever follows its number, and
for numbers that are no ports: both sides take them as numbers of 16 bits. Texts that are too long
for the array of 120 bytes run past its end.
-/
theorem registered_address_reaches_listener {rootPath : Key} (fits : PathFits rootPath nodeName)
    (zooCreate : Key → List UInt8 → Option Key) {interfaces : List IfaAddr} {addr : InAddr}
    (found : localAddr interfaces = some addr) {serverAddress : List UInt8}
    (room : 16 ≤ serverAddress.length) {serverPort : Key} (accepted : AcceptedPort serverPort) :
    zkRegisterServer rootPath zooCreate (some interfaces) serverAddress serverPort [] =
      (if (addressText (inetNtop addr) serverPort).bytes.length < 120 then
        .ok ((zooCreate (childPath rootPath nodeName)
          ((addressText (inetNtop addr) serverPort).bytes ++ [0])).map fun zkNodeId =>
            (zkNodeName zkNodeId, (addressText (inetNtop addr) serverPort).bytes ++ [0]), [])
      else .error .outOfBounds) ∧
    (∀ network rest,
      (cString ((addressText (inetNtop addr) serverPort).bytes ++ 0 :: rest) >>=
        rtableConnect network) [] =
        let asked : SockaddrIn := ⟨addr, sinPort (atoi serverPort)⟩
        .ok (if network.socket = true ∧ network.connect asked = true then some asked
          else none, [])) ∧
    ∀ ephemeral ≠ 0,
      (⟨addr, sinPort (atoi serverPort)⟩ : SockaddrIn) =
          ⟨addr, networkServerInit ephemeral (atoi serverPort)⟩ ↔
        ¬ (2 ^ 16 : Int) ∣ atoi serverPort := by
  refine ⟨zkRegisterServer_spec fits zooCreate found room serverPort, fun network rest => ?_,
    fun ephemeral chosen => ?_⟩
  · -- The string is read back up to its terminator, and is taken apart at its first colon.
    rw [cString_terminated, pure_bind, rtableConnect_addressText network addr accepted,
      networkConnect_inetNtop]
  · rw [SockaddrIn.mk.injEq, and_iff_right rfl, sinPort_eq_networkServerInit_iff chosen]

/-- A server started with the port `70000:1` is reached at the port 4464 that it listens on. -/
theorem registered_address_reaches_listener_wrapped :
    ∃ data, zkRegisterServer ⟨[47, 99, 104, 97, 105, 110], by decide⟩ (fun path _ => some path)
        (some [.inet loopback, .null, .other, .inet ⟨192, 168, 1, 7⟩]) (List.replicate 100 1)
        ⟨[55, 48, 48, 48, 48, 58, 49], by decide⟩ [] = .ok (some (nodeName, data), []) ∧
      (cString data >>= rtableConnect ⟨true, fun _ => true⟩) [] =
        .ok (some ⟨⟨192, 168, 1, 7⟩, 4464⟩, []) ∧
      networkServerInit 32768 70000 = 4464 := by
  -- 70000 is read before the colon, and is 4464 modulo 2^16.
  obtain ⟨registered, connects, listens⟩ := @registered_address_reaches_listener
    ⟨[47, 99, 104, 97, 105, 110], by decide⟩ (by decide) (fun path _ => some path)
    [.inet loopback, .null, .other, .inet ⟨192, 168, 1, 7⟩] ⟨192, 168, 1, 7⟩ (by decide)
    (List.replicate 100 1) (by decide) ⟨[55, 48, 48, 48, 48, 58, 49], by decide⟩ (by decide)
  have port : atoi ⟨[55, 48, 48, 48, 48, 58, 49], by decide⟩ = 70000 := by decide
  have same := (listens 32768 (by decide)).mpr (by decide)
  rw [port] at connects same
  exact ⟨_, registered, connects ⟨true, fun _ => true⟩ [], (congrArg SockaddrIn.port same).symm⟩

end ChainTable
