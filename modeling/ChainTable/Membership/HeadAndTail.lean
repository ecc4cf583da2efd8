import ChainTable.Membership.SelectionLaws

/-! The addresses that a client connects to, read twice with one buffer and one length. -/

namespace ChainTable

/-- The path of a child, whatever its length. -/
def childPath (rootPath child : Key) : Key :=
  ⟨rootPath.bytes ++ 47 :: child.bytes, fun zero =>
    (List.mem_append.mp zero).elim rootPath.nulFree fun behind =>
      (List.mem_cons.mp behind).elim (fun slash => absurd slash (by decide)) child.nulFree⟩

/-- The path of a child fits the array it is put together in. -/
def PathFits (rootPath child : Key) : Prop :=
  (childPath rootPath child).bytes.length < 120

instance (rootPath child : Key) : Decidable (PathFits rootPath child) :=
  inferInstanceAs (Decidable (_ < _))

/-- `zoo_get` on stored data: as much is copied as the buffer is said to hold, and that is told. -/
def copyingGet (stored : Key → Option (List UInt8)) (path : Key) (buffer : List UInt8)
    (bufferLen : Int) : Option (List UInt8 × Int) :=
  (stored path).map fun data =>
    let count := min bufferLen.toNat data.length
    (data.take count ++ buffer.drop count, (count : Int))

/-- A registry with stored data, where a connection shows the address that it was made to. -/
def addressBook (stored : Key → Option (List UInt8)) (fresh : List UInt8)
    (length_fresh : fresh.length = zDataLen) : Registry Key where
  zooGet := copyingGet stored
  rtableConnect := some
  fresh := fresh
  length_fresh := length_fresh

/-- A buffer without any terminator, as it may just have been allocated. -/
def staleBuffer : List UInt8 :=
  List.replicate zDataLen 1

/-- The stale buffer has the room for the data of a node. -/
theorem length_staleBuffer : staleBuffer.length = zDataLen :=
  List.length_replicate

/-- The path of a child is put together where it fits. -/
theorem nodePath_eq (rootPath child : Key) :
    nodePath rootPath child =
      if PathFits rootPath child then pure (childPath rootPath child) else throw .outOfBounds := by
  -- The comparison with the size of the array is the one in the code.
  by_cases fits : PathFits rootPath child
  · rw [if_pos fits]
    exact if_pos fits
  · rw [if_neg fits]
    exact if_neg fits

section Copies

variable {stored : Key → Option (List UInt8)} {path string : Key}

/-- A stored string that fits is copied with its terminator. -/
theorem copyingGet_fits (held : stored path = some (string.bytes ++ [0])) (buffer : List UInt8)
    {bufferLen : Int} (fits : string.bytes.length < bufferLen) :
    copyingGet stored path buffer bufferLen =
      some (string.bytes ++ 0 :: buffer.drop (string.bytes.length + 1),
        ((string.bytes.length + 1 : Nat) : Int)) := by
  -- The room is at least the length of the string and one more.
  have count : min bufferLen.toNat (string.bytes ++ [0]).length = string.bytes.length + 1 := by
    rw [List.length_append, List.length_singleton]
    omega
  have whole : (string.bytes ++ [0]).take (string.bytes.length + 1) = string.bytes ++ [0] :=
    List.take_of_length_le (by simp)
  simp only [copyingGet, held, Option.map_some, count, whole, List.append_assoc,
    List.singleton_append]

/-- A stored string that does not fit is cut, and lies in front of what was in the buffer. -/
theorem copyingGet_cut (held : stored path = some (string.bytes ++ [0])) (buffer : List UInt8)
    {room : Nat} (tooLong : room ≤ string.bytes.length) :
    copyingGet stored path buffer room =
      some (string.bytes.take room ++ buffer.drop room, (room : Int)) := by
  -- The room is the smaller of the two numbers.
  have count : min (room : Int).toNat (string.bytes ++ [0]).length = room := by
    rw [List.length_append, List.length_singleton]
    omega
  simp only [copyingGet, held, Option.map_some, count, List.take_append_of_le_length tooLong]

end Copies

section Clients

variable {stored : Key → Option (List UInt8)} {rootPath firstChild lastChild first last : Key}
  {children : List Key} {head tail : Option Key} {fresh : List UInt8}
  {length_fresh : fresh.length = zDataLen}

/-- The client goes by the first and the last of the sorted children. -/
theorem headAndTail_eq (isFirst : firstChild ∈ (sortedChildren children).head?)
    (isLast : lastChild ∈ (sortedChildren children).getLast?) :
    headAndTail children = pure (some (firstChild, lastChild)) := by
  -- The first and the last string are those at the positions that are read.
  rw [List.head?_eq_getElem?] at isFirst
  rw [List.getLast?_eq_getElem?] at isLast
  unfold headAndTail
  rw [bubbleSort_sorts, pure_bind, Option.mem_def.mp isFirst, Option.mem_def.mp isLast]

/-- The client reads the string of the head, and then looks for the tail in the same buffer. -/
theorem selectHeadAndTailServers_head (isFirst : firstChild ∈ (sortedChildren children).head?)
    (isLast : lastChild ∈ (sortedChildren children).getLast?)
    (firstHeld : stored (childPath rootPath firstChild) = some (first.bytes ++ [0]))
    (firstShort : first.bytes.length < zDataLen) (firstFits : PathFits rootPath firstChild) :
    selectHeadAndTailServers (addressBook stored fresh length_fresh) rootPath children head tail
        [] =
      (do
        let path ← nodePath rootPath lastChild
        let buffer := first.bytes ++ 0 :: fresh.drop (first.bytes.length + 1)
        let length := ((first.bytes.length + 1 : Nat) : Int)
        let (metadata, _) := (copyingGet stored path buffer length).getD (buffer, length)
        let address ← cString metadata
        return (some first, some address) : C (Option Key × Option Key)) [] := by
  -- The first string fits the buffer, so that it is read as it was stored.
  have room : (first.bytes.length : Int) < (zDataLen : Int) := by exact_mod_cast firstShort
  have copied := copyingGet_fits firstHeld fresh room
  unfold selectHeadAndTailServers
  rw [headAndTail_eq isFirst isLast, pure_bind]
  dsimp only
  rw [run_bind mallocUnchecked_nil, nodePath_eq, if_pos firstFits, pure_bind]
  simp only [addressBook, copied, Option.getD_some, cString_terminated, pure_bind]

/-- The client reads the string of the tail if it is no longer than that of the head. -/
theorem selectHeadAndTailServers_spec (isFirst : firstChild ∈ (sortedChildren children).head?)
    (isLast : lastChild ∈ (sortedChildren children).getLast?)
    (firstHeld : stored (childPath rootPath firstChild) = some (first.bytes ++ [0]))
    (lastHeld : stored (childPath rootPath lastChild) = some (last.bytes ++ [0]))
    (firstShort : first.bytes.length < zDataLen) (firstFits : PathFits rootPath firstChild)
    (lastFits : PathFits rootPath lastChild)
    (noLonger : last.bytes.length ≤ first.bytes.length) :
    selectHeadAndTailServers (addressBook stored fresh length_fresh) rootPath children head tail
      [] = .ok ((some first, some last), []) := by
  -- The length that the first call left has room for the second string and its terminator.
  have room : (last.bytes.length : Int) < ((first.bytes.length + 1 : Nat) : Int) := by omega
  rw [selectHeadAndTailServers_head isFirst isLast firstHeld firstShort firstFits, nodePath_eq,
    if_pos lastFits, pure_bind]
  simp only [copyingGet_fits lastHeld _ room, Option.getD_some, cString_terminated, pure_bind]
  rfl

/-- In a stale buffer the string of the tail runs into what lies behind it if it is longer. -/
theorem selectHeadAndTailServers_overrun (isFirst : firstChild ∈ (sortedChildren children).head?)
    (isLast : lastChild ∈ (sortedChildren children).getLast?)
    (firstHeld : stored (childPath rootPath firstChild) = some (first.bytes ++ [0]))
    (lastHeld : stored (childPath rootPath lastChild) = some (last.bytes ++ [0]))
    (firstShort : first.bytes.length < zDataLen) (firstFits : PathFits rootPath firstChild)
    (lastFits : PathFits rootPath lastChild) (longer : first.bytes.length < last.bytes.length) :
    selectHeadAndTailServers (addressBook stored staleBuffer length_staleBuffer) rootPath
      children head tail [] = .error .unterminated := by
  -- The second copy is cut where the first one ended, and brings no terminator along.
  have cut := copyingGet_cut lastHeld
    (first.bytes ++ 0 :: staleBuffer.drop (first.bytes.length + 1))
    (show first.bytes.length + 1 ≤ last.bytes.length by omega)
  have behind : (first.bytes ++ 0 :: staleBuffer.drop (first.bytes.length + 1)).drop
      (first.bytes.length + 1) = staleBuffer.drop (first.bytes.length + 1) := by
    rw [List.drop_append]
    simp
  have unterminated : (0 : UInt8) ∉ last.bytes.take (first.bytes.length + 1) ++
      staleBuffer.drop (first.bytes.length + 1) := by
    intro member
    rcases List.mem_append.mp member with copied | stale
    · exact last.nulFree (List.mem_of_mem_take copied)
    · exact absurd (List.eq_of_mem_replicate (List.mem_of_mem_drop stale)) (by decide)
  rw [selectHeadAndTailServers_head isFirst isLast firstHeld firstShort firstFits, nodePath_eq,
    if_pos lastFits, pure_bind]
  simp only [cut, behind, Option.getD_some, cString, if_neg unterminated]
  rfl

/-- The client connects to both addresses as they are stored, whatever was in its buffer. -/
theorem head_and_tail_addresses_iff (isFirst : firstChild ∈ (sortedChildren children).head?)
    (isLast : lastChild ∈ (sortedChildren children).getLast?)
    (firstHeld : stored (childPath rootPath firstChild) = some (first.bytes ++ [0]))
    (lastHeld : stored (childPath rootPath lastChild) = some (last.bytes ++ [0]))
    (firstShort : first.bytes.length < zDataLen) :
    (∀ (fresh : List UInt8) (length_fresh : fresh.length = zDataLen),
      selectHeadAndTailServers (addressBook stored fresh length_fresh) rootPath children head tail
        [] = .ok ((some first, some last), [])) ↔
      PathFits rootPath firstChild ∧ PathFits rootPath lastChild ∧
        last.bytes.length ≤ first.bytes.length := by
  constructor
  · intro connects
    have stale := connects staleBuffer length_staleBuffer
    -- A path that does not fit is written past the end of its array.
    have firstFits : PathFits rootPath firstChild := by
      by_contra tooLong
      unfold selectHeadAndTailServers at stale
      rw [headAndTail_eq isFirst isLast, pure_bind] at stale
      dsimp only at stale
      rw [run_bind mallocUnchecked_nil, nodePath_eq, if_neg tooLong] at stale
      cases stale
    have lastFits : PathFits rootPath lastChild := by
      by_contra tooLong
      rw [selectHeadAndTailServers_head isFirst isLast firstHeld firstShort firstFits, nodePath_eq,
        if_neg tooLong] at stale
      cases stale
    refine ⟨firstFits, lastFits, ?_⟩
    by_contra longer
    rw [selectHeadAndTailServers_overrun isFirst isLast firstHeld lastHeld firstShort firstFits
      lastFits (not_le.mp longer)] at stale
    cases stale
  · rintro ⟨firstFits, lastFits, noLonger⟩ fresh length_fresh
    exact selectHeadAndTailServers_spec isFirst isLast firstHeld lastHeld firstShort firstFits
      lastFits noLonger

end Clients

/-- A buffer of zeros, as it comes with memory fresh from the system. -/
def zeroBuffer : List UInt8 :=
  List.replicate zDataLen 0

/-- The buffer of zeros has the room for the data of a node. -/
theorem length_zeroBuffer : zeroBuffer.length = zDataLen :=
  List.length_replicate

/-- With port 80 at the head and port 8000 at the tail, the client looks for it at port 800. -/
theorem tail_port_is_cut :
    let firstChild : Key := ⟨[97], by decide⟩
    let lastChild : Key := ⟨[98], by decide⟩
    let rootPath : Key := ⟨[47, 99], by decide⟩
    let first : Key := ⟨[49, 46, 49, 46, 49, 46, 49, 58, 56, 48], by decide⟩
    let last : Key := ⟨[49, 46, 49, 46, 49, 46, 49, 58, 56, 48, 48, 48], by decide⟩
    let other : Key := ⟨[49, 46, 49, 46, 49, 46, 49, 58, 56, 48, 48], by decide⟩
    let stored : Key → Option (List UInt8) := fun path =>
      if path = childPath rootPath firstChild then some (first.bytes ++ [0])
      else some (last.bytes ++ [0])
    selectHeadAndTailServers (addressBook stored zeroBuffer length_zeroBuffer) rootPath
        [lastChild, firstChild] none none [] = .ok ((some first, some other), []) ∧
      other ≠ last := by
  intro firstChild lastChild rootPath first last other stored
  refine ⟨?_, by decide⟩
  have isFirst : firstChild ∈ (sortedChildren [lastChild, firstChild]).head? := by decide
  have isLast : lastChild ∈ (sortedChildren [lastChild, firstChild]).getLast? := by decide
  have firstHeld : stored (childPath rootPath firstChild) = some (first.bytes ++ [0]) :=
    if_pos rfl
  have lastHeld : stored (childPath rootPath lastChild) = some (last.bytes ++ [0]) :=
    if_neg (by decide)
  -- The second copy stops after eleven bytes, and the twelfth is a zero of the buffer.
  have cut := copyingGet_cut lastHeld (first.bytes ++ 0 :: zeroBuffer.drop (first.bytes.length + 1))
    (show first.bytes.length + 1 ≤ last.bytes.length by decide)
  have behind : zeroBuffer.drop 11 = 0 :: List.replicate (zDataLen - 12) 0 := by
    rw [zeroBuffer, List.drop_replicate, show zDataLen - 11 = zDataLen - 12 + 1 by decide,
      List.replicate_succ]
  have copied : last.bytes.take (first.bytes.length + 1) ++
      (first.bytes ++ 0 :: zeroBuffer.drop (first.bytes.length + 1)).drop
        (first.bytes.length + 1) = other.bytes ++ 0 :: List.replicate (zDataLen - 12) 0 :=
    congrArg (other.bytes ++ ·) behind
  rw [selectHeadAndTailServers_head isFirst isLast firstHeld (by decide) (by decide), nodePath_eq,
    if_pos (show PathFits rootPath lastChild by decide), pure_bind]
  simp only [cut, copied, Option.getD_some, cString_terminated, pure_bind]
  rfl

/-- Port 8000 at the head and port 80 at the tail are both found. -/
theorem head_and_tail_addresses_iff_shorter :
    let firstChild : Key := ⟨[97], by decide⟩
    let lastChild : Key := ⟨[98], by decide⟩
    let rootPath : Key := ⟨[47, 99], by decide⟩
    let first : Key := ⟨[49, 46, 49, 46, 49, 46, 49, 58, 56, 48, 48, 48], by decide⟩
    let last : Key := ⟨[49, 46, 49, 46, 49, 46, 49, 58, 56, 48], by decide⟩
    let stored : Key → Option (List UInt8) := fun path =>
      if path = childPath rootPath firstChild then some (first.bytes ++ [0])
      else some (last.bytes ++ [0])
    ∀ (fresh : List UInt8) (length_fresh : fresh.length = zDataLen),
      selectHeadAndTailServers (addressBook stored fresh length_fresh) rootPath
        [lastChild, firstChild] none none [] = .ok ((some first, some last), []) := by
  -- The second string is shorter, and both paths are short.
  intro firstChild lastChild rootPath first last stored
  have isFirst : firstChild ∈ (sortedChildren [lastChild, firstChild]).head? := by decide
  have isLast : lastChild ∈ (sortedChildren [lastChild, firstChild]).getLast? := by decide
  have firstHeld : stored (childPath rootPath firstChild) = some (first.bytes ++ [0]) :=
    if_pos rfl
  have lastHeld : stored (childPath rootPath lastChild) = some (last.bytes ++ [0]) :=
    if_neg (by decide)
  exact (head_and_tail_addresses_iff isFirst isLast firstHeld lastHeld (by decide)).mpr
    ⟨by decide, by decide, by decide⟩

end ChainTable
