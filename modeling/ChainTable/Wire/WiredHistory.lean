import ChainTable.Wire.UnpackingLaws
import ChainTable.Wire.WiredChainLaws

/-! Whole histories of a chain over connections: all its clients see one finite map. -/

namespace ChainTable

variable {ι : Type} [DecidableEq ι] {n : Nat} {contents : Contents} {codec : Codec}
  {garbage : Garbage} {client : ι} {key : Key}

/-- Nothing is under way on the connections of a client. -/
structure ClientEnds.Idle (ends : ClientEnds) : Prop where
  head : ends.head.Idle
  tail : ends.tail.Idle

/-- Between two calls all servers hold one map, and nothing is under way on any connection. -/
structure WiredReady (contents : Contents) (state : (ι → ClientEnds) × WiredChain n) : Prop where
  agrees : state.2.Agrees contents
  ends : ∀ client, (state.1 client).Idle
  /-- A put of each pair stored fits a frame. -/
  fit : PairsFit contents

section Ends

variable {ends : ι → ClientEnds} {chain after : WiredChain n} {connection : Connection}

/-- After a call at the head, the client goes on with the connection that the call left. -/
theorem atHead_ran {α : Type} {result : α} {run : StateT (Connection × WiredChain n) C α}
    (ran : run ((ends client).head, chain) [] = .ok ((result, (connection, after)), [])) :
    atHead client run (ends, chain) [] = .ok ((result,
      (Function.update ends client { ends client with head := connection }, after)), []) := by
  -- The connection is put back after the call.
  change (run ((ends client).head, chain) >>= _) [] = _
  rw [run_bind ran]
  rfl

/-- After a call at the tail, the client goes on in the same way. -/
theorem atTail_ran {α : Type} {result : α} {run : StateT (Connection × WiredChain n) C α}
    (ran : run ((ends client).tail, chain) [] = .ok ((result, (connection, after)), [])) :
    atTail client run (ends, chain) [] = .ok ((result,
      (Function.update ends client { ends client with tail := connection }, after)), []) := by
  -- The connection is put back after the call.
  change (run ((ends client).tail, chain) >>= _) [] = _
  rw [run_bind ran]
  rfl

/-- A call of one client leaves the connections of the others as they were. -/
theorem WiredReady.call {contents' : Contents} (ready : WiredReady contents (ends, chain))
    {ends' : ClientEnds} (idle : ends'.Idle) (agrees : after.Agrees contents')
    (fit : PairsFit contents') :
    WiredReady contents' (Function.update ends client ends', after) where
  agrees := agrees
  ends := (Function.forall_update_iff ends fun _ ends => ends.Idle).mpr
    ⟨idle, fun other _ => ready.ends other⟩
  fit := fit

end Ends

section Calls

variable {state : (ι → ClientEnds) × WiredChain n}

/-- What a call has to do on a chain that is ready: answer as the map, and leave it ready. -/
def CallServedOver (codec : Codec) (garbage : Garbage) (contents : Contents) (client : ι)
    (call : ChainCall) (state : (ι → ClientEnds) × WiredChain n) : Prop :=
  ∃ reply after, callWired codec garbage client call state [] = .ok ((reply, after), []) ∧
    call.Answered contents reply ∧ WiredReady (call.effect contents) after ∧
    after.2.rows = state.2.rows

/-- A put answers 0, and puts its block into every table. -/
theorem callWired_put (faithful : codec.Faithful) (ready : WiredReady contents state) {data : Data}
    (inside : ∀ server ∈ state.2.servers, server.table.Inside key)
    (valid : dataValid (some data) = 0)
    (fits : packedSize (putRequest (some key) data) ≤ maxFrame) :
    CallServedOver codec garbage contents client (.put key data) state := by
  obtain ⟨ends, chain⟩ := state
  -- Valid data has a block, and a put of it applies at every server.
  obtain ⟨block, found⟩ := exists_contents valid
  have sendable : (putRequest (some key) data).Sendable :=
    (coded_of (rfl : _ = opPut) (rfl : _ = ctEntry) (by decide)).sendable int32_zero rfl fits
  rw [packedSize_putRequest_contents found] at fits
  obtain ⟨connection, after, idle, agrees, rows, called⟩ := callOver_update faithful garbage fits
    ready.agrees inside sendable (putRequest_unpacked found) (ready.ends client).head
  have applies : (Update.put key block).Applies contents := trivial
  rw [if_pos applies] at called
  have answered := rtablePut_answered called
  have result := result_updateReply (asks_request (.put key block))
  simp only [Update.result] at result
  rw [result] at answered
  have effect : (ChainCall.put key data).effect contents = contents.insert key block := by
    simp only [ChainCall.effect, found]
  refine ⟨.code 0, _, atHead_ran (runOver_bind answered), rfl, ?_, rows⟩
  rw [effect]
  exact ready.call ⟨idle, (ready.ends client).tail⟩ agrees
    (ready.fit.insert (packedSize_putRequest key block ▸ fits))

/-- A deletion answers whether its key was there, and takes it out of every table. -/
theorem callWired_del (faithful : codec.Faithful) (ready : WiredReady contents state)
    (inside : ∀ server ∈ state.2.servers, server.table.Inside key)
    (fits : packedSize (delRequest (some key)) ≤ maxFrame) :
    CallServedOver codec garbage contents client (.del key) state := by
  obtain ⟨ends, chain⟩ := state
  change packedSize (Update.del key).request ≤ maxFrame at fits
  obtain ⟨connection, after, idle, agrees, rows, called⟩ := callOver_update faithful garbage fits
    ready.agrees inside (request_sendable fits) (request_unpacked (.del key))
    (ready.ends client).head
  -- The head answers with success exactly when the key was there.
  have stored := Update.del_applies_iff key contents
  have answered : rtableDel (callOver codec garbage (invokeOver codec garbage n)) (some key)
      ((ends client).head, chain) [] =
        .ok ((if key ∈ contents then 0 else -1, (connection, after)), []) := by
    refine (rtableDel_answered called).trans ?_
    by_cases present : key ∈ contents
    · rw [if_pos (stored.mpr present), if_pos present]
      rfl
    · rw [if_neg fun applies => present (stored.mp applies), if_neg present]
      rfl
  exact ⟨.code (if key ∈ contents then 0 else -1), _, atHead_ran (runOver_bind answered), rfl,
    ready.call ⟨idle, (ready.ends client).tail⟩ agrees (ready.fit.erase key), rows⟩

/-- A lookup answers with the block of its key, and changes no table. -/
theorem callWired_get (faithful : codec.Faithful) (ready : WiredReady contents state)
    (inside : ∀ server ∈ state.2.servers, server.table.Inside key)
    (fits : packedSize (getRequest (some key)) ≤ maxFrame) :
    CallServedOver codec garbage contents client (.get key) state := by
  obtain ⟨ends, chain⟩ := state
  have sendable : (getRequest (some key)).Sendable :=
    (coded_of (rfl : _ = opGet) (rfl : _ = ctKey) (by decide)).sendable int32_zero rfl fits
  -- Every server would answer with the block of the one map.
  obtain ⟨_, connection, after, rfl, idle, agrees, rows, called⟩ := callOver_question
    (fun reply => reply = getAnswer (getRequest (some key)) (contents.lookup key)) faithful garbage
    ready.agrees (fun server member => by
      obtain ⟨code, invoked⟩ := invoke_getAnswer (ready.agrees.holds server member)
        (inside server member) (rfl : (getRequest (some key)).opcode = opGet) rfl
      exact ⟨code, _, invoked, rfl⟩) sendable rfl
    (fun reply same => by
      rw [same]
      exact getAnswer_sendable fits (ready.fit key)) (ready.ends client).tail
  rw [getAnswer_unpacked] at called
  -- NULL stands for a key that is not in the map.
  have answered : rtableGet (callOver codec garbage (invokeTailOver codec garbage n)) (some key)
      ((ends client).tail, chain) [] =
        .ok (((contents.lookup key).map Data.ofBlock, (connection, after)), []) := by
    cases found : contents.lookup key with
    | none =>
      rw [found] at called
      exact rtableGet_missing called rfl
    | some block =>
      rw [found] at called
      exact rtableGet_found called rfl rfl
  exact ⟨.data ((contents.lookup key).map Data.ofBlock), _, atTail_ran (runOver_bind answered), rfl,
    ready.call ⟨(ready.ends client).head, idle⟩ agrees ready.fit, rows⟩

/-- A question for the size answers with the number of keys, and changes no table. -/
theorem callWired_size (faithful : codec.Faithful) (ready : WiredReady contents state)
    (small : contents.keys.card < 2 ^ 31) :
    CallServedOver codec garbage contents client .size state := by
  obtain ⟨ends, chain⟩ := state
  have sendable : (bareRequest opSize).Sendable :=
    (coded_of (rfl : _ = opSize) (rfl : _ = ctNone) (by decide)).sendable int32_zero rfl (by decide)
  -- Every server would answer with the number of keys of the one map.
  obtain ⟨_, connection, after, rfl, idle, agrees, rows, called⟩ := callOver_question
    (fun reply => reply = sizeAnswer (bareRequest opSize) contents.keys.card) faithful garbage
    ready.agrees (fun server member =>
      ⟨0, _, invoke_sizeAnswer (ready.agrees.holds server member) rfl, rfl⟩) sendable rfl
    (fun reply same => by
      rw [same]
      exact sizeAnswer_sendable small) (ready.ends client).tail
  rw [sizeAnswer_unpacked] at called
  exact ⟨.code contents.keys.card, _, atTail_ran (runOver_bind (rtableSize_answered called rfl)),
    rfl, ready.call ⟨(ready.ends client).head, idle⟩ agrees ready.fit, rows⟩

/-- A list of every key once gives the sums over the keys of the map. -/
theorem sum_keys {keys : List Key} (nodup : keys.Nodup)
    (members : ∀ key, key ∈ keys ↔ key ∈ contents) (size : Key → Nat) :
    (keys.map size).sum = ∑ key ∈ contents.keys, size key := by
  -- The keys listed are the keys of the map, none of them twice.
  have same : contents.keys = keys.toFinset := by
    ext key
    rw [List.mem_toFinset, Finmap.mem_keys, members]
  rw [same, List.sum_toFinset size nodup]

/-- A question for the keys answers with every key once, and changes no table. -/
theorem callWired_getKeys (faithful : codec.Faithful) (ready : WiredReady contents state)
    (fits : ChainCall.getKeys.Fits contents) :
    CallServedOver codec garbage contents client .getKeys state := by
  obtain ⟨ends, chain⟩ := state
  have sendable : (bareRequest opGetKeys).Sendable :=
    (coded_of (rfl : _ = opGetKeys) (rfl : _ = ctNone) (by decide)).sendable int32_zero rfl
      (by decide)
  -- Every server would answer with the keys of the one map.
  obtain ⟨reply, connection, after, ⟨keys, nodup, members, rfl⟩, idle, agrees, rows, called⟩ :=
    callOver_question (fun reply => ∃ keys : List Key, keys.Nodup ∧
        (∀ key, key ∈ keys ↔ key ∈ contents) ∧ reply = (keysAnswer (bareRequest opGetKeys) keys).2)
      faithful garbage ready.agrees (fun server member => by
        obtain ⟨keys, nodup, members, invoked⟩ :=
          invoke_keysAnswer (ready.agrees.holds server member)
            (rfl : (bareRequest opGetKeys).opcode = opGetKeys)
        exact ⟨_, _, invoked, keys, nodup, members, rfl⟩) sendable rfl
      (fun reply answer => by
        obtain ⟨keys, nodup, members, rfl⟩ := answer
        refine keysAnswer_sendable ?_
        rw [sum_keys nodup members fun key => elementSize key.bytes.length]
        exact fits) (ready.ends client).tail
  -- The error stands for a map without keys.
  have noKeys := eq_empty_iff members
  have answered : rtableGetKeys (callOver codec garbage (invokeTailOver codec garbage n))
      ((ends client).tail, chain) [] =
        .ok ((if contents = ∅ then none else some (keys.map some ++ [none]),
          (connection, after)), []) := by
    by_cases empty : keys = []
    · rw [if_pos (noKeys.mp empty)]
      rw [keysAnswer, if_pos empty] at called
      exact rtableGetKeys_error called rfl
    · rw [if_neg (noKeys.not.mp empty)]
      obtain ⟨success, counted, carried⟩ := keysAnswer_unpacked empty
      exact rtableGetKeys_counted called success counted carried
  exact ⟨_, _, atTail_ran (runOver_bind answered), ⟨keys, nodup, members, rfl⟩,
    ready.call ⟨(ready.ends client).head, idle⟩ agrees ready.fit, rows⟩

/-- A question for the table answers with every pair once, and changes no table. -/
theorem callWired_getTable (faithful : codec.Faithful) (ready : WiredReady contents state)
    (fits : ChainCall.getTable.Fits contents) :
    CallServedOver codec garbage contents client .getTable state := by
  obtain ⟨ends, chain⟩ := state
  have sendable : (bareRequest opGetTable).Sendable :=
    (coded_of (rfl : _ = opGetTable) (rfl : _ = ctNone) (by decide)).sendable int32_zero rfl
      (by decide)
  -- Every server would answer with the pairs of the one map.
  obtain ⟨reply, connection, after, ⟨pairs, nodup, members, rfl⟩, idle, agrees, rows, called⟩ :=
    callOver_question (fun reply => ∃ pairs : List (Key × Block), (pairs.map Prod.fst).Nodup ∧
        (∀ key block, (key, block) ∈ pairs ↔ contents.lookup key = some block) ∧
        reply = (entriesAnswer (bareRequest opGetTable) pairs).2)
      faithful garbage ready.agrees (fun server member => by
        obtain ⟨pairs, nodup, members, invoked⟩ :=
          invoke_entriesAnswer (ready.agrees.holds server member)
            (rfl : (bareRequest opGetTable).opcode = opGetTable)
        exact ⟨_, _, invoked, pairs, nodup, members, rfl⟩) sendable rfl
      (fun reply answer => by
        obtain ⟨pairs, nodup, members, rfl⟩ := answer
        refine entriesAnswer_sendable (le_of_eq_of_le ?_ fits)
        rw [← sum_keys nodup (keys_of_pairs members), List.map_map]
        refine congrArg (4 + List.sum ·) (List.map_congr_left fun pair member => ?_)
        rw [Function.comp_apply, (members pair.1 pair.2).mp member, Option.elim_some])
      (ready.ends client).tail
  have noPairs : pairs = [] ↔ contents = ∅ := by
    rw [← eq_empty_iff (keys_of_pairs members), List.map_eq_nil_iff]
  have answered : rtableGetTable (callOver codec garbage (invokeTailOver codec garbage n))
      ((ends client).tail, chain) [] =
        .ok ((if contents = ∅ then none
          else some ((pairs.map fun pair => some (.ofPair pair)) ++ [none]),
          (connection, after)), []) := by
    by_cases empty : pairs = []
    · rw [if_pos (noPairs.mp empty)]
      rw [entriesAnswer, if_pos empty] at called
      exact rtableGetTable_error called rfl
    · rw [if_neg (noPairs.not.mp empty)]
      obtain ⟨success, counted, carried⟩ := entriesAnswer_unpacked empty
      exact rtableGetTable_counted called success counted carried
  exact ⟨_, _, atTail_ran (runOver_bind answered), ⟨pairs, nodup, members, rfl⟩,
    ready.call ⟨(ready.ends client).head, idle⟩ agrees ready.fit, rows⟩

/-- Every admissible call that fits is served as the map answers it. -/
theorem callWired_served (faithful : codec.Faithful) (ready : WiredReady contents state)
    {call : ChainCall} (admissible : call.AdmissibleOn state.2.servers)
    (fits : call.Fits contents) : CallServedOver codec garbage contents client call state := by
  -- Each kind of call has its lemma.
  cases call with
  | put key data => exact callWired_put faithful ready admissible.1 admissible.2 fits
  | del key => exact callWired_del faithful ready admissible fits
  | get key => exact callWired_get faithful ready admissible fits
  | size => exact callWired_size faithful ready fits
  | getKeys => exact callWired_getKeys faithful ready fits
  | getTable => exact callWired_getTable faithful ready fits

end Calls

/-- A call that is admissible stays so while the servers keep their rows. -/
theorem ChainCall.AdmissibleOn.later {chain after : WiredChain n} {call : ChainCall}
    (admissible : call.AdmissibleOn chain.servers) (rows : after.rows = chain.rows) :
    call.AdmissibleOn after.servers := by
  -- Whether a key hashes inside a table is a matter of its rows.
  have keep : ∀ {key}, (∀ server ∈ chain.servers, server.table.Inside key) →
      ∀ server ∈ after.servers, server.table.Inside key := by
    intro key inside
    have onRows : ∀ row ∈ after.rows, 0 ≤ hashCode key row ∧ hashCode key row < row := by
      rw [rows]
      exact List.forall_mem_map.mpr inside
    exact List.forall_mem_map.mp onRows
  cases call with
  | put key data => exact ⟨keep admissible.1, admissible.2⟩
  | del key => exact keep admissible
  | get key => exact keep admissible
  | size | getKeys | getTable => trivial

/-- A chain that is ready serves every sequence of admissible calls that fit as its map. -/
theorem servesOver_of_ready (faithful : codec.Faithful) {calls : List (ι × ChainCall)} :
    ∀ {contents : Contents} {state : (ι → ClientEnds) × WiredChain n}, WiredReady contents state →
      (∀ call ∈ calls, call.2.AdmissibleOn state.2.servers) →
      AllFit contents (calls.map Prod.snd) → ServesOver codec garbage contents calls state := by
  -- Every call hands a chain that is ready with the next map to the calls after it.
  induction calls with
  | nil => exact fun _ _ _ => trivial
  | cons call calls ih =>
    obtain ⟨client, call⟩ := call
    rintro contents state ready admissible ⟨fits, later⟩
    obtain ⟨reply, after, called, answered, readyAfter, rows⟩ :=
      callWired_served faithful ready (admissible _ List.mem_cons_self) fits
    exact ⟨reply, after, called, answered, readyAfter.agrees.holds, ih readyAfter
      (fun other member => (admissible other (List.mem_cons_of_mem _ member)).later rows) later⟩

/--
A chain of servers just created serves all clients over byte streams as one finite map.

Every request and reply is packed, framed, sent, received and unpacked again, and fits a frame.
-/
theorem wired_chain_is_finite_map (faithful : codec.Faithful) (garbage : Garbage)
    (chain : WiredChain n) (ends : ι → ClientEnds) (calls : List (ι × ChainCall))
    (created : ∀ server ∈ chain.servers, ∃ rows : Nat, 1 ≤ rows ∧
      tableCreate rows [] = .ok (some server.table, []))
    (idle : ∀ connection ∈ chain.connections, connection.Idle)
    (endsIdle : ∀ client, (ends client).Idle)
    (admissible : ∀ call ∈ calls, call.2.AdmissibleOn chain.servers)
    (fit : AllFit ∅ (calls.map Prod.snd)) : ServesOver codec garbage ∅ calls (ends, chain) := by
  -- All tables just created hold the empty map, in which every pair fits.
  refine servesOver_of_ready faithful ⟨⟨fun server member => ?_, idle⟩, endsIdle, ?_⟩ admissible fit
  · obtain ⟨rows, positive, ran⟩ := created server member
    obtain ⟨table, holds, -, attempts⟩ := Table.Holds.create positive
    rw [attempts.succeeds] at ran
    cases ran
    exact holds
  · intro key block found
    rw [Finmap.lookup_empty] at found
    cases found

/-- Two clients of two servers put a block, look it up, list it, and delete it twice. -/
theorem wired_chain_is_finite_map_pair :
    let key : Key := ⟨[97], by decide⟩
    let one : Block := ⟨[1], by decide⟩
    let head : Server := ⟨⟨0, 1, [⟨0, []⟩], rfl⟩, ⟨0, 0, 0⟩, []⟩
    let tail : Server := ⟨⟨0, 2, [⟨0, []⟩, ⟨0, []⟩], rfl⟩, ⟨0, 0, 0⟩, []⟩
    let chain : WiredChain 1 := (head, {}, tail)
    ServesOver schemaCodec ⟨false, 0, 1⟩ ∅
      [(true, .put key (.ofBlock one)), (false, .get key), (true, .getTable), (false, .del key),
        (true, .del key), (true, .size)] ((fun _ => {}), chain) := by
  -- Both tables are empty, all connections are unused, and the key hashes inside.
  intro key one head tail chain
  have both : ∀ {P : Server → Prop}, P head → P tail → ∀ server ∈ chain.servers, P server :=
    fun first second => List.forall_mem_cons.mpr ⟨first, List.forall_mem_singleton.mpr second⟩
  have inside : ∀ server ∈ chain.servers, server.table.Inside key :=
    both (by decide) (by decide)
  have fresh : Socket.Idle {} := ⟨rfl, rfl, rfl, by simp, by simp⟩
  have unused : Connection.Idle {} := ⟨fresh, fresh⟩
  refine wired_chain_is_finite_map schemaCodec_faithful _ chain _ _
    (both ⟨1, by decide, rfl⟩ ⟨2, by decide, rfl⟩) (List.forall_mem_singleton.mpr unused)
    (fun _ => ⟨unused, unused⟩) (fun call member => ?_) (by decide +kernel)
  · simp only [List.mem_cons, List.not_mem_nil, or_false] at member
    rcases member with rfl | rfl | rfl | rfl | rfl | rfl
    · exact ⟨inside, by decide⟩
    · exact inside
    · trivial
    · exact inside
    · exact inside
    · trivial

end ChainTable
