import ChainTable.Server.ChainLaws

/-! Whole histories of a chain: its clients see one finite map, and so does every server. -/

namespace ChainTable

/-- A call of a client: updates go to the head of the chain, and questions to its tail. -/
inductive ChainCall where
  | put (key : Key) (data : Data)
  | del (key : Key)
  | get (key : Key)
  | size
  | getKeys
  | getTable
  deriving DecidableEq, Repr

/-- What a call returns: a number, or a pointer to data, to keys or to entries. -/
inductive ChainReply where
  | code (result : Int)
  | data (data : Option Data)
  | keys (keys : Option (List (Option Key)))
  | entries (entries : Option (List (Option Entry)))
  deriving DecidableEq, Repr

/-- Make one call on a chain. -/
def callChain (n : Nat) : ChainCall → StateT (Chain n) C ChainReply
  | .put key data => return .code (← rtablePut (serve n) (some ⟨some key, some data⟩))
  | .del key => return .code (← rtableDel (serve n) (some key))
  | .get key => return .data (← rtableGet (serveTail n) (some key))
  | .size => return .code (← rtableSize (serveTail n))
  | .getKeys => return .keys (← rtableGetKeys (serveTail n))
  | .getTable => return .entries (← rtableGetTable (serveTail n))

/-- The map a call leaves when the chain is one finite map. -/
def ChainCall.effect (contents : Contents) : ChainCall → Contents
  | .put key data =>
    match data.contents with
    | some block => contents.insert key block
    | none => contents
  | .del key => contents.erase key
  | .get _ | .size | .getKeys | .getTable => contents

/-- What a call answers when the chain is one finite map. -/
def ChainCall.Answered (contents : Contents) : ChainCall → ChainReply → Prop
  | .put _ _, reply => reply = .code 0
  | .del key, reply => reply = .code (if key ∈ contents then 0 else -1)
  | .get key, reply => reply = .data ((contents.lookup key).map Data.ofBlock)
  | .size, reply => reply = .code contents.keys.card
  | .getKeys, reply =>
    -- The order of the keys is left open, but each occurs once.
    ∃ keys : List Key, keys.Nodup ∧ (∀ key, key ∈ keys ↔ key ∈ contents) ∧
      reply = .keys (if contents = ∅ then none else some (keys.map some ++ [none]))
  | .getTable, reply =>
    ∃ pairs : List (Key × Block), (pairs.map Prod.fst).Nodup ∧
      (∀ key block, (key, block) ∈ pairs ↔ contents.lookup key = some block) ∧
      reply = .entries (if contents = ∅ then none
        else some ((pairs.map fun pair => some (.ofPair pair)) ++ [none]))

/-- A call whose data is valid, and whose key hashes inside every table of the chain. -/
def ChainCall.Admissible {n : Nat} (chain : Chain n) : ChainCall → Prop
  | .put key data =>
    (∀ node ∈ chain.nodes, node.server.table.Inside key) ∧ dataValid (some data) = 0
  | .del key | .get key => ∀ node ∈ chain.nodes, node.server.table.Inside key
  | .size | .getKeys | .getTable => True

/--
A chain serves calls one after another as one finite map.

Every call returns what the map answers, and leaves all servers with the map it makes.
-/
def Serves {n : Nat} (contents : Contents) : List ChainCall → Chain n → Prop
  | [], _ => True
  | call :: calls, chain =>
    ∃ reply after, callChain n call chain [] = .ok ((reply, after), []) ∧
      call.Answered contents reply ∧
      (∀ node ∈ after.nodes, node.server.table.Holds (call.effect contents)) ∧
      Serves (call.effect contents) calls after

/-- All servers of a chain hold one map, and every attempt to reach a successor gets through. -/
def Agrees {n : Nat} (contents : Contents) (chain : Chain n) : Prop :=
  ∀ node ∈ chain.nodes, node.server.table.Holds contents ∧ node.link = []

variable {n : Nat} {contents : Contents} {key : Key}

/-- A server that turned from the common map to another one holds that one, with no link used up. -/
theorem Turned.agrees {before after common : Contents} {node node' : Node}
    (turned : Turned before after node node')
    (agrees : node.server.table.Holds common ∧ node.link = []) :
    before = common ∧ node'.server.table.Holds after ∧ node'.link = [] := by
  -- A table holds one map only, and nothing is used up of an empty link.
  have link := turned.link
  rw [agrees.2] at link
  exact ⟨turned.held.unique agrees.1, turned.holds, List.suffix_nil.mp link⟩

/-- A chain that agrees and keeps its maps still agrees. -/
theorem AllKept.agrees {chain chain' : Chain n} (kept : AllKept chain chain')
    (agrees : Agrees contents chain) : Agrees contents chain' := by
  -- Each server held the common map, and holds it still.
  induction n with
  | zero =>
    obtain ⟨contents', turned⟩ := kept
    obtain ⟨rfl, holds⟩ := turned.agrees (agrees chain (List.mem_singleton.mpr rfl))
    intro node member
    rw [List.mem_singleton.mp member]
    exact holds
  | succ n ih =>
    obtain ⟨node, rest⟩ := chain
    obtain ⟨node', rest'⟩ := chain'
    obtain ⟨⟨contents', turned⟩, keptRest⟩ := kept
    obtain ⟨rfl, holds⟩ := turned.agrees (agrees node List.mem_cons_self)
    intro other member
    rcases List.mem_cons.mp member with same | later
    · rw [same]
      exact holds
    · exact ih keptRest (fun old inRest => agrees old (List.mem_cons_of_mem _ inRest)) other later

/-- A chain that agrees still agrees after an update spread over it, as every link gets through. -/
theorem Spread.agrees {update : Update} {chain chain' : Chain n}
    (spread : Spread update chain chain') (agrees : Agrees contents chain) :
    Agrees (update.apply contents) chain' := by
  -- The update applies at each server or at none, as they hold one map.
  induction n with
  | zero =>
    obtain ⟨contents', turned⟩ := spread
    obtain ⟨rfl, holds⟩ := turned.agrees (agrees chain (List.mem_singleton.mpr rfl))
    intro node member
    rw [List.mem_singleton.mp member]
    exact holds
  | succ n ih =>
    obtain ⟨node, rest⟩ := chain
    obtain ⟨node', rest'⟩ := chain'
    obtain ⟨contents', turned, behind⟩ := spread
    have agreesRest : Agrees contents rest := fun old inRest =>
      agrees old (List.mem_cons_of_mem _ inRest)
    have here := agrees node List.mem_cons_self
    obtain ⟨rfl, holds⟩ := turned.agrees here
    -- With nothing left to fail, only an update that does not apply stays at the head.
    have through : GetsThrough node.link := by rw [here.2]; decide
    have restAgrees : Agrees (update.apply contents') rest' := by
      by_cases applies : update.Applies contents'
      · rw [if_pos ⟨applies, through⟩] at behind
        exact ih behind agreesRest
      · rw [if_neg fun both => applies both.1] at behind
        rw [Update.apply_eq_self applies]
        exact behind.agrees agreesRest
    intro other member
    rcases List.mem_cons.mp member with same | later
    · rw [same]
      exact holds
    · exact restAgrees other later

/-- A chain is as ready after an update spread over it as before. -/
theorem Spread.ready {update : Update} {chain chain' : Chain n}
    (spread : Spread update chain chain') (ready : ∀ node ∈ chain.nodes, node.Ready key) :
    ∀ node ∈ chain'.nodes, node.Ready key := by
  -- Each server keeps its rows, whether the update reached it or not.
  induction n with
  | zero =>
    obtain ⟨contents, turned⟩ := spread
    intro node member
    rw [List.mem_singleton.mp member]
    exact turned.ready (ready chain (List.mem_singleton.mpr rfl)).2
  | succ n ih =>
    obtain ⟨node, rest⟩ := chain
    obtain ⟨node', rest'⟩ := chain'
    obtain ⟨contents, turned, behind⟩ := spread
    have readyRest : ∀ other ∈ rest.nodes, other.Ready key := fun other inRest =>
      ready other (List.mem_cons_of_mem _ inRest)
    intro other member
    rcases List.mem_cons.mp member with same | later
    · rw [same]
      exact turned.ready (ready node List.mem_cons_self).2
    · split at behind
      · exact ih behind readyRest other later
      · exact behind.ready readyRest other later

/-- A chain that agrees is ready for every key that hashes inside all its tables. -/
theorem Agrees.ready {chain : Chain n} (agrees : Agrees contents chain)
    (inside : ∀ node ∈ chain.nodes, node.server.table.Inside key) :
    ∀ node ∈ chain.nodes, node.Ready key :=
  fun node member => ⟨⟨contents, (agrees node member).1⟩, inside node member⟩

/-- A question that every server would answer alike is answered by the tail, and changes no map. -/
theorem serveTail_question {chain : Chain n} {msg : MessageT} (Answer : MessageT → Prop)
    (agrees : Agrees contents chain)
    (answers : ∀ node ∈ chain.nodes, ∃ (served : Server) (code : Int) (reply : MessageT),
      served.table = node.server.table ∧ invoke (none : Option (Successor Unit)) (some msg)
        node.server () [] = .ok (((code, reply, served), ()), []) ∧ Answer reply) :
    ∃ reply after, serveTail n msg chain [] = .ok ((some reply, after), []) ∧
      Answer reply ∧ AllKept chain after := by
  -- The question goes past all other servers, and the tail answers it from its map.
  induction n with
  | zero =>
    have member : chain ∈ Chain.nodes chain := List.mem_singleton.mpr rfl
    obtain ⟨served, code, reply, same, invoked, answer⟩ := answers chain member
    obtain ⟨holds, -⟩ := agrees chain member
    exact ⟨reply, _, serve_tail invoked, answer, contents, holds, by rw [same]; exact holds,
      by rw [same], List.suffix_refl _⟩
  | succ n ih =>
    obtain ⟨node, rest⟩ := chain
    obtain ⟨holds, -⟩ := agrees node List.mem_cons_self
    obtain ⟨reply, after, ran, answer, kept⟩ := ih
      (fun other inRest => agrees other (List.mem_cons_of_mem _ inRest))
      (fun other inRest => answers other (List.mem_cons_of_mem _ inRest))
    refine ⟨reply, (node, after), ?_, answer,
      ⟨contents, holds, holds, rfl, List.suffix_refl _⟩, kept⟩
    change (serveTail n msg rest >>= _) [] = _
    rw [run_bind ran]
    rfl

/-- A map with no keys is the empty map. -/
theorem eq_empty_iff {keys : List Key} (members : ∀ key, key ∈ keys ↔ key ∈ contents) :
    keys = [] ↔ contents = ∅ := by
  -- A map is empty exactly if no key is in it.
  constructor
  · intro empty
    refine Finmap.ext_lookup fun key => ?_
    rw [Finmap.lookup_empty, Finmap.lookup_eq_none, ← members key, empty]
    exact List.not_mem_nil
  · intro empty
    refine List.eq_nil_iff_forall_not_mem.mpr fun key member => ?_
    rw [members, empty] at member
    exact Finmap.notMem_empty member

/-- The keys of the pairs of a map are those of the map. -/
theorem keys_of_pairs {pairs : List (Key × Block)}
    (members : ∀ key block, (key, block) ∈ pairs ↔ contents.lookup key = some block) (key : Key) :
    key ∈ pairs.map Prod.fst ↔ key ∈ contents := by
  rw [Finmap.mem_iff, List.mem_map]
  constructor
  · rintro ⟨⟨key, block⟩, member, rfl⟩
    exact ⟨block, (members key block).mp member⟩
  · rintro ⟨block, found⟩
    exact ⟨(key, block), (members key block).mpr found, rfl⟩

section Calls

variable {chain : Chain n}

/-- What a call has to do on a chain that agrees: answer as the map, and leave one that agrees. -/
def CallServed (contents : Contents) (call : ChainCall) (chain : Chain n) : Prop :=
  ∃ reply after, callChain n call chain [] = .ok ((reply, after), []) ∧
    call.Answered contents reply ∧ Agrees (call.effect contents) after ∧
    ∀ key, (∀ node ∈ chain.nodes, node.Ready key) → ∀ node ∈ after.nodes, node.Ready key

/-- A put answers 0, and puts its block into every table. -/
theorem callChain_put (agrees : Agrees contents chain) {data : Data}
    (inside : ∀ node ∈ chain.nodes, node.server.table.Inside key)
    (valid : dataValid (some data) = 0) : CallServed contents (.put key data) chain := by
  -- Valid data has a block, and a put of it applies at every server.
  obtain ⟨block, found⟩ := exists_contents valid
  have asks : Asks (putRequest (some key) data) (.put key block) := asks_putRequest found
  obtain ⟨holds, -⟩ := agrees _ chain.head_mem_nodes
  obtain ⟨after, served, spread⟩ := serve_update (.put key block) n chain _ asks
    (agrees.ready inside) contents holds
  have applies : (Update.put key block).Applies contents := trivial
  rw [if_pos applies] at served
  have result := result_updateReply asks
  simp only [Update.result] at result
  refine ⟨.code 0, after, ?_, rfl, ?_, fun other => spread.ready⟩
  · have sent := rtablePut_answered served
    rw [result] at sent
    simp only [callChain]
    rw [runOver_bind sent]
    rfl
  · simp only [ChainCall.effect, found]
    exact spread.agrees agrees

/-- A deletion answers whether its key was there, and takes it out of every table. -/
theorem callChain_del (agrees : Agrees contents chain)
    (inside : ∀ node ∈ chain.nodes, node.server.table.Inside key) :
    CallServed contents (.del key) chain := by
  -- The deletion applies at every server or at none, as they hold one map.
  have asks := asks_request (.del key)
  obtain ⟨holds, -⟩ := agrees _ chain.head_mem_nodes
  obtain ⟨after, served, spread⟩ := serve_update (.del key) n chain _ asks
    (agrees.ready inside) contents holds
  -- The head answers with success exactly when the key was there.
  have stored := Update.del_applies_iff key contents
  have sent : rtableDel (serve n) (some key) chain [] =
      .ok ((if key ∈ contents then 0 else -1, after), []) := by
    rw [rtableDel_answered served]
    by_cases present : key ∈ contents
    · have applies := stored.mpr present
      have result := result_updateReply asks
      simp only [Update.result] at result
      rw [if_pos applies, result, if_pos present]
    · have refused : ¬ (Update.del key).Applies contents := fun applies =>
        present (stored.mp applies)
      have result := result_errorReply (Update.del key).request (.del key)
      simp only [Update.result] at result
      rw [if_neg refused, result, if_neg present]
  refine ⟨.code (if key ∈ contents then 0 else -1), after, ?_, rfl, spread.agrees agrees,
    fun other => spread.ready⟩
  simp only [callChain]
  rw [runOver_bind sent]
  rfl

/-- A lookup answers with the block of its key, and changes no table. -/
theorem callChain_get (agrees : Agrees contents chain)
    (inside : ∀ node ∈ chain.nodes, node.server.table.Inside key) :
    CallServed contents (.get key) chain := by
  -- Every server would answer with the block of the one map.
  obtain ⟨reply, after, answered, answer, kept⟩ := serveTail_question _
    agrees fun node member => invoke_get (agrees node member).1 (inside node member)
      (show (getRequest (some key)).opcode = opGet from rfl) rfl
  refine ⟨.data ((contents.lookup key).map Data.ofBlock), after, ?_, rfl, kept.agrees agrees,
    fun other => kept.ready⟩
  simp only [callChain]
  -- NULL stands for a key that is not in the map.
  cases found : contents.lookup key with
  | none =>
    rw [found] at answer
    rw [runOver_bind (rtableGet_missing answered answer)]
    rfl
  | some block =>
    rw [found] at answer
    rw [runOver_bind (rtableGet_found answered answer.1 answer.2)]
    rfl

/-- A question for the size answers with the number of keys, and changes no table. -/
theorem callChain_size (agrees : Agrees contents chain) : CallServed contents .size chain := by
  -- Every server would answer with the number of keys of the one map.
  obtain ⟨reply, after, answered, ⟨success, result⟩, kept⟩ := serveTail_question
    (fun reply => reply.opcode = opSize + 1 ∧ reply.result = contents.keys.card)
    agrees fun node member => by
      obtain ⟨served, reply, same, invoked, answer⟩ := invoke_size (agrees node member).1
        (show (bareRequest opSize).opcode = opSize from rfl)
      exact ⟨served, 0, reply, same, invoked, answer⟩
  refine ⟨.code reply.result, after, ?_, ?_, kept.agrees agrees, fun other => kept.ready⟩
  · simp only [callChain]
    rw [runOver_bind (rtableSize_answered answered success)]
    rfl
  · simp only [ChainCall.Answered, result]

/-- A question for the keys answers with every key once, and changes no table. -/
theorem callChain_getKeys (agrees : Agrees contents chain) :
    CallServed contents .getKeys chain := by
  -- Every server would answer with the keys of the one map.
  obtain ⟨reply, after, answered, ⟨keys, nodup, members, answer⟩, kept⟩ :=
    serveTail_question (KeysReply contents) agrees fun node member =>
      invoke_getKeys (agrees node member).1
        (show (bareRequest opGetKeys).opcode = opGetKeys from rfl)
  refine ⟨.keys (if contents = ∅ then none else some (keys.map some ++ [none])), after, ?_,
    ⟨keys, nodup, members, rfl⟩, kept.agrees agrees, fun other => kept.ready⟩
  simp only [callChain, ← eq_empty_iff members]
  -- The error stands for a map without keys.
  by_cases empty : keys = []
  · rw [if_pos empty] at answer
    rw [runOver_bind (rtableGetKeys_error answered answer), if_pos empty]
    rfl
  · rw [if_neg empty] at answer
    rw [runOver_bind (rtableGetKeys_answered answered answer.1 answer.2.1 answer.2.2), if_neg empty]
    rfl

/-- A question for the table answers with every pair once, and changes no table. -/
theorem callChain_getTable (agrees : Agrees contents chain) :
    CallServed contents .getTable chain := by
  -- Every server would answer with the pairs of the one map.
  obtain ⟨reply, after, answered, ⟨pairs, nodup, members, answer⟩, kept⟩ :=
    serveTail_question (EntriesReply contents) agrees fun node member =>
      invoke_getTable (agrees node member).1
        (show (bareRequest opGetTable).opcode = opGetTable from rfl)
  have noPairs : pairs = [] ↔ contents = ∅ := by
    rw [← eq_empty_iff (keys_of_pairs members), List.map_eq_nil_iff]
  refine ⟨.entries (if contents = ∅ then none
      else some ((pairs.map fun pair => some (.ofPair pair)) ++ [none])), after, ?_,
    ⟨pairs, nodup, members, rfl⟩, kept.agrees agrees, fun other => kept.ready⟩
  simp only [callChain, ← noPairs]
  by_cases empty : pairs = []
  · rw [if_pos empty] at answer
    rw [runOver_bind (rtableGetTable_error answered answer), if_pos empty]
    rfl
  · rw [if_neg empty] at answer
    rw [runOver_bind (rtableGetTable_answered answered answer.1 answer.2.1 answer.2.2),
      if_neg empty]
    rfl

/-- Every admissible call is served as the map answers it. -/
theorem callChain_served (agrees : Agrees contents chain) {call : ChainCall}
    (admissible : call.Admissible chain) : CallServed contents call chain := by
  -- Each kind of call has its lemma.
  cases call with
  | put key data => exact callChain_put agrees admissible.1 admissible.2
  | del key => exact callChain_del agrees admissible
  | get key => exact callChain_get agrees admissible
  | size => exact callChain_size agrees
  | getKeys => exact callChain_getKeys agrees
  | getTable => exact callChain_getTable agrees

/-- A call that is admissible stays so while the servers stay ready for the same keys. -/
theorem ChainCall.Admissible.later {after : Chain n} {call : ChainCall}
    (admissible : call.Admissible chain) (agrees : Agrees contents chain)
    (ready : ∀ key, (∀ node ∈ chain.nodes, node.Ready key) → ∀ node ∈ after.nodes, node.Ready key) :
    call.Admissible after := by
  -- Admissible calls ask for rows only, and the rows stay.
  have keep : ∀ {key}, (∀ node ∈ chain.nodes, node.server.table.Inside key) →
      ∀ node ∈ after.nodes, node.server.table.Inside key := fun inside node member =>
    (ready _ (agrees.ready inside) node member).2
  cases call with
  | put key data => exact ⟨keep admissible.1, admissible.2⟩
  | del key => exact keep admissible
  | get key => exact keep admissible
  | size | getKeys | getTable => trivial

end Calls

/-- A chain that agrees serves every sequence of admissible calls as its map. -/
theorem serves_of_agrees {calls : List ChainCall} :
    ∀ {contents : Contents} {chain : Chain n}, Agrees contents chain →
      (∀ call ∈ calls, call.Admissible chain) → Serves contents calls chain := by
  -- Every call hands a chain that agrees on the next map to the calls after it.
  induction calls with
  | nil => exact fun _ _ => trivial
  | cons call calls ih =>
    intro contents chain agrees admissible
    obtain ⟨reply, after, called, answered, agreesAfter, ready⟩ :=
      callChain_served agrees (admissible call List.mem_cons_self)
    refine ⟨reply, after, called, answered, fun node member => (agreesAfter node member).1,
      ih agreesAfter fun later member => ?_⟩
    exact (admissible later (List.mem_cons_of_mem _ member)).later agrees ready

/--
A chain of servers just created, linked one to the next, serves all clients as one finite map.

The servers may have different numbers of rows.
-/
theorem chain_is_finite_map (n : Nat) (chain : Chain n) (calls : List ChainCall)
    (created : ∀ node ∈ chain.nodes, ∃ rows : Nat, 1 ≤ rows ∧
      tableCreate rows [] = .ok (some node.server.table, []))
    (linked : ∀ node ∈ chain.nodes, node.link = [])
    (admissible : ∀ call ∈ calls, call.Admissible chain) : Serves ∅ calls chain := by
  -- All tables just created hold the empty map, on which the servers agree.
  refine serves_of_agrees (fun node member => ⟨?_, linked node member⟩) admissible
  obtain ⟨rows, positive, ran⟩ := created node member
  obtain ⟨table, holds, -, attempts⟩ := Table.Holds.create positive
  rw [attempts.succeeds] at ran
  cases ran
  exact holds

/-- Two servers of one and of two rows serve a put, questions, and a deletion asked for twice. -/
theorem chain_is_finite_map_pair :
    let key : Key := ⟨[97], by decide⟩
    let one : Block := ⟨[1], by decide⟩
    let head : Node := ⟨⟨⟨0, 1, [⟨0, []⟩], rfl⟩, ⟨0, 0, 0⟩, []⟩, []⟩
    let tail : Node := ⟨⟨⟨0, 2, [⟨0, []⟩, ⟨0, []⟩], rfl⟩, ⟨0, 0, 0⟩, []⟩, []⟩
    let chain : Chain 1 := (head, tail)
    Serves ∅ [.put key (.ofBlock one), .get key, .getTable, .del key, .del key, .size] chain := by
  intro key one head tail chain
  have both : ∀ {P : Node → Prop}, P head → P tail → ∀ node ∈ chain.nodes, P node :=
    fun first second => List.forall_mem_cons.mpr ⟨first, List.forall_mem_singleton.mpr second⟩
  have inside : ∀ node ∈ chain.nodes, node.server.table.Inside key :=
    both (by decide) (by decide)
  refine chain_is_finite_map 1 chain _ (both ⟨1, by decide, rfl⟩ ⟨2, by decide, rfl⟩)
    (both rfl rfl) fun call member => ?_
  simp only [List.mem_cons, List.not_mem_nil, or_false] at member
  rcases member with rfl | rfl | rfl | rfl | rfl | rfl
  · exact ⟨inside, by decide⟩
  · exact inside
  · trivial
  · exact inside
  · exact inside
  · trivial

end ChainTable
