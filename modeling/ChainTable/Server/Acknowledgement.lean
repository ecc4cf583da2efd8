import ChainTable.Server.ChainLaws

/-! When the success a server acknowledges means that its successors applied the update. -/

namespace ChainTable

/-- A successor whose attempts turn out as given, counting the attempts made. -/
def scripted (outcomes : Nat → Int) : Successor Nat :=
  fun _ made => return (outcomes made, made + 1)

/-- A server acknowledges a success only if some attempt to pass it on returned 0. -/
def AcknowledgedHonestly (outcomes : Nat → Int) (msg : MessageT) (server : Server)
    (mem : Mem) : Prop :=
  ∀ reply served attempts mem',
    invoke (some (scripted outcomes)) (some msg) server 0 mem =
      .ok (((0, reply, served), attempts), mem') →
    reply.opcode = msg.opcode + 1 → ∃ attempt < attempts, outcomes attempt = 0

/-- A table on which the update is settled: a lookup of its key answers what the update leaves. -/
def Update.Settled (update : Update) (table : Table) : Prop :=
  tableGet table (some update.key) [] = .ok (update.value.map Data.ofBlock, [])

/-- A table to which an update applies: a put always, a deletion where a lookup finds something. -/
def Update.AppliesTo (update : Update) (table : Table) : Prop :=
  match update with
  | .put _ _ => True
  | .del key => tableGet table (some key) [] ≠ .ok (none, [])

instance (update : Update) (table : Table) : Decidable (update.AppliesTo table) :=
  match update with
  | .put _ _ => inferInstanceAs (Decidable True)
  | .del _ => inferInstanceAs (Decidable (_ ≠ _))

/-- The update reaches every server of the chain on which it is not settled beforehand. -/
def Carried (update : Update) : {n : Nat} → Chain n → Prop
  | 0, _ => True
  | _ + 1, (node, rest) =>
    if update.AppliesTo node.server.table ∧ GetsThrough node.link then Carried update rest
    else ∀ other ∈ rest.nodes, update.Settled other.server.table

/-- The loop stops at the first attempt that returns 0, or after as many failures as it may make. -/
theorem retryLoop_scripted {outcomes : Nat → Int}
    (binary : ∀ attempt, outcomes attempt = 0 ∨ outcomes attempt = -1) (forward : Forward)
    (mem : Mem) (retriesLeft : Nat) :
    ∀ made, ∃ result made', made' ≤ made + retriesLeft ∧
      retryLoop (scripted outcomes forward) retriesLeft made mem = .ok ((result, made'), mem) ∧
      ((∃ attempt, made ≤ attempt ∧ attempt < made' ∧ outcomes attempt = 0) ∨
        ∀ attempt, made ≤ attempt → attempt < made + retriesLeft → outcomes attempt = -1) := by
  -- The loop makes one attempt after another, so the number made so far stays open.
  induction retriesLeft with
  | zero => exact fun made => ⟨-1, made, le_refl _, rfl, .inr fun attempt low high => by omega⟩
  | succ retriesLeft ih =>
    intro made
    have tried : scripted outcomes forward made mem =
        .ok ((outcomes made, made + 1), mem) := rfl
    simp only [retryLoop]
    rw [runOver_bind tried]
    rcases binary made with succeeded | failed
    · -- The attempt returned 0, so the loop is left with it.
      refine ⟨0, made + 1, by omega, ?_, .inl ⟨made, le_refl _, by omega, succeeded⟩⟩
      rw [succeeded]
      rfl
    · obtain ⟨result, made', bound, ran, outcome⟩ := ih (made + 1)
      refine ⟨result, made', by omega, ?_, ?_⟩
      · rw [if_pos failed]
        exact ran
      · rcases outcome with ⟨attempt, low, high, zero⟩ | all
        · exact .inl ⟨attempt, by omega, high, zero⟩
        · refine .inr fun attempt low high => ?_
          -- The attempt is the one just made, or a later one.
          rcases Nat.eq_or_lt_of_le low with same | later
          · rw [← same, failed]
          · exact all attempt later (by omega)

/-- A server acknowledges honestly exactly when some attempt it may make returns 0. -/
theorem acknowledgedHonestly_iff {outcomes : Nat → Int}
    (binary : ∀ attempt, outcomes attempt = 0 ∨ outcomes attempt = -1) {msg : MessageT}
    {server : Server} {after : Table} {forward : Forward} {mem mem' : Mem}
    (isUpdate : msg.opcode = opPut ∨ msg.opcode = opDel)
    (applied : updateLocally msg server.table mem = .ok ((some forward, after), mem')) :
    AcknowledgedHonestly outcomes msg server mem ↔
      ∃ attempt < maxRetries, outcomes attempt = 0 := by
  -- The update was applied, so the reply is a success, whatever the loop returned.
  obtain ⟨result, made, bound, ran, outcome⟩ :=
    retryLoop_scripted binary forward mem' maxRetries 0
  have sent : sendDown (some (scripted outcomes)) forward 0 mem' = .ok (((), made), mem') := by
    unfold sendDown
    simp only []
    rw [runOver_bind ran]
    rfl
  obtain ⟨served, -, invoked⟩ := invoke_passed isUpdate applied sent
  constructor
  · -- The reply is a success in any case, so honesty names an attempt.
    intro honest
    obtain ⟨attempt, low, zero⟩ := honest _ _ _ _ invoked rfl
    exact ⟨attempt, by omega, zero⟩
  · -- The loop stops at the first attempt that returns 0, and there is one.
    rintro ⟨attempt, low, zero⟩ reply served' attempts left invoked' success
    rw [invoked] at invoked'
    cases invoked'
    rcases outcome with ⟨first, -, high, zeroFirst⟩ | all
    · exact ⟨first, high, zeroFirst⟩
    · have failed := all attempt (Nat.zero_le _) (by omega)
      omega

section Settling

variable {update : Update} {table : Table} {contents : Contents}

/-- Where an update is settled, the map has its value. -/
theorem lookup_of_settled (holds : table.Holds contents) (settled : update.Settled table) :
    contents.lookup update.key = update.value := by
  -- The lookup answered what the update leaves, and its answer is that of the map.
  have values := holds.get_ran settled
  exact Option.map_injective ofBlock_injective values.symm

/-- On a table that holds a map, an update is settled when the map has its value. -/
theorem settled_iff (holds : table.Holds contents) (inside : table.Inside update.key) :
    update.Settled table ↔ contents.lookup update.key = update.value := by
  -- The lookup of a key that has a row answers what the map has.
  refine ⟨lookup_of_settled holds, fun same => ?_⟩
  unfold Update.Settled
  rw [holds.get inside, same]

/-- To a table that holds a map, an update applies when it applies to the map. -/
theorem appliesTo_iff (holds : table.Holds contents) (inside : table.Inside update.key) :
    update.AppliesTo table ↔ update.Applies contents := by
  -- Only a deletion looks at the table, and a lookup answers what the map has.
  cases update with
  | put key block => exact Iff.rfl
  | del key =>
    have found := holds.get inside
    simp only [Update.AppliesTo, Update.Applies]
    change tableGet table (some key) [] ≠ _ ↔ _
    change tableGet table (some key) [] = _ at found
    rw [found]
    simp [Update.key]

/-- An update is settled where it was applied. -/
theorem Turned.settled {node node' : Node} (inside : node.server.table.Inside update.key)
    (turned : Turned contents (update.apply contents) node node') :
    update.Settled node'.server.table := by
  -- The key of the update has its value in the map that the table holds now.
  rw [settled_iff turned.holds (turned.ready inside).2, Update.lookup_apply, if_pos rfl]

/-- Where a map was kept, an update is settled when it was. -/
theorem Turned.settled_iff {node node' : Node} (inside : node.server.table.Inside update.key)
    (turned : Turned contents contents node node') :
    update.Settled node'.server.table ↔ update.Settled node.server.table := by
  -- Both tables hold the same map.
  rw [ChainTable.settled_iff turned.holds (turned.ready inside).2,
    ChainTable.settled_iff turned.held inside]

/-- Where all maps were kept, an update is settled everywhere when it was. -/
theorem AllKept.settled_iff {n : Nat} {chain chain' : Chain n}
    (ready : ∀ node ∈ chain.nodes, node.Ready update.key) (kept : AllKept chain chain') :
    (∀ node ∈ chain'.nodes, update.Settled node.server.table) ↔
      ∀ node ∈ chain.nodes, update.Settled node.server.table := by
  -- Each server holds the map that it held before.
  induction n with
  | zero =>
    obtain ⟨contents, turned⟩ := kept
    have same := turned.settled_iff (ready chain (List.mem_singleton.mpr rfl)).2
    have only : ∀ node : Node, (∀ other ∈ [node], update.Settled other.server.table) ↔
        update.Settled node.server.table := fun node => List.forall_mem_singleton
    exact ((only chain').trans same).trans (only chain).symm
  | succ n ih =>
    obtain ⟨node, rest⟩ := chain
    obtain ⟨node', rest'⟩ := chain'
    obtain ⟨⟨contents, turned⟩, keptRest⟩ := kept
    have same := turned.settled_iff (ready node List.mem_cons_self).2
    have sameRest := ih (fun other member => ready other (List.mem_cons_of_mem _ member)) keptRest
    simp only [Chain.nodes, List.forall_mem_cons, same, sameRest]

/-- After an update spread, it is settled everywhere exactly when it was carried everywhere. -/
theorem Spread.settled_iff {n : Nat} {chain chain' : Chain n}
    (ready : ∀ node ∈ chain.nodes, node.Ready update.key) (spread : Spread update chain chain') :
    (∀ node ∈ chain'.nodes, update.Settled node.server.table) ↔ Carried update chain := by
  -- The head settles the update itself, so the successors decide.
  induction n with
  | zero =>
    obtain ⟨contents, turned⟩ := spread
    have settled := turned.settled (ready chain (List.mem_singleton.mpr rfl)).2
    exact ⟨fun _ => trivial, fun _ => List.forall_mem_singleton.mpr settled⟩
  | succ n ih =>
    obtain ⟨node, rest⟩ := chain
    obtain ⟨node', rest'⟩ := chain'
    obtain ⟨contents, turned, behind⟩ := spread
    have inside := (ready node List.mem_cons_self).2
    have settled := turned.settled inside
    have readyRest : ∀ other ∈ rest.nodes, other.Ready update.key := fun other member =>
      ready other (List.mem_cons_of_mem _ member)
    simp only [Chain.nodes, List.forall_mem_cons, settled, true_and, Carried,
      appliesTo_iff turned.held inside]
    split at behind
    · -- The successor was asked, so the update spread further.
      rename_i reached
      rw [if_pos reached, ih readyRest behind]
    · -- The successor was not reached, and all maps behind are as before.
      rename_i missed
      rw [if_neg missed, behind.settled_iff readyRest]

end Settling

/--
What an acknowledged success says about the successors, at one server and along a chain.

At one server, it says that some attempt returned 0 exactly when one of those it may make does.
Along a chain, it says that the update is settled everywhere exactly when it was carried everywhere.
-/
theorem acknowledgement_iff {n : Nat} (chain : Chain n) (update : Update) :
    (∀ (outcomes : Nat → Int) (msg : MessageT) (server : Server) (after : Table)
        (forward : Forward) (mem mem' : Mem),
      (∀ attempt, outcomes attempt = 0 ∨ outcomes attempt = -1) →
      msg.opcode = opPut ∨ msg.opcode = opDel →
      updateLocally msg server.table mem = .ok ((some forward, after), mem') →
      (AcknowledgedHonestly outcomes msg server mem ↔
        ∃ attempt < maxRetries, outcomes attempt = 0)) ∧
    ((∀ node ∈ chain.nodes, node.Ready update.key) →
      ∃ reply after, serve n update.request chain [] = .ok ((some reply, after), []) ∧
        ((reply.opcode = update.request.opcode + 1 →
            ∀ node ∈ after.nodes, update.Settled node.server.table) ↔
          (update.AppliesTo chain.head.server.table → Carried update chain))) := by
  -- The part about one server does not look at the chain.
  refine ⟨fun outcomes msg server after forward mem mem' binary isUpdate applied =>
    acknowledgedHonestly_iff binary isUpdate applied, fun ready => ?_⟩
  obtain ⟨⟨contents, holds⟩, inside⟩ := ready _ chain.head_mem_nodes
  obtain ⟨after, served, spread⟩ :=
    serve_update update n chain _ (asks_request update) ready _ holds
  refine ⟨_, after, served, ?_⟩
  rw [spread.settled_iff ready, appliesTo_iff holds inside]
  -- The head replies with success exactly when the update applies to its map.
  by_cases applies : update.Applies contents
  · simp [applies, updateReply]
  · have notSuccess : ¬ opError = update.request.opcode + 1 := by
      rcases update.request_opcode with isPut | isDel
      · rw [isPut]; decide
      · rw [isDel]; decide
    simp [applies, errorReply, notSuccess]

/--
Ten failed attempts are acknowledged as a success, and the tail never hears of the put.

The last part runs a chain of two, and reads the code of the reply and a lookup at the tail.
-/
theorem acknowledged_after_ten_failures :
    let key : Key := ⟨[97], by decide⟩
    let put : Update := .put key ⟨[1], by decide⟩
    let server : Server := ⟨⟨0, 1, [⟨0, []⟩], rfl⟩, ⟨0, 0, 0⟩, []⟩
    let chain : Chain 1 :=
      ((⟨server, List.replicate 10 false⟩ : Node), (⟨server, []⟩ : Node))
    (∃ forward after, updateLocally put.request server.table [] =
      .ok ((some forward, after), [])) ∧
    ¬ AcknowledgedHonestly (fun _ => -1) put.request server [] ∧
    (serve 1 put.request chain []).map (fun result => (result.1.1.map MessageT.opcode,
        tableGet result.1.2.2.server.table (some key) [])) =
      .ok (some (opPut + 1), .ok (none, [])) := by
  -- The table has one row, so that the put is applied at the head.
  intro key put server chain
  have holds : server.table.Holds ∅ := ⟨1, .empty _ 1, rfl, Buckets.lookup_empty⟩
  have inside : server.table.Inside put.key := by decide
  obtain ⟨after, -, -, applied⟩ := updateLocally_request holds inside
  refine ⟨⟨_, _, applied⟩, ?_, by decide +kernel⟩
  rw [acknowledgedHonestly_iff (fun _ => .inr rfl) (.inl rfl) applied]
  rintro ⟨attempt, -, zero⟩
  cases zero

/-- One attempt that gets through is enough, at one server and in a chain of two. -/
theorem acknowledgement_iff_second_attempt :
    let key : Key := ⟨[97], by decide⟩
    let put : Update := .put key ⟨[1], by decide⟩
    let server : Server := ⟨⟨0, 1, [⟨0, []⟩], rfl⟩, ⟨0, 0, 0⟩, []⟩
    let chain : Chain 1 := ((⟨server, [false, true]⟩ : Node), (⟨server, []⟩ : Node))
    AcknowledgedHonestly (fun attempt => if attempt = 1 then 0 else -1) put.request server [] ∧
    ∃ reply after, serve 1 put.request chain [] = .ok ((some reply, after), []) ∧
      (reply.opcode = opPut + 1 → ∀ node ∈ after.nodes, put.Settled node.server.table) := by
  intro key put server chain
  have holds : server.table.Holds ∅ := ⟨1, .empty _ 1, rfl, Buckets.lookup_empty⟩
  have inside : server.table.Inside put.key := by decide
  have ready : ∀ node ∈ chain.nodes, node.Ready put.key := by
    intro node member
    have same : node.server = server := by
      rcases List.mem_cons.mp member with first | second
      · rw [first]
      · rw [List.mem_singleton.mp second]
    exact ⟨⟨∅, by rw [same]; exact holds⟩, by rw [same]; exact inside⟩
  have binary : ∀ attempt : Nat, (if attempt = 1 then (0 : Int) else -1) = 0 ∨
      (if attempt = 1 then (0 : Int) else -1) = -1 := by
    intro attempt
    split
    · exact .inl rfl
    · exact .inr rfl
  obtain ⟨after, -, -, applied⟩ := updateLocally_request holds inside
  constructor
  · have honest := (acknowledgement_iff chain put).1 _ put.request server _ _ [] [] binary
      (.inl rfl) applied
    exact honest.mpr ⟨1, by decide, rfl⟩
  · obtain ⟨reply, after, served, iff⟩ := (acknowledgement_iff chain put).2 ready
    refine ⟨reply, after, served, iff.mpr fun _ => ?_⟩
    -- The first attempt is lost, and the second gets through.
    have through : put.AppliesTo server.table ∧ GetsThrough [false, true] := ⟨trivial, by decide⟩
    simp only [chain, Carried, if_pos through]

end ChainTable
