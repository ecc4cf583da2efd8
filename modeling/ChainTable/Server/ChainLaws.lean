import ChainTable.Server.Chain

/-! How far an update spreads over a chain, by the maps its servers hold before and after. -/

namespace ChainTable

/-- A server of the chain holds a map, and has a row for the key. -/
def Node.Ready (key : Key) (node : Node) : Prop :=
  (∃ contents, node.server.table.Holds contents) ∧ node.server.table.Inside key

/-- What one server holds turned into another map, with the same rows and a link used up in part. -/
structure Turned (before after : Contents) (node node' : Node) : Prop where
  held : node.server.table.Holds before
  holds : node'.server.table.Holds after
  rows : node'.server.table.rows = node.server.table.rows
  link : node'.link <:+ node.link

/-- No server of the chain changed its map. -/
def AllKept : {n : Nat} → Chain n → Chain n → Prop
  | 0, node, node' => ∃ contents, Turned contents contents node node'
  | _ + 1, (node, rest), (node', rest') =>
    (∃ contents, Turned contents contents node node') ∧ AllKept rest rest'

/-- An update spread over the chain, as far as it applied and some attempt got through. -/
def Spread (update : Update) : {n : Nat} → Chain n → Chain n → Prop
  | 0, node, node' => ∃ contents, Turned contents (update.apply contents) node node'
  | _ + 1, (node, rest), (node', rest') =>
    ∃ contents, Turned contents (update.apply contents) node node' ∧
      if update.Applies contents ∧ GetsThrough node.link then Spread update rest rest'
      else AllKept rest rest'

/-- A server whose map turned is as ready as it was, since its rows stayed. -/
theorem Turned.ready {before after : Contents} {node node' : Node} {key : Key}
    (turned : Turned before after node node') (inside : node.server.table.Inside key) :
    node'.Ready key :=
  ⟨⟨after, turned.holds⟩, by rw [Table.Inside, turned.rows]; exact inside⟩

/-- A chain that kept its maps is as ready as it was. -/
theorem AllKept.ready {key : Key} :
    ∀ {n : Nat} {chain chain' : Chain n}, AllKept chain chain' →
      (∀ node ∈ chain.nodes, node.Ready key) → ∀ node ∈ chain'.nodes, node.Ready key := by
  -- Each server keeps its rows, and still holds a map.
  intro n
  induction n with
  | zero =>
    rintro chain chain' ⟨contents, turned⟩ ready node member
    rw [List.mem_singleton.mp member]
    exact turned.ready (ready chain (List.mem_singleton.mpr rfl)).2
  | succ n ih =>
    rintro ⟨node, rest⟩ ⟨node', rest'⟩ ⟨⟨contents, turned⟩, kept⟩ ready other member
    rcases List.mem_cons.mp member with same | later
    · rw [same]
      exact turned.ready (ready node (List.mem_cons_self)).2
    · exact ih kept (fun old inRest => ready old (List.mem_cons_of_mem _ inRest)) other later

/-- A chain whose servers hold maps keeps them when nothing happens. -/
theorem AllKept.refl {key : Key} :
    ∀ {n : Nat} {chain : Chain n}, (∀ node ∈ chain.nodes, node.Ready key) →
      AllKept chain chain := by
  -- Each server holds a map, which is what it holds afterwards.
  intro n
  induction n with
  | zero =>
    intro chain ready
    obtain ⟨⟨contents, holds⟩, -⟩ := ready chain (List.mem_singleton.mpr rfl)
    exact ⟨contents, holds, holds, rfl, List.suffix_refl _⟩
  | succ n ih =>
    rintro ⟨node, rest⟩ ready
    obtain ⟨⟨contents, holds⟩, -⟩ := ready node (List.mem_cons_self)
    exact ⟨⟨contents, holds, holds, rfl, List.suffix_refl _⟩,
      ih fun other member => ready other (List.mem_cons_of_mem _ member)⟩

/-- Maps turned twice are turned once. -/
theorem Turned.trans {first second third : Contents} {node node' node'' : Node}
    (turned : Turned first second node node') (again : Turned second third node' node'') :
    Turned first third node node'' where
  held := turned.held
  holds := again.holds
  rows := again.rows.trans turned.rows
  link := again.link.trans turned.link

/-- Maps kept twice are kept. -/
theorem AllKept.trans :
    ∀ {n : Nat} {chain chain' chain'' : Chain n}, AllKept chain chain' →
      AllKept chain' chain'' → AllKept chain chain'' := by
  -- Both steps speak of the same map, since a table holds one map only.
  have join : ∀ {node node' node'' : Node}, (∃ contents, Turned contents contents node node') →
      (∃ contents, Turned contents contents node' node'') →
      ∃ contents, Turned contents contents node node'' := by
    rintro node node' node'' ⟨contents, turned⟩ ⟨contents', again⟩
    obtain rfl := turned.holds.unique again.held
    exact ⟨contents, turned.trans again⟩
  intro n
  induction n with
  | zero => exact join
  | succ n ih =>
    rintro ⟨node, rest⟩ ⟨node', rest'⟩ ⟨node'', rest''⟩ ⟨first, kept⟩ ⟨second, keptAgain⟩
    exact ⟨join first second, ih kept keptAgain⟩

/-- An update that does not apply at the head of a chain changes no map of it. -/
theorem Spread.allKept {update : Update} :
    ∀ {n : Nat} {chain chain' : Chain n} {contents : Contents}, Spread update chain chain' →
      chain.head.server.table.Holds contents → ¬ update.Applies contents →
      AllKept chain chain' := by
  -- The head would have changed, and nothing was passed on by it.
  intro n
  cases n with
  | zero =>
    rintro chain chain' contents ⟨contents', turned⟩ holds refused
    obtain rfl := turned.held.unique holds
    rw [Update.apply_eq_self refused] at turned
    exact ⟨contents', turned⟩
  | succ n =>
    rintro ⟨node, rest⟩ ⟨node', rest'⟩ contents ⟨contents', turned, spread⟩ holds refused
    obtain rfl := turned.held.unique holds
    rw [Update.apply_eq_self refused] at turned
    rw [if_neg fun applies => refused applies.1] at spread
    exact ⟨⟨contents', turned⟩, spread⟩

/-- When no map changes, an update that does not apply at the head has spread all the same. -/
theorem AllKept.spread {update : Update} :
    ∀ {n : Nat} {chain chain' : Chain n} {contents : Contents}, AllKept chain chain' →
      chain.head.server.table.Holds contents → ¬ update.Applies contents →
      Spread update chain chain' := by
  -- Applying the update at the head leaves its map, and nothing is passed on.
  intro n
  cases n with
  | zero =>
    rintro chain chain' contents ⟨contents', turned⟩ holds refused
    obtain rfl := turned.held.unique holds
    exact ⟨contents', by rwa [Update.apply_eq_self refused]⟩
  | succ n =>
    rintro ⟨node, rest⟩ ⟨node', rest'⟩ contents ⟨⟨contents', turned⟩, kept⟩ holds refused
    obtain rfl := turned.held.unique holds
    refine ⟨contents', by rwa [Update.apply_eq_self refused], ?_⟩
    rwa [if_neg fun applies => refused applies.1]

/-- The head of a chain that kept its maps holds what it held. -/
theorem AllKept.head {n : Nat} {chain chain' : Chain n} {contents : Contents}
    (kept : AllKept chain chain') (holds : chain.head.server.table.Holds contents) :
    chain'.head.server.table.Holds contents := by
  -- The head is the first server, whose map is one and the same.
  cases n with
  | zero =>
    obtain ⟨contents', turned⟩ := kept
    obtain rfl := turned.held.unique holds
    exact turned.holds
  | succ n =>
    obtain ⟨node, rest⟩ := chain
    obtain ⟨node', rest'⟩ := chain'
    obtain ⟨⟨contents', turned⟩, -⟩ := kept
    obtain rfl := turned.held.unique holds
    exact turned.holds

/-- The head of a chain is one of its servers. -/
theorem Chain.head_mem_nodes {n : Nat} (chain : Chain n) : chain.head ∈ chain.nodes := by
  cases n with
  | zero => exact List.mem_singleton.mpr rfl
  | succ n => exact List.mem_cons_self

section Retries

variable {σ : Type}

/--
Attempts that succeed as soon as they get through leave the state of the first one that does.

When none of them gets through, the successor stays as it was.
-/
theorem retryLoop_overLink {successor : Successor σ} {forward : Forward} {state state' : σ}
    (succeeds : successor forward state [] = .ok ((0, state'), [])) (retriesLeft : Nat) :
    ∀ link, ∃ result link', link' <:+ link ∧
      retryLoop (overLink successor forward) retriesLeft (link, state) [] =
        .ok ((result, (link', if link.take retriesLeft = List.replicate retriesLeft false
          then state else state')), []) := by
  -- The script of the link is walked, up to the first attempt that gets through.
  induction retriesLeft with
  | zero => exact fun link => ⟨-1, link, List.suffix_refl _, rfl⟩
  | succ retriesLeft ih =>
    intro link
    simp only [retryLoop]
    -- An attempt that gets through is the last one.
    have reached : ∀ later, overLink successor forward (true :: later, state) [] =
        .ok ((0, (later, state')), []) := fun later => by
      change (successor forward state >>= _) [] = _
      rw [run_bind succeeds]
      rfl
    match link with
    -- Past the end of the script every attempt gets through.
    | [] =>
      have through : overLink successor forward ([], state) [] = .ok ((0, ([], state')), []) := by
        change (successor forward state >>= _) [] = _
        rw [run_bind succeeds]
        rfl
      refine ⟨0, [], List.suffix_refl _, ?_⟩
      rw [runOver_bind through]
      simp [List.replicate_succ]
      rfl
    | true :: later =>
      refine ⟨0, later, List.suffix_cons _ _, ?_⟩
      rw [runOver_bind (reached later)]
      simp [List.replicate_succ]
      rfl
    | false :: later =>
      -- One attempt is lost, and the rest are made behind the rest of the link.
      obtain ⟨result, link', suffix, ran⟩ := ih later
      have lost : overLink successor forward (false :: later, state) [] =
          .ok ((-1, (later, state)), []) := rfl
      refine ⟨result, link', suffix.trans (List.suffix_cons _ _), ?_⟩
      rw [runOver_bind lost]
      simp only [if_true, ran, List.take_succ_cons, List.replicate_succ, List.cons.injEq,
        true_and]

/-- Attempts that keep failing leave what a chain of failures leaves. -/
theorem retryLoop_fails (attempt : StateT σ C Int) (Stuck : σ → Prop) (Related : σ → σ → Prop)
    (refl : ∀ state, Stuck state → Related state state)
    (trans : ∀ first second third, Related first second → Related second third →
      Related first third)
    (fails : ∀ state, Stuck state → ∃ state', attempt state [] = .ok ((-1, state'), []) ∧
      Stuck state' ∧ Related state state') (retriesLeft : Nat) :
    ∀ state, Stuck state → ∃ state', retryLoop attempt retriesLeft state [] =
      .ok ((-1, state'), []) ∧ Related state state' := by
  -- Every attempt fails, and the loop goes on from the state that it left.
  induction retriesLeft with
  | zero => exact fun state stuck => ⟨state, rfl, refl state stuck⟩
  | succ retriesLeft ih =>
    intro state stuck
    obtain ⟨next, failed, stuckNext, related⟩ := fails state stuck
    obtain ⟨last, ran, relatedLast⟩ := ih next stuckNext
    refine ⟨last, ?_, trans _ _ _ related relatedLast⟩
    simp only [retryLoop]
    rw [runOver_bind failed]
    simpa using ran

end Retries

/-- The tail sends back what `invoke` made of the message. -/
theorem serve_tail {node : Node} {msg reply : MessageT} {result : Int} {served : Server}
    {mem mem' : Mem}
    (invoked : invoke (none : Option (Successor Unit)) (some msg) node.server () mem =
      .ok (((result, reply, served), ()), mem')) :
    serve 0 msg node mem = .ok ((some reply, ({ node with server := served } : Node)), mem') := by
  -- Nothing follows the invocation but the reply.
  change (invoke (none : Option (Successor Unit)) (some msg) node.server () >>= _) mem = _
  rw [run_bind invoked]
  rfl

/-- A server with successors sends back what `invoke` made of the message. -/
theorem serve_linked {n : Nat} {node : Node} {rest rest' : Chain n} {msg reply : MessageT}
    {result : Int} {served : Server} {link : List Bool} {mem mem' : Mem}
    (invoked : invoke (some (overLink (rtableSuccessor (serve n)))) (some msg) node.server
      (node.link, rest) mem = .ok (((result, reply, served), (link, rest')), mem')) :
    serve (n + 1) msg (node, rest) mem =
      .ok ((some reply, (({ server := served, link := link }, rest') : Chain (n + 1))), mem') := by
  -- Nothing follows the invocation but the reply.
  change (invoke (some (overLink (rtableSuccessor (serve n)))) (some msg) node.server
    (node.link, rest) >>= _) mem = _
  rw [run_bind invoked]
  rfl

/-- The head of a chain that holds a map applies an update under the lock, with no row missing. -/
theorem updateLocally_asked {msg : MessageT} {update : Update} (asks : Asks msg update)
    {node : Node} {contents : Contents} (holds : node.server.table.Holds contents)
    (inside : node.server.table.Inside update.key) :
    ∃ after : Table, after.Holds (update.apply contents) ∧ after.rows = node.server.table.rows ∧
      updateLocally msg node.server.table [] =
        .ok ((if update.Applies contents then some update.forward else none, after), []) := by
  -- Under the lock, the message is as good as the request for the update.
  rw [asks.same holds]
  exact updateLocally_request holds inside

/-- What serving an update does to a chain, whatever message asks for it. -/
def SpreadsOver (update : Update) (n : Nat) : Prop :=
  ∀ (chain : Chain n) (msg : MessageT), Asks msg update →
    (∀ node ∈ chain.nodes, node.Ready update.key) →
    ∀ contents, chain.head.server.table.Holds contents →
      ∃ after, serve n msg chain [] =
          .ok ((some (if update.Applies contents then updateReply msg else errorReply msg),
            after), []) ∧ Spread update chain after

/-- Passing an update on to a chain that would refuse it changes no map of the chain. -/
theorem retryLoop_refused {update : Update} {n : Nat} (spreads : SpreadsOver update n)
    {link : List Bool} {rest : Chain n} (ready : ∀ node ∈ rest.nodes, node.Ready update.key)
    {contents : Contents} (holds : rest.head.server.table.Holds contents)
    (refused : ¬ update.Applies contents) :
    ∃ link' rest', link' <:+ link ∧ AllKept rest rest' ∧
      retryLoop (overLink (rtableSuccessor (serve n)) update.forward) maxRetries (link, rest) [] =
        .ok ((-1, (link', rest')), []) := by
  -- Every attempt is lost on the way, or refused by the head, which keeps its map.
  have fails : ∀ state : List Bool × Chain n,
      ((∀ node ∈ state.2.nodes, node.Ready update.key) ∧
        state.2.head.server.table.Holds contents) →
      ∃ state', overLink (rtableSuccessor (serve n)) update.forward state [] =
          .ok ((-1, state'), []) ∧
        ((∀ node ∈ state'.2.nodes, node.Ready update.key) ∧
          state'.2.head.server.table.Holds contents) ∧
        (state'.1 <:+ state.1 ∧ AllKept state.2 state'.2) := by
    rintro ⟨link, rest⟩ ⟨ready, holds⟩
    obtain ⟨after, served, spread⟩ := spreads rest _ (asks_request update) ready _ holds
    rw [if_neg refused] at served
    have kept := spread.allKept holds refused
    have failed := rtableSuccessor_answered served
    rw [result_errorReply] at failed
    have reached : (rtableSuccessor (serve n) update.forward rest >>= fun result =>
        (pure (result.1, (link.tail, result.2)) : C (Int × List Bool × Chain n))) [] =
        .ok ((-1, (link.tail, after)), []) := by
      rw [run_bind failed]
      rfl
    -- What is left of the link depends on whether the attempt was lost.
    match link with
    | false :: later =>
      exact ⟨(later, rest), rfl, ⟨ready, holds⟩, List.suffix_cons _ _, AllKept.refl ready⟩
    | [] =>
      exact ⟨([], after), reached, ⟨kept.ready ready, kept.head holds⟩, List.suffix_refl _, kept⟩
    | true :: later =>
      exact ⟨(later, after), reached, ⟨kept.ready ready, kept.head holds⟩,
        List.suffix_cons _ _, kept⟩
  obtain ⟨⟨link', rest'⟩, ran, suffix, kept⟩ := retryLoop_fails _ _
    (fun state state' : List Bool × Chain n => state'.1 <:+ state.1 ∧ AllKept state.2 state'.2)
    (fun state stuck => ⟨List.suffix_refl _, AllKept.refl stuck.1⟩)
    (fun first second third related again =>
      ⟨again.1.trans related.1, related.2.trans again.2⟩)
    fails maxRetries (link, rest) ⟨ready, holds⟩
  exact ⟨link', rest', suffix, kept, ran⟩

/-- Passing an update on spreads it over the successors if some attempt gets through. -/
theorem sendDown_spread {update : Update} {n : Nat} (spreads : SpreadsOver update n)
    {link : List Bool} {rest : Chain n} (ready : ∀ node ∈ rest.nodes, node.Ready update.key) :
    ∃ link' rest', link' <:+ link ∧
      (if GetsThrough link then Spread update rest rest' else AllKept rest rest') ∧
      sendDown (some (overLink (rtableSuccessor (serve n)))) update.forward (link, rest) [] =
        .ok (((), (link', rest')), []) := by
  -- The head of the successors applies the update or refuses it, at every attempt.
  obtain ⟨⟨contents, holds⟩, -⟩ := ready _ rest.head_mem_nodes
  by_cases applies : update.Applies contents
  · -- The first attempt that gets through succeeds, and ends the loop.
    obtain ⟨after, served, spread⟩ := spreads rest _ (asks_request update) ready _ holds
    rw [if_pos applies] at served
    have succeeded := rtableSuccessor_answered served
    rw [result_updateReply (asks_request update)] at succeeded
    obtain ⟨result, link', suffix, ran⟩ := retryLoop_overLink succeeded maxRetries link
    refine ⟨link', if link.take maxRetries = List.replicate maxRetries false then rest else after,
      suffix, ?_, ?_⟩
    · by_cases lost : link.take maxRetries = List.replicate maxRetries false
      · -- When no attempt gets through, no server behind hears of the update.
        have none : ¬ GetsThrough link := not_not.mpr lost
        rw [if_neg none, if_pos lost]
        exact AllKept.refl ready
      · -- The attempt that got through spread the update.
        have some : GetsThrough link := lost
        rw [if_pos some, if_neg lost]
        exact spread
    · unfold sendDown
      simp only []
      rw [runOver_bind ran]
      rfl
  · obtain ⟨link', rest', suffix, kept, ran⟩ := retryLoop_refused spreads ready holds applies
    refine ⟨link', rest', suffix, ?_, ?_⟩
    · -- Where the head refuses an update, keeping all maps is how it spreads.
      split
      · exact kept.spread holds applies
      · exact kept
    · unfold sendDown
      simp only []
      rw [runOver_bind ran]
      rfl

/--
A chain answers a request for an update, and the update spreads over it.

The answer says whether the update applied at the head, and nothing of how far it spread.
-/
theorem serve_update (update : Update) : ∀ n, SpreadsOver update n := by
  -- The chain behind the head is served for the update that the head passes on.
  intro n
  induction n with
  | zero =>
    intro node msg asks ready contents holds
    have inside := (ready node (List.mem_singleton.mpr rfl)).2
    -- A PUT or a DEL is what asks for an update.
    have isUpdate : msg.opcode = opPut ∨ msg.opcode = opDel := by
      rw [asks.opcode]; exact update.request_opcode
    obtain ⟨after, holdsAfter, rows, ran⟩ := updateLocally_asked asks holds inside
    have turned : ∀ served : Server, served.table = after → ∃ contents,
        Turned contents (update.apply contents) node { node with server := served } :=
      fun served same => ⟨contents, holds, by rw [same]; exact holdsAfter, by rw [same]; exact rows,
        List.suffix_refl _⟩
    by_cases applies : update.Applies contents
    · -- The tail passes the update on to nobody.
      rw [if_pos applies] at ran
      have nobody : sendDown (none : Option (Successor Unit)) update.forward () [] =
          .ok (((), ()), []) := rfl
      obtain ⟨served, same, invoked⟩ := invoke_passed isUpdate ran nobody
      refine ⟨{ node with server := served }, ?_, turned served same⟩
      rw [if_pos applies]
      exact serve_tail invoked
    · -- An update that the tail refuses is answered with an error.
      rw [if_neg applies] at ran
      obtain ⟨served, same, invoked⟩ := invoke_refused isUpdate ran
      refine ⟨{ node with server := served }, ?_, turned served same⟩
      rw [if_neg applies]
      exact serve_tail invoked
  | succ n ih =>
    rintro ⟨node, rest⟩ msg asks ready contents holds
    have inside := (ready node List.mem_cons_self).2
    -- The servers behind the head are ready as well, for the hypothesis of the induction.
    have readyRest : ∀ other ∈ rest.nodes, other.Ready update.key := fun other member =>
      ready other (List.mem_cons_of_mem _ member)
    have isUpdate : msg.opcode = opPut ∨ msg.opcode = opDel := by
      rw [asks.opcode]; exact update.request_opcode
    obtain ⟨after, holdsAfter, rows, ran⟩ := updateLocally_asked asks holds inside
    by_cases applies : update.Applies contents
    · -- The head applied the update, and passes it on to the rest of the chain.
      rw [if_pos applies] at ran
      obtain ⟨link', rest', suffix, spread, sent⟩ := sendDown_spread ih readyRest
      obtain ⟨served, same, invoked⟩ := invoke_passed isUpdate ran sent
      refine ⟨({ server := served, link := link' }, rest'), ?_, contents,
        ⟨holds, by rw [same]; exact holdsAfter, by rw [same]; exact rows, suffix⟩, ?_⟩
      · rw [if_pos applies]
        exact serve_linked invoked
      · simpa only [applies, true_and] using spread
    · -- Without effect at the head, the rest of the chain hears nothing of the update.
      rw [if_neg applies] at ran
      obtain ⟨served, same, invoked⟩ := invoke_refused isUpdate ran
      refine ⟨({ server := served, link := node.link }, rest), ?_, contents,
        ⟨holds, by rw [same]; exact holdsAfter, by rw [same]; exact rows, List.suffix_refl _⟩, ?_⟩
      · rw [if_neg applies]
        exact serve_linked invoked
      · rw [if_neg fun both => applies both.1]
        exact AllKept.refl readyRest

end ChainTable
