import ChainTable.Wire.WiredMessages

/-! What a chain whose servers exchange bytes does with an update, and with a question. -/

namespace ChainTable

variable {n : Nat} {contents : Contents} {codec : Codec} {garbage : Garbage}

/-- The tail replies what `invoke` made of the message. -/
theorem invokeOver_tail {server served : Server} {msg reply : MessageT} {result : Int}
    (invoked : invoke (none : Option (Successor Unit)) (some msg) server () [] =
      .ok (((result, reply, served), ()), [])) :
    invokeOver codec garbage 0 msg server [] = .ok ((reply, served), []) := by
  -- Nothing follows the invocation but the reply.
  change (invoke (none : Option (Successor Unit)) (some msg) server () >>= _) [] = _
  rw [run_bind invoked]
  rfl

/-- A server with successors replies what `invoke` made of the message. -/
theorem invokeOver_linked {server served : Server} {connection connection' : Connection}
    {rest rest' : WiredChain n} {msg reply : MessageT} {result : Int}
    (invoked : invoke (some (rtableSuccessor (callOver codec garbage (invokeOver codec garbage n))))
      (some msg) server (connection, rest) [] =
        .ok (((result, reply, served), (connection', rest')), [])) :
    invokeOver codec garbage (n + 1) msg ((server, connection, rest) : WiredChain (n + 1)) [] =
      .ok ((reply, ((served, connection', rest') : WiredChain (n + 1))), []) := by
  -- Nothing follows the invocation but the reply.
  change (invoke (some (rtableSuccessor (callOver codec garbage (invokeOver codec garbage n))))
    (some msg) server (connection, rest) >>= _) [] = _
  rw [run_bind invoked]
  rfl

/-- The first attempt that succeeds is the last one. -/
theorem sendDown_succeeds {σ : Type} {successor : Successor σ} {forward : Forward}
    {state state' : σ} (succeeds : successor forward state [] = .ok ((0, state'), [])) :
    sendDown (some successor) forward state [] = .ok (((), state'), []) := by
  -- Some attempts are left for the first one to be made.
  have ran : retryLoop (successor forward) maxRetries state [] = .ok ((0, state'), []) := by
    change retryLoop (successor forward) (_ + 1) state [] = _
    rw [retryLoop, runOver_bind succeeds]
    rfl
  unfold sendDown
  simp only []
  rw [runOver_bind ran]
  rfl

/-- A server agrees with its successors if it holds their map, and its connection is idle. -/
theorem WiredChain.agrees_cons {server : Server} {connection : Connection} {rest : WiredChain n} :
    WiredChain.Agrees (n := n + 1) contents (server, connection, rest) ↔
      server.table.Holds contents ∧ connection.Idle ∧ rest.Agrees contents := by
  -- The servers and connections are those in front and those behind.
  constructor
  · exact fun agrees => ⟨agrees.holds _ List.mem_cons_self, agrees.idle _ List.mem_cons_self,
      fun other member => agrees.holds other (List.mem_cons_of_mem _ member),
      fun other member => agrees.idle other (List.mem_cons_of_mem _ member)⟩
  · rintro ⟨holds, idle, rest⟩
    exact ⟨List.forall_mem_cons.mpr ⟨holds, rest.holds⟩,
      List.forall_mem_cons.mpr ⟨idle, rest.idle⟩⟩

/-- The tail agrees with itself on what it holds. -/
theorem WiredChain.agrees_tail {server : Server} (holds : server.table.Holds contents) :
    WiredChain.Agrees (n := 0) contents server :=
  ⟨List.forall_mem_singleton.mpr holds, fun _ member => absurd member List.not_mem_nil⟩

section Updates

variable {update : Update}

/--
The head of a chain replies whether an update applied, and every server has applied it.

The same reply is unpacked from what the successor sent back, so that one attempt is enough.
-/
theorem invokeOver_update (faithful : codec.Faithful) (garbage : Garbage)
    (fits : packedSize update.request ≤ maxFrame) {chain : WiredChain n}
    (agrees : chain.Agrees contents)
    (inside : ∀ server ∈ chain.servers, server.table.Inside update.key) :
    ∃ after : WiredChain n, invokeOver codec garbage n update.request chain [] =
        .ok ((if update.Applies contents then updateReply update.request
          else errorReply update.request, after), []) ∧
      after.Agrees (update.apply contents) ∧ after.rows = chain.rows := by
  -- Behind a server that applied the update there is a shorter chain that agrees as well.
  have isUpdate := update.request_opcode
  induction n with
  | zero =>
    have member : chain ∈ WiredChain.servers chain := List.mem_singleton.mpr rfl
    obtain ⟨table, holds, rows, ran⟩ :=
      updateLocally_request (agrees.holds _ member) (inside _ member)
    by_cases applies : update.Applies contents
    · -- The tail passes the update on to nobody.
      rw [if_pos applies] at ran ⊢
      have nobody : sendDown (none : Option (Successor Unit)) update.forward () [] =
          .ok (((), ()), []) := rfl
      obtain ⟨served, rfl, invoked⟩ := invoke_passed isUpdate ran nobody
      exact ⟨served, invokeOver_tail invoked, WiredChain.agrees_tail holds,
        congrArg (fun row => [row]) rows⟩
    · -- An update that the tail refuses is answered with an error.
      rw [if_neg applies] at ran ⊢
      obtain ⟨served, rfl, invoked⟩ := invoke_refused isUpdate ran
      exact ⟨served, invokeOver_tail invoked, WiredChain.agrees_tail holds,
        congrArg (fun row => [row]) rows⟩
  | succ n ih =>
    obtain ⟨server, connection, rest⟩ := chain
    obtain ⟨held, idle, agreesRest⟩ := WiredChain.agrees_cons.mp agrees
    obtain ⟨table, holds, rows, ran⟩ :=
      updateLocally_request held (inside server List.mem_cons_self)
    by_cases applies : update.Applies contents
    · obtain ⟨behind, served, agreesBehind, rowsBehind⟩ := ih agreesRest
        fun other member => inside other (List.mem_cons_of_mem _ member)
      rw [if_pos applies] at ran served ⊢
      -- The successor receives the request as it is, and its reply is received as it is.
      have received : invokeOver codec garbage n update.request.unpacked rest [] =
          .ok ((updateReply update.request, behind), []) := by
        rw [request_unpacked]
        exact served
      obtain ⟨connection', idle', called⟩ := callOver_answered faithful garbage idle
        (request_sendable fits) (updateReply_sendable fits) received
      rw [(updateReply_unpacked update).1] at called
      have succeeded := rtableSuccessor_answered called
      rw [result_updateReply (asks_request update)] at succeeded
      obtain ⟨head, rfl, invoked⟩ := invoke_passed isUpdate ran (sendDown_succeeds succeeded)
      exact ⟨(head, connection', behind), invokeOver_linked invoked,
        WiredChain.agrees_cons.mpr ⟨holds, idle', agreesBehind⟩,
        congrArg₂ List.cons rows rowsBehind⟩
    · -- Without effect at the head, the successors hear nothing, and have nothing to change.
      rw [if_neg applies] at ran ⊢
      obtain ⟨head, rfl, invoked⟩ := invoke_refused isUpdate ran
      rw [Update.apply_eq_self applies] at holds ⊢
      exact ⟨(head, connection, rest), invokeOver_linked invoked,
        WiredChain.agrees_cons.mpr ⟨holds, idle, agreesRest⟩,
        congrArg (· :: rest.rows) rows⟩

/-- A client that asks the head for an update over its connection gets the reply of the head. -/
theorem callOver_update (faithful : codec.Faithful) (garbage : Garbage)
    (fits : packedSize update.request ≤ maxFrame) {chain : WiredChain n}
    (agrees : chain.Agrees contents)
    (inside : ∀ server ∈ chain.servers, server.table.Inside update.key) {msg : MessageT}
    (sendable : msg.Sendable) (asked : msg.unpacked = update.request) {connection : Connection}
    (idle : connection.Idle) :
    ∃ (connection' : Connection) (after : WiredChain n), connection'.Idle ∧
      after.Agrees (update.apply contents) ∧ after.rows = chain.rows ∧
      callOver codec garbage (invokeOver codec garbage n) msg (connection, chain) [] =
        .ok ((some (if update.Applies contents then updateReply update.request
          else errorReply update.request), (connection', after)), []) := by
  obtain ⟨after, served, agreesAfter, rows⟩ := invokeOver_update faithful garbage fits agrees inside
  rw [← asked] at served
  -- Either reply can be sent, and is received as it is.
  obtain ⟨replied, refused⟩ := updateReply_unpacked update
  split at served
  next applies =>
    obtain ⟨connection', idle', called⟩ := callOver_answered faithful garbage idle sendable
      (by rw [asked]; exact updateReply_sendable fits) served
    rw [asked, replied] at called
    rw [if_pos applies]
    exact ⟨connection', after, idle', agreesAfter, rows, called⟩
  next inert =>
    obtain ⟨connection', idle', called⟩ := callOver_answered faithful garbage idle sendable
      (by rw [asked]; exact errorReply_sendable fits) served
    rw [asked, refused] at called
    rw [if_neg inert]
    exact ⟨connection', after, idle', agreesAfter, rows, called⟩

end Updates

/-- A question that every server would answer alike is answered by the tail, and changes no map. -/
theorem invokeTailOver_question {chain : WiredChain n} {msg : MessageT} (Answer : MessageT → Prop)
    (agrees : chain.Agrees contents)
    (answers : ∀ server ∈ chain.servers, ∃ (code : Int) (reply : MessageT),
      invoke (none : Option (Successor Unit)) (some msg) server () [] =
        .ok (((code, reply, server.counted), ()), []) ∧ Answer reply) :
    ∃ (reply : MessageT) (after : WiredChain n),
      invokeTailOver codec garbage n msg chain [] = .ok ((reply, after), []) ∧ Answer reply ∧
        after.Agrees contents ∧ after.rows = chain.rows := by
  -- The question goes past all other servers, and the tail answers it from its map.
  induction n with
  | zero =>
    have member : chain ∈ WiredChain.servers chain := List.mem_singleton.mpr rfl
    obtain ⟨code, reply, invoked, answer⟩ := answers chain member
    have same : (Server.counted chain).table = Server.table chain := counted_table chain
    have holds := agrees.holds _ member
    rw [← same] at holds
    exact ⟨reply, Server.counted chain, invokeOver_tail invoked, answer,
      WiredChain.agrees_tail holds, congrArg (fun table : Table => [table.rows]) same⟩
  | succ n ih =>
    obtain ⟨server, connection, rest⟩ := chain
    obtain ⟨held, idle, agreesRest⟩ := WiredChain.agrees_cons.mp agrees
    obtain ⟨reply, after, ran, answer, agreesAfter, rows⟩ := ih agreesRest
      fun other member => answers other (List.mem_cons_of_mem _ member)
    refine ⟨reply, (server, connection, after), ?_, answer,
      WiredChain.agrees_cons.mpr ⟨held, idle, agreesAfter⟩,
      congrArg (server.table.rows :: ·) rows⟩
    change (invokeTailOver codec garbage n msg rest >>= _) [] = _
    rw [run_bind ran]
    rfl

/-- A client that asks the tail over its connection gets the answer, as it is unpacked. -/
theorem callOver_question (Answer : MessageT → Prop) (faithful : codec.Faithful)
    (garbage : Garbage) {chain : WiredChain n} {msg : MessageT} (agrees : chain.Agrees contents)
    (answers : ∀ server ∈ chain.servers, ∃ (code : Int) (reply : MessageT),
      invoke (none : Option (Successor Unit)) (some msg) server () [] =
        .ok (((code, reply, server.counted), ()), []) ∧ Answer reply)
    (sendable : msg.Sendable) (same : msg.unpacked = msg)
    (replies : ∀ reply, Answer reply → reply.Sendable) {connection : Connection}
    (idle : connection.Idle) :
    ∃ (reply : MessageT) (connection' : Connection) (after : WiredChain n), Answer reply ∧
      connection'.Idle ∧ after.Agrees contents ∧ after.rows = chain.rows ∧
      callOver codec garbage (invokeTailOver codec garbage n) msg (connection, chain) [] =
        .ok ((some reply.unpacked, (connection', after)), []) := by
  -- The question is received as it is, and whatever the tail answers can be sent.
  obtain ⟨reply, after, ran, answer, agreesAfter, rows⟩ :=
    invokeTailOver_question Answer agrees answers
  rw [← same] at ran
  obtain ⟨connection', idle', called⟩ :=
    callOver_answered faithful garbage idle sendable (replies reply answer) ran
  exact ⟨reply, connection', after, answer, idle', agreesAfter, rows, called⟩

end ChainTable
