import ChainTable.Server.InvokeLaws

/-! What the calls of the stub return, given the responses they get. -/

namespace ChainTable

variable {σ : Type} {sendReceive : SendReceive σ} {state state' : σ} {response : MessageT}

/-- An exchange that is answered goes on with the answer. -/
theorem exchange_answered {request : MessageT}
    (answered : sendReceive request state [] = .ok ((some response, state'), [])) :
    exchange sendReceive request state [] = .ok ((response, state'), []) := by
  -- The answer is not NULL, so that the exchange goes on with it.
  unfold exchange
  rw [runOver_bind answered]
  rfl

/-- A call that allocates its request and gets an answer goes on with the answer. -/
theorem asked_answered {α : Type} {request : MessageT} {next : MessageT → StateT σ C α}
    (answered : sendReceive request state [] = .ok ((some response, state'), [])) :
    (do
      (mallocUnchecked : C _)
      next (← exchange sendReceive request) : StateT σ C α) state [] = next response state' [] := by
  -- Memory for the request is given, and the exchange is answered.
  rw [runOver_bind (runOver_lift mallocUnchecked_nil), runOver_bind (exchange_answered answered)]

/-- A put succeeds exactly when the response has the code for it. -/
theorem rtablePut_answered {key : Option Key} {value : Data}
    (answered : sendReceive (putRequest key value) state [] = .ok ((some response, state'), [])) :
    rtablePut sendReceive (some ⟨key, some value⟩) state [] =
      .ok ((if response.opcode = opPut + 1 then 0 else -1, state'), []) := by
  -- Two blocks are allocated before the exchange.
  unfold rtablePut
  rw [runOver_bind (runOver_lift mallocUnchecked_nil),
    runOver_bind (runOver_lift mallocUnchecked_nil)]
  simp only []
  rw [runOver_bind (exchange_answered answered)]
  rfl

/-- A deletion returns the number in the response, unless the response is an error. -/
theorem rtableDel_answered {key : Option Key}
    (answered : sendReceive (delRequest key) state [] = .ok ((some response, state'), [])) :
    rtableDel sendReceive key state [] =
      .ok ((if response.opcode ≠ opError then response.result else -1, state'), []) := by
  -- The response is looked at only after the exchange.
  unfold rtableDel
  rw [asked_answered answered]
  rfl

/-- A lookup answered with a block returns that block. -/
theorem rtableGet_found {key : Option Key} {block : Block}
    (answered : sendReceive (getRequest key) state [] = .ok ((some response, state'), []))
    (success : response.opcode = opGet + 1)
    (carried : response.value = ⟨block.val.length, some block.val⟩) :
    rtableGet sendReceive key state [] = .ok ((some (.ofBlock block), state'), []) := by
  -- The code of the response says that its value is to be copied.
  unfold rtableGet
  rw [asked_answered answered]
  simp only [success, ne_eq, not_true_eq_false, if_false, carried, Option.getD_some]
  rw [runOver_bind (runOver_lift mallocUnchecked_nil),
    runOver_bind (runOver_lift mallocUnchecked_nil)]
  -- The copy takes all bytes of the block, and its size is their number.
  have isInt : int32 (block.val.length : Int) = block.val.length := (Data.ofBlock block).isInt
  rw [dif_pos (le_refl _)]
  simp only [Data.ofBlock, isInt, List.take_length]
  rfl

/-- A lookup answered with an error returns NULL. -/
theorem rtableGet_missing {key : Option Key}
    (answered : sendReceive (getRequest key) state [] = .ok ((some response, state'), []))
    (failure : response.opcode = opError) :
    rtableGet sendReceive key state [] = .ok ((none, state'), []) := by
  -- The code of an error is not that of a lookup.
  have notFound : response.opcode ≠ opGet + 1 := by rw [failure]; decide
  unfold rtableGet
  rw [asked_answered answered]
  simp only [if_pos notFound]
  rfl

/-- A question for the size returns the number in the response. -/
theorem rtableSize_answered
    (answered : sendReceive (bareRequest opSize) state [] = .ok ((some response, state'), []))
    (success : response.opcode = opSize + 1) :
    rtableSize sendReceive state [] = .ok ((response.result, state'), []) := by
  -- The code of a size is not that of an error.
  have notError : response.opcode ≠ opError := by rw [success]; decide
  unfold rtableSize
  rw [asked_answered answered]
  simp only [if_pos notError]
  rfl

/-- The keys of a response are copied in order, and followed by NULL. -/
theorem copyKeys_spec (keys : List Key) (rest : List (Option Key)) :
    copyKeys keys.length (keys.map some ++ rest) [] = .ok (keys.map some ++ [none], []) := by
  -- Each key is copied in turn, for which memory is given.
  induction keys with
  | nil => rfl
  | cons key keys ih =>
    simp only [List.length_cons, List.map_cons, List.cons_append, copyKeys]
    rw [run_bind (strdup_attempts key).succeeds, run_bind ih]
    rfl

/-- A question for the keys returns those that the response counts, whatever is behind them. -/
theorem rtableGetKeys_counted {keys : List Key} {behind : List (Option Key)}
    (answered : sendReceive (bareRequest opGetKeys) state [] = .ok ((some response, state'), []))
    (success : response.opcode = opGetKeys + 1) (counted : response.nKeys = keys.length)
    (carried : response.keys = some (keys.map some ++ behind)) :
    rtableGetKeys sendReceive state [] = .ok ((some (keys.map some ++ [none]), state'), []) := by
  -- The array copied has as many keys as the response counts.
  have notError : ¬ response.opcode = opError := by rw [success]; decide
  unfold rtableGetKeys
  rw [asked_answered answered]
  simp only [if_neg notError, counted, carried, Option.getD_some]
  rw [runOver_bind (runOver_lift mallocUnchecked_nil),
    runOver_bind (runOver_lift (copyKeys_spec keys behind))]
  rfl

/-- A question for the keys returns the keys of the response. -/
theorem rtableGetKeys_answered {keys : List Key}
    (answered : sendReceive (bareRequest opGetKeys) state [] = .ok ((some response, state'), []))
    (success : response.opcode = opGetKeys + 1) (counted : response.nKeys = keys.length)
    (carried : response.keys = some (keys.map some ++ [none])) :
    rtableGetKeys sendReceive state [] = .ok ((some (keys.map some ++ [none]), state'), []) :=
  rtableGetKeys_counted answered success counted carried

/-- The entries of a response are copied in order, and followed by NULL. -/
theorem copyEntries_spec (pairs : List (Key × Block)) (rest : List (Option EntryT)) :
    copyEntries pairs.length (sentEntries pairs ++ rest) [] =
      .ok (some ((pairs.map fun pair => some (.ofPair pair)) ++ [none]), []) := by
  -- Each entry is copied in turn, for which memory is given.
  induction pairs with
  | nil => rfl
  | cons pair pairs ih =>
    have created : dataCreate pair.2.val.length (some pair.2.val) [] =
        .ok (some (.ofBlock pair.2), []) := by
      have sent := dataCreate_contents rfl (contents_ofBlock pair.2)
      simpa only [Data.ofBlock, sizeT_natCast] using sent
    simp only [List.length_cons, sentEntries, List.map_cons, List.cons_append, copyEntries]
    rw [run_bind malloc_nil]
    simp only [Bool.not_true, Bool.false_eq_true, if_false]
    rw [run_bind malloc_nil]
    simp only [Bool.not_true, Bool.false_eq_true, if_false]
    rw [run_bind created]
    simp only [Option.isNone_some, Bool.false_eq_true, if_false]
    -- The remaining entries are copied by the rest of the loop.
    rw [sentEntries] at ih
    rw [run_bind ih]
    rfl

/-- A question for the table returns the entries that the response counts, as for the keys. -/
theorem rtableGetTable_counted {pairs : List (Key × Block)} {behind : List (Option EntryT)}
    (answered : sendReceive (bareRequest opGetTable) state [] = .ok ((some response, state'), []))
    (success : response.opcode = opGetTable + 1) (counted : response.nEntries = pairs.length)
    (carried : response.entries = some (sentEntries pairs ++ behind)) :
    rtableGetTable sendReceive state [] =
      .ok ((some ((pairs.map fun pair => some (.ofPair pair)) ++ [none]), state'), []) := by
  -- The array copied has as many entries as the response counts.
  have notError : ¬ response.opcode = opError := by rw [success]; decide
  unfold rtableGetTable
  rw [asked_answered answered]
  simp only [if_neg notError, counted, carried, Option.getD_some]
  rw [runOver_bind (runOver_lift mallocUnchecked_nil)]
  exact runOver_lift (copyEntries_spec pairs behind)

/-- A question for the table returns the entries of the response. -/
theorem rtableGetTable_answered {pairs : List (Key × Block)}
    (answered : sendReceive (bareRequest opGetTable) state [] = .ok ((some response, state'), []))
    (success : response.opcode = opGetTable + 1) (counted : response.nEntries = pairs.length)
    (carried : response.entries = some (sentEntries pairs ++ [none])) :
    rtableGetTable sendReceive state [] =
      .ok ((some ((pairs.map fun pair => some (.ofPair pair)) ++ [none]), state'), []) :=
  rtableGetTable_counted answered success counted carried

/-- A question for keys or entries that is answered with an error returns NULL. -/
theorem rtableGetKeys_error
    (answered : sendReceive (bareRequest opGetKeys) state [] = .ok ((some response, state'), []))
    (failure : response.opcode = opError) :
    rtableGetKeys sendReceive state [] = .ok ((none, state'), []) := by
  -- The code of the response is looked at before its keys.
  unfold rtableGetKeys
  rw [asked_answered answered]
  simp only [if_pos failure]
  rfl

/-- A question for the table that is answered with an error returns NULL. -/
theorem rtableGetTable_error
    (answered : sendReceive (bareRequest opGetTable) state [] = .ok ((some response, state'), []))
    (failure : response.opcode = opError) :
    rtableGetTable sendReceive state [] = .ok ((none, state'), []) := by
  -- The code of the response is looked at before its entries.
  unfold rtableGetTable
  rw [asked_answered answered]
  simp only [if_pos failure]
  rfl

/-- The loop of `rtable_get_table` copies pairs, gives up, or reads what is not there. -/
theorem copyEntries_cases (count : Nat) (received : List (Option EntryT)) :
    (∃ fault, copyEntries count received [] = .error fault) ∨
      copyEntries count received [] = .ok (none, []) ∨
      ∃ pairs : List (Key × Block), copyEntries count received [] =
        .ok (some ((pairs.map fun pair => some (.ofPair pair)) ++ [none]), []) := by
  -- Each entry has a key and data that can be created, or ends the loop.
  induction count generalizing received with
  | zero => exact .inr (.inr ⟨[], rfl⟩)
  | succ count ih =>
    match received with
    | [] => exact .inl ⟨.outOfBounds, rfl⟩
    | none :: _ => exact .inl ⟨.nullDereference, rfl⟩
    | some entry :: later =>
      unfold copyEntries
      rw [run_bind malloc_nil]
      cases entry.key with
      | none => exact .inl ⟨.nullDereference, rfl⟩
      | some key =>
        simp only [Bool.not_true, Bool.false_eq_true, if_false]
        rw [run_bind malloc_nil]
        simp only [Bool.not_true, Bool.false_eq_true, if_false]
        rcases dataCreate_cases entry.value.len entry.value.data with
          ⟨fault, faulted⟩ | refused | ⟨block, created⟩
        · exact .inl ⟨fault, run_bind_error faulted⟩
        · exact .inr (.inl (by rw [run_bind refused]; rfl))
        · rw [run_bind created]
          simp only [Option.isNone_some, Bool.false_eq_true, if_false]
          rcases ih later with ⟨fault, faulted⟩ | gaveUp | ⟨pairs, copied⟩
          · exact .inl ⟨fault, run_bind_error faulted⟩
          · exact .inr (.inl (by rw [run_bind gaveUp]; rfl))
          · exact .inr (.inr ⟨(key, block) :: pairs, by rw [run_bind copied]; rfl⟩)

/-- `rtable_get_table` returns the entries of pairs, or NULL, or reads what is not there. -/
theorem rtableGetTable_cases (response : Option MessageT) :
    (∃ fault, rtableGetTable (fun _ => pure response) () [] = .error fault) ∨
      rtableGetTable (fun _ => pure response) () [] = .ok ((none, ()), []) ∨
      ∃ pairs : List (Key × Block), rtableGetTable (fun _ => pure response) () [] =
        .ok ((some ((pairs.map fun pair => some (.ofPair pair)) ++ [none]), ()), []) := by
  cases response with
  | none => exact .inl ⟨.nullDereference, rfl⟩
  | some response =>
    have answered : (pure (some response) : StateT Unit C (Option MessageT)) () [] =
        .ok ((some response, ()), []) := rfl
    unfold rtableGetTable
    rw [asked_answered answered]
    by_cases failed : response.opcode = opError
    · rw [if_pos failed]
      exact .inr (.inl rfl)
    · simp only [if_neg failed]
      rw [runOver_bind (runOver_lift mallocUnchecked_nil)]
      rcases copyEntries_cases response.nEntries (response.entries.getD []) with
        ⟨fault, faulted⟩ | gaveUp | ⟨pairs, copied⟩
      · exact .inl ⟨fault, runOver_lift_error faulted⟩
      · exact .inr (.inl (runOver_lift gaveUp))
      · exact .inr (.inr ⟨pairs, runOver_lift copied⟩)

/-- What the attempt to pass an update on makes of the response. -/
def Update.result (update : Update) (response : MessageT) : Int :=
  match update with
  | .put _ _ => if response.opcode = opPut + 1 then 0 else -1
  | .del _ => if response.opcode ≠ opError then response.result else -1

/-- Passing an update on sends the request for that update. -/
theorem rtableSuccessor_answered {update : Update}
    (answered : sendReceive update.request state [] = .ok ((some response, state'), [])) :
    rtableSuccessor sendReceive update.forward state [] =
      .ok ((update.result response, state'), []) := by
  -- A put is passed on by `rtable_put`, and a deletion by `rtable_del`.
  cases update with
  | put key block => exact rtablePut_answered answered
  | del key => exact rtableDel_answered answered

/-- A message that asks a server for an update, and does not carry a result yet. -/
structure Asks (msg : MessageT) (update : Update) : Prop where
  opcode : msg.opcode = update.request.opcode
  unanswered : msg.result = 0
  /-- Under the lock the message does what the request for the update does. -/
  same : ∀ {table : Table} {contents : Contents}, table.Holds contents →
    updateLocally msg table [] = updateLocally update.request table []

/-- The request for an update asks for it. -/
theorem asks_request (update : Update) : Asks update.request update where
  opcode := rfl
  unanswered := by cases update <;> rfl
  same _ := rfl

/-- The request that `rtable_put` makes of valid data asks for a put of its block. -/
theorem asks_putRequest {key : Key} {data : Data} {block : Block}
    (found : data.contents = some block) :
    Asks (putRequest (some key) data) (.put key block) where
  opcode := rfl
  unanswered := rfl
  same {table contents} holds := by
    -- Valid data has bytes behind its pointer.
    have held : ∃ bytes, data.data = some bytes := by
      cases behind : data.data with
      | some bytes => exact ⟨bytes, rfl⟩
      | none =>
        have taken := (contents_eq_some_iff data block).mp found
        rw [Data.bytes, behind, Option.getD_none, List.take_nil] at taken
        exact absurd taken.symm block.property.1
    obtain ⟨bytes, held⟩ := held
    have agree : putLocally (putRequest (some key) data) table [] =
        putLocally (Update.put key block).request table [] := by
      -- Both store the same block, or fault where the other does.
      cases put : tablePut table (some key) (some (.ofBlock block)) [] with
      | error fault =>
        exact (putLocally_request_error held found put).trans
          (putLocally_request_error rfl (contents_ofBlock block) put).symm
      | ok result =>
        obtain ⟨⟨code, next⟩, left⟩ := result
        obtain ⟨rfl, rfl, -⟩ := holds.put_ran (contents_ofBlock block) put
        exact (putLocally_request held found put).trans
          (putLocally_request rfl (contents_ofBlock block) put).symm
    have isPut : (putRequest (some key) data).opcode = opPut := rfl
    have isPut' : (Update.put key block).request.opcode = opPut := rfl
    unfold updateLocally
    rw [if_pos isPut, if_pos isPut']
    cases stored : putLocally (Update.put key block).request table [] with
    | error fault => rw [run_bind_error stored, run_bind_error (agree.trans stored)]
    | ok result => rw [run_bind stored, run_bind (agree.trans stored)]

/-- The reply to an applied update makes the attempt that asked for it succeed. -/
theorem result_updateReply {msg : MessageT} {update : Update} (asks : Asks msg update) :
    update.result (updateReply msg) = 0 := by
  -- The reply to a put is recognised by its code, that to a deletion by its result.
  have opcode := asks.opcode
  have unanswered := asks.unanswered
  cases update with
  | put key block => simp [Update.result, updateReply, opcode, Update.request, putRequest]
  | del key =>
    -- The result was never written, and still is the zero of the request.
    have notError : ¬ opDel + 1 = opError := by decide
    simp [Update.result, updateReply, opcode, unanswered, Update.request, delRequest, notError]

/-- An error makes the attempt that asked for an update fail. -/
theorem result_errorReply (msg : MessageT) (update : Update) :
    update.result (errorReply msg) = -1 := by
  -- The code of an error is neither that of a put nor one with a result.
  have notPut : ¬ opError = opPut + 1 := by decide
  cases update with
  | put key block => simp [Update.result, errorReply, notPut]
  | del key => simp [Update.result, errorReply]

end ChainTable
