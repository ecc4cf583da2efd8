import ChainTable.Client.Grammar
import ChainTable.Server.StubLaws

/-! The request that each command sends, through the connection to the head or to the tail. -/

namespace ChainTable

variable {σ α β : Type}

/-- The connection that a command uses: updates go to the head, and questions to the tail. -/
def Command.connection (head tail : SendReceive σ) : Command Key → SendReceive σ
  | .put _ _ | .del _ => head
  | .get _ | .size | .getKeys | .getTable | .stats => tail

/-- The request of a command. The value of a put is sent with its terminator. -/
def Command.request : Command Key → MessageT
  | .put key value =>
    { opcode := opPut, cType := ctEntry,
      entry := some
        { key := some key
          value := { len := value.bytes.length + 1, data := some (value.bytes ++ [0]) } } }
  | .get key => getRequest (some key)
  | .del key => delRequest (some key)
  | .size => bareRequest opSize
  | .getKeys => bareRequest opGetKeys
  | .getTable => bareRequest opGetTable
  | .stats => bareRequest opStats

/-- Code over a further state that leaves it alone, and so sends nothing. -/
def Quiet (run : StateT σ C α) : Prop := ∃ alone : C α, run = liftM alone

namespace Quiet

/-- A value sends nothing. -/
theorem pure (value : α) : Quiet (Pure.pure value : StateT σ C α) :=
  ⟨Pure.pure value, rfl⟩

/-- Neither does a fault. -/
theorem throw (fault : Fault) : Quiet (throw fault : StateT σ C α) :=
  ⟨MonadExcept.throw fault, rfl⟩

/-- Code that knows nothing of the further state sends nothing. -/
theorem lift (alone : C α) : Quiet (liftM alone : StateT σ C α) := ⟨alone, rfl⟩

/-- A sequence sends nothing if neither of its parts does. -/
theorem bind {first : StateT σ C α} {next : α → StateT σ C β} (head : Quiet first)
    (tail : ∀ value, Quiet (next value)) : Quiet (first >>= next) := by
  -- Both parts are code of their own, lifted over the state.
  obtain ⟨alone, rfl⟩ := head
  choose rest same using tail
  refine ⟨alone >>= rest, ?_⟩
  rw [liftM_bind]
  congr
  funext value
  exact same value

end Quiet

/-- With memory given, code sends one request, and nothing after the answer to it. -/
def AsksOnce (run : StateT σ C α) (sendReceive : SendReceive σ) (request : MessageT) : Prop :=
  ∃ finish : MessageT → C α, ∀ state,
    run state [] = (do liftM (finish (← exchange sendReceive request)) : StateT σ C α) state []

variable {sendReceive : SendReceive σ} {request : MessageT}

/-- A call of the stub asks once. -/
theorem asksOnce_of_quiet {next : MessageT → StateT σ C α}
    (quiet : ∀ response, Quiet (next response)) :
    AsksOnce (do
      (mallocUnchecked : C _)
      next (← exchange sendReceive request)) sendReceive request := by
  -- The request is allocated before the exchange, and what comes behind sends nothing.
  choose finish same using quiet
  refine ⟨finish, fun state => ?_⟩
  rw [runOver_bind (runOver_lift mallocUnchecked_nil)]
  simp only [same]

/-- What is done with the result of a call does not ask again. -/
theorem AsksOnce.ignored {run : StateT σ C α} (asks : AsksOnce run sendReceive request) :
    AsksOnce (do let _ ← run) sendReceive request := by
  -- The answer is read as before, and then forgotten.
  obtain ⟨finish, same⟩ := asks
  refine ⟨fun response => finish response >>= fun _ => pure (), fun state => ?_⟩
  have continued : (run >>= fun _ => pure ()) state [] =
      ((do liftM (finish (← exchange sendReceive request)) : StateT σ C α) >>= fun _ => pure ())
        state [] := by
    simp only [Bind.bind, StateT.bind, same]
  refine continued.trans ?_
  simp only [bind_assoc, liftM_bind, liftM_pure]

/-- A put of a pair asks once. -/
theorem rtablePut_asks (sendReceive : SendReceive σ) (pair : Key × Block) :
    AsksOnce (rtablePut sendReceive (some (.ofPair pair))) sendReceive
      (putRequest (some pair.1) (.ofBlock pair.2)) := by
  -- The message and its entry are allocated, and the answer is only compared.
  refine ⟨fun response => pure (if response.opcode = opPut + 1 then 0 else -1), fun state => ?_⟩
  unfold rtablePut
  rw [runOver_bind (runOver_lift mallocUnchecked_nil),
    runOver_bind (runOver_lift mallocUnchecked_nil)]
  simp only [liftM_pure]
  rfl

/-- A lookup asks once. -/
theorem rtableGet_asks (key : Option Key) :
    AsksOnce (rtableGet sendReceive key) sendReceive (getRequest key) := by
  -- The value of the answer is copied, which only takes memory.
  refine asksOnce_of_quiet fun response => ?_
  split
  · exact .pure none
  refine .bind (.lift _) fun _ => .bind (.lift _) fun _ => ?_
  dsimp only
  split
  · exact .pure _
  · exact .throw _

/-- A deletion asks once. -/
theorem rtableDel_asks (key : Option Key) :
    AsksOnce (rtableDel sendReceive key) sendReceive (delRequest key) :=
  asksOnce_of_quiet fun _ => .pure _

/-- A question for the size asks once. -/
theorem rtableSize_asks : AsksOnce (rtableSize sendReceive) sendReceive (bareRequest opSize) :=
  asksOnce_of_quiet fun _ => .pure _

/-- A question for the keys asks once. -/
theorem rtableGetKeys_asks :
    AsksOnce (rtableGetKeys sendReceive) sendReceive (bareRequest opGetKeys) := by
  -- A missing response is answered with NULL, and any other copied without a further request.
  refine asksOnce_of_quiet fun response => ?_
  split
  · exact .pure none
  · exact .bind (.lift _) fun _ => .bind (.lift _) fun _ => .pure _

/-- A question for the table asks once. -/
theorem rtableGetTable_asks :
    AsksOnce (rtableGetTable sendReceive) sendReceive (bareRequest opGetTable) := by
  -- A missing response is answered with NULL, and any other copied without a further request.
  refine asksOnce_of_quiet fun response => ?_
  split
  · exact .pure none
  · exact .bind (.lift _) fun _ => .lift _

/-- A question for the statistics asks once. -/
theorem rtableStats_asks :
    AsksOnce (rtableStats sendReceive) sendReceive (bareRequest opStats) := by
  -- The statistics of the answer are copied, if they are there.
  refine asksOnce_of_quiet fun response => ?_
  split
  · exact .pure none
  · refine .bind (.lift _) fun _ => ?_
    split
    · exact .throw _
    · exact .pure _

/-- With memory given, each command sends its request once, over its connection. -/
theorem perform_asks (head tail : SendReceive σ) (command : Command Key)
    (small : ∀ value ∈ command.args, value.bytes.length + 1 < 2 ^ 31) :
    AsksOnce (command.perform head tail) (command.connection head tail) command.request := by
  cases command with
  | put key value =>
    have bound : (value.bytes ++ [0]).length < 2 ^ 31 := by
      simpa using small value (by simp [Command.args])
    let block : Block := ⟨value.bytes ++ [0], by simp, bound⟩
    have size : (value.bytes.length : Int) + 1 = (value.bytes ++ [0]).length := by simp
    have created : dataCreate (value.bytes.length + 1) (some (value.bytes ++ [0])) [] =
        .ok (some (.ofBlock block), []) := by
      rw [size]
      simpa only [Data.ofBlock, sizeT_natCast] using
        dataCreate_contents rfl (contents_ofBlock block)
    have copied := (entryCreate_attempts key (contents_ofBlock block)).succeeds
    have sent : Command.request (.put key value) = putRequest (some key) (.ofBlock block) := by
      simp only [Command.request, putRequest, Data.ofBlock, block, sizeT_natCast,
        List.length_append, List.length_singleton]
    -- The entry is made of copies, and sent as it is.
    obtain ⟨finish, same⟩ := (rtablePut_asks head (key, block)).ignored
    refine ⟨finish, fun state => ?_⟩
    rw [Command.perform, runOver_bind (runOver_lift created), runOver_bind (runOver_lift copied),
      sent]
    exact same state
  | get key => exact (rtableGet_asks _).ignored
  | del key => exact (rtableDel_asks _).ignored
  | size => exact rtableSize_asks.ignored
  | getKeys => exact rtableGetKeys_asks.ignored
  | getTable => exact rtableGetTable_asks.ignored
  | stats => exact rtableStats_asks.ignored

end ChainTable
