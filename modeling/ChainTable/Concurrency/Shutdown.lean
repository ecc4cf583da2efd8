import ChainTable.Concurrency.MainLoop
import Mathlib.Data.List.Range

/-! SIGINT: every recorded socket is closed once, but no handler is waited for. -/

namespace ChainTable.MainLoop

open ChainTable

/-- `network_server_close` is in one of its loops. -/
def ClosePosition.active : ClosePosition → Bool
  | closing _ | joining _ => true
  | _ => false

/-- `network_server_close` has returned. -/
def ClosePosition.returned : ClosePosition → Bool
  | closed | destroyed => true
  | _ => false

/-- The main loop is about to change the list or to destroy it. -/
def MainPosition.touchesList : MainPosition → Bool
  | recording _ | leaving => true
  | _ => false

/-- The main loop has let a client in, and not created its thread yet. -/
def MainPosition.admits : MainPosition → Bool
  | counting _ | adding _ _ | allocating _ | creating _ => true
  | _ => false

/-- The main loop leaves the list alone while `network_server_close` is in its loops. -/
def Apart (state : State) : Step → Prop
  | .main _ => state.closing.active = true → state.main.touchesList = false
  | _ => True

/-- In addition SIGINT arrives when every handler has ended, and no other one is about to start. -/
def Quiet (state : State) : Step → Prop
  | .main _ => state.closing.active = true → state.main.touchesList = false
  | .signal => (∀ handler ∈ state.handlers, handler.position = .ended) ∧ state.main.admits = false
  | _ => True

instance (state : State) (label : Step) : Decidable (Apart state label) :=
  match label with
  | .main _ => inferInstanceAs (Decidable (state.closing.active = true → _))
  | .accept _ | .handler _ _ | .signal | .close => inferInstanceAs (Decidable True)

instance (state : State) (label : Step) : Decidable (Quiet state label) :=
  match label with
  | .main _ => inferInstanceAs (Decidable (state.closing.active = true → _))
  | .signal => inferInstanceAs (Decidable (_ ∧ _))
  | .accept _ | .handler _ _ | .close => inferInstanceAs (Decidable True)

/-- The threads from a number on are listed, one after the other. -/
def Consecutive (first : Nat) (infos : List ThreadInfo) : Prop :=
  infos.map ThreadInfo.number = List.range' first infos.length

/-- The next number is the one behind those listed, up to one that is not listed yet. -/
def MainPosition.Fits (listed next : Nat) : MainPosition → Prop
  | recording info => info.number = listed + 1 ∧ next = listed + 2
  | returned _ => listed + 1 ≤ next
  | leaving => False
  | _ => next = listed + 1

/-- What the list and the closed sockets are, depending on how far the signal handler is. -/
def Listed (state : State) : ClosePosition → Prop
  | .idle => state.serverRunning = true ∧ state.closed = [] ∧ ∃ infos,
      state.threadInfoList = some infos ∧ Consecutive 1 infos ∧
        state.main.Fits infos.length state.nextThreadNumber
  | .closing i => (state.atSignal.map ThreadInfo.number).Nodup ∧ ∃ infos,
      state.threadInfoList = some infos ∧ state.closed ++ infos = state.atSignal ∧
        Consecutive i infos ∧ (infos ≠ [] → i + infos.length ≤ state.nextThreadNumber)
  | .joining _ => (state.atSignal.map ThreadInfo.number).Nodup ∧
      state.threadInfoList = some [] ∧ state.closed = state.atSignal
  | .closed | .destroyed => (state.atSignal.map ThreadInfo.number).Nodup ∧
      state.closed = state.atSignal
  | .crashed => False

/-- What other threads than the one in question leave as it is. -/
structure Same (state next : State) : Prop where
  serverRunning : next.serverRunning = state.serverRunning
  threadInfoList : next.threadInfoList = state.threadInfoList
  nextThreadNumber : next.nextThreadNumber = state.nextThreadNumber
  closing : next.closing = state.closing
  atSignal : next.atSignal = state.atSignal
  closed : next.closed = state.closed

/-- Where the main loop only moves, a server that is to stop lets no other client in. -/
theorem MainPosition.Turn.outside {given : Bool} {counter : Int} {main position : MainPosition}
    (turn : MainPosition.Turn false given counter main position) (outside : main.admits = false) :
    position.admits = false := by
  -- Clients are let in by a running server alone.
  cases turn with
  | stays on | fails on | admits on => cases on
  | reads | allocates => cases outside
  | stops | refuses | dropsArguments | dropsThread | givesUpName | givesUpEntry => rfl

/-- Consecutive numbers begin with the first, and what is left without it is consecutive. -/
theorem Consecutive.cons {first : Nat} {info : ThreadInfo} {infos : List ThreadInfo}
    (listed : Consecutive first (info :: infos)) :
    info.number = first ∧ Consecutive (first + 1) infos := by
  -- The numbers are compared from the first one on.
  unfold Consecutive at listed
  rw [List.map_cons, List.length_cons, List.range'_succ] at listed
  obtain ⟨number, rest⟩ := List.cons.inj listed
  exact ⟨number, rest⟩

/-- Up to what is listed there is a number for every entry. -/
theorem MainPosition.Fits.le {main : MainPosition} {listed next : Nat}
    (fits : main.Fits listed next) : listed + 1 ≤ next := by
  -- This holds at every position of the main loop.
  cases main <;> simp only [MainPosition.Fits] at fits <;> omega

/-- Where the main loop of a running server only moves, the numbers given stay those listed. -/
theorem MainPosition.Turn.fits {given : Bool} {counter : Int} {main position : MainPosition}
    (turn : MainPosition.Turn true given counter main position) {listed next : Nat}
    (fits : main.Fits listed next) : position.Fits listed next := by
  -- No number is given on the way, except for one that is given up at the end.
  cases turn with
  | stops off | refuses off => cases off
  | givesUpName | givesUpEntry => exact fits.le
  | stays | fails | admits | reads | allocates | dropsArguments | dropsThread => exact fits

/-- Consecutive numbers are distinct. -/
theorem Consecutive.nodup {first : Nat} {infos : List ThreadInfo}
    (listed : Consecutive first infos) : (infos.map ThreadInfo.number).Nodup := by
  -- They are the numbers of a range.
  rw [listed]
  exact List.nodup_range'

/-- What is listed stays so while the list is kept during the loops of the signal handler. -/
theorem Listed.keep {state next : State} (listed : Listed state state.closing)
    (closing : next.closing = state.closing) (atSignal : next.atSignal = state.atSignal)
    (closed : next.closed = state.closed) (numbers : state.nextThreadNumber ≤ next.nextThreadNumber)
    (list : state.closing.active = true → next.threadInfoList = state.threadInfoList)
    (before : Listed state .idle → Listed next .idle) : Listed next next.closing := by
  rw [closing]
  -- What is said of each position of the signal handler speaks of the kept fields only.
  cases here : state.closing with
  | idle =>
    rw [here] at listed
    exact before listed
  | closing i =>
    rw [here] at listed
    obtain ⟨distinct, infos, held, whole, consecutive, bound⟩ := listed
    have untouched := list (by rw [here]; rfl)
    exact ⟨by rwa [atSignal], infos, untouched.trans held, by rwa [closed, atSignal], consecutive,
      fun some => (bound some).trans numbers⟩
  | joining i =>
    rw [here] at listed
    obtain ⟨distinct, held, whole⟩ := listed
    have untouched := list (by rw [here]; rfl)
    exact ⟨by rwa [atSignal], untouched.trans held, by rwa [closed, atSignal]⟩
  | closed | destroyed =>
    rw [here] at listed
    exact ⟨by rw [atSignal]; exact listed.1, by rw [closed, atSignal]; exact listed.2⟩
  | crashed =>
    rw [here] at listed
    exact listed.elim

/-- What changes neither the list nor the closing keeps what is listed. -/
theorem Same.listed {state next : State} (same : Same state next)
    (fits : ∀ listed number, state.main.Fits listed number → next.main.Fits listed number)
    (listed : Listed state state.closing) : Listed next next.closing := by
  -- The list, the numbers and the closing are those of the state before.
  obtain ⟨running, list, number, closing, atSignal, closed⟩ := same
  refine listed.keep closing atSignal closed number.ge (fun _ => list) ?_
  rintro ⟨isRunning, none, infos, held, consecutive, before⟩
  exact ⟨running.trans isRunning, closed.trans none, infos, list.trans held, consecutive,
    number.symm ▸ fits _ _ before⟩

end ChainTable.MainLoop
