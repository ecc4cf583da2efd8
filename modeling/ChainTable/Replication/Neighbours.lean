import ChainTable.Library.Machine
import ChainTable.Replication.ForwardingLaws
import ChainTable.Replication.Merge

/-! Two neighbours, of which one forwards its updates while the other merges its table again. -/

namespace ChainTable.Neighbours

open ChainTable ChainTable.Forwarding

/-- Two neighbours: what each of them holds, and what is under way between them. -/
structure State where
  /-- The server that forwards. -/
  front : Table
  /-- The server that is forwarded to, and that merges. -/
  back : Table
  /-- The update applied in front that is still to be forwarded, and its failed attempts. -/
  pending : Option (Forward × Nat)
  merge : Merge
  deriving DecidableEq, Repr

/-- A step of one of the two servers. -/
inductive Step where
  /-- The front applies the request of a client under its lock. -/
  | apply (msg : MessageT)
  /-- The front makes an attempt to have the pending update applied at the back. -/
  | forward
  /-- A change of the group makes the back fetch the table of the front. -/
  | fetch
  /-- The back puts the next entry that it fetched. -/
  | mergePut
  deriving DecidableEq, Repr

/-- What one step of a server does, if it is possible. -/
def step (state : State) : Step → Option State
  | .apply msg =>
    -- The front handles one request at a time, forwarding included.
    if state.pending = none ∧ (msg.opcode = opPut ∨ msg.opcode = opDel) then
      match applyTo state.front msg with
      | none => none
      | some (passed, front) =>
        some { state with front := front, pending := passed.map fun forward => (forward, 0) }
    else none
  | .forward =>
    match state.pending with
    | none => none
    | some (forward, retries) =>
      match forwardRequest forward with
      | none => none
      | some request =>
        match applyTo state.back request with
        | none => none
        | some (passed, back) =>
          -- A failed attempt is repeated until the retries run out.
          let left := if passed.isNone ∧ retries + 1 < maxRetries then some (forward, retries + 1)
            else none
          some { state with back := back, pending := left }
  | .fetch =>
    -- Changes of the group are reacted to one after another.
    if state.merge.current = none then
      match fetchTable state.front with
      | none => none
      | some entries => some { state with merge := { entries := entries, position := 0 } }
    else none
  | .mergePut =>
    match state.merge.put state.back with
    | none => none
    | some (merge, back) => some { state with back := back, merge := merge }

/-- Nothing is under way. -/
def Quiet (state : State) : Prop :=
  state.pending = none ∧ state.merge.current = none

/-- The key of the update still to be forwarded. -/
def pendingKey (state : State) : Option Key :=
  state.pending.bind fun pending => forwardKey pending.1

/--
An entry is put only while it is what the front holds, or while its key is about to be forwarded.

In the second case the update that is forwarded next puts things right.
-/
def Fresh (state : State) : Step → Prop
  | .mergePut => ∀ entry ∈ state.merge.current,
      tableGet state.front entry.key [] = .ok (entry.value, []) ∨ pendingKey state = entry.key
  | _ => True

instance (state : State) (label : Step) : Decidable (Fresh state label) :=
  match label with
  | .apply _ | .forward | .fetch => inferInstanceAs (Decidable True)
  | .mergePut =>
    match next : state.merge.current with
    | none => isTrue (by simp [Fresh, next])
    | some entry => decidable_of_iff
        (tableGet state.front entry.key [] = .ok (entry.value, []) ∨
          pendingKey state = entry.key) (by simp [Fresh, next])

/-- The two neighbours with equal tables, before anything happens. -/
def start (front back : Table) : State where
  front := front
  back := back
  pending := none
  merge := { entries := none, position := 0 }

/--
The back differs from the front by the update that is still to be forwarded.

Of what the back has fetched only the form matters, since stale entries are not put.
-/
structure Lagging (state : State) (front back : Contents) : Prop where
  inFront : state.front.Holds front
  atBack : state.back.Holds back
  merging : ∃ pairs, state.merge.Left pairs
  same : ∀ key, pendingKey state ≠ some key → back.lookup key = front.lookup key
  pending : ∀ forward retries, state.pending = some (forward, retries) → ∃ update : Update,
    forward = update.forward ∧ front.lookup update.key = update.value ∧ update.Applies back

section Steps

variable {state next : State} {front back : Contents}

/-- With nothing to be forwarded both neighbours hold one map. -/
theorem Lagging.equal (lagging : Lagging state front back) (idle : state.pending = none) :
    back = front :=
  Finmap.ext_lookup fun key => lagging.same key (by simp [pendingKey, idle])

/-- An update applied in front leaves the back behind by this update. -/
theorem Lagging.apply (lagging : Lagging state front back) {msg : MessageT}
    (stepped : step state (.apply msg) = some next) : ∃ front', Lagging next front' back := by
  simp only [step] at stepped
  split at stepped
  case isFalse => cases stepped
  case isTrue handled =>
    obtain rfl := lagging.equal handled.1
    cases applied : applyTo state.front msg with
    | none =>
      rw [applied] at stepped
      cases stepped
    | some result =>
      obtain ⟨passed, after⟩ := result
      rw [applied] at stepped
      obtain ⟨mem, ran⟩ := applyTo_cases applied
      obtain ⟨-, ⟨rfl, holds⟩ | ⟨update, rfl, applies, holds⟩⟩ :=
        updateLocally_ran lagging.inFront ran
      · -- The update was refused, and nothing is to be forwarded.
        cases stepped
        exact ⟨back, holds, lagging.atBack, lagging.merging, fun _ _ => rfl, by simp⟩
      · cases stepped
        refine ⟨update.apply back, holds, lagging.atBack, lagging.merging, ?_, ?_⟩
        · intro key other
          have differs : key ≠ update.key := by
            rintro rfl
            exact other (by simp [pendingKey])
          rw [Update.lookup_apply, if_neg differs]
        · intro forward retries pending
          cases pending
          exact ⟨update, rfl, by rw [Update.lookup_apply, if_pos rfl], applies⟩

/-- A forwarded update brings the back up to the front. -/
theorem Lagging.forward (lagging : Lagging state front back)
    (stepped : step state .forward = some next) : ∃ back', Lagging next front back' := by
  simp only [step] at stepped
  split at stepped
  case h_1 => cases stepped
  case h_2 forward retries pending =>
    obtain ⟨update, rfl, value, applies⟩ := lagging.pending forward retries pending
    have key : pendingKey state = some update.key := by simp [pendingKey, pending]
    simp only [forwardRequest_forward] at stepped
    cases applied : applyTo state.back update.request with
    | none =>
      rw [applied] at stepped
      cases stepped
    | some result =>
      obtain ⟨passed, after⟩ := result
      rw [applied] at stepped
      obtain ⟨mem, ran⟩ := applyTo_cases applied
      obtain ⟨-, rfl, holds⟩ := updateLocally_request_ran lagging.atBack ran
      -- The update applies at the back as it did in front, so the first attempt succeeds.
      rw [if_pos applies] at stepped
      cases stepped
      refine ⟨update.apply back, lagging.inFront, holds, lagging.merging, ?_, by simp⟩
      intro other _
      rw [Update.lookup_apply]
      by_cases same : other = update.key
      · rw [if_pos same, same, value]
      · rw [if_neg same]
        exact lagging.same other (by rw [key]; simpa using Ne.symm same)

/-- Fetching the table of the front changes neither table. -/
theorem Lagging.fetch (lagging : Lagging state front back)
    (stepped : step state .fetch = some next) : Lagging next front back := by
  -- The merge begins with all pairs of the front, and nothing has been put yet.
  simp only [step] at stepped
  split at stepped
  case isFalse => cases stepped
  case isTrue =>
    obtain ⟨pairs, -, -, fetched⟩ := fetchTable_holds lagging.inFront
    rw [fetched] at stepped
    cases stepped
    exact ⟨lagging.inFront, lagging.atBack, ⟨pairs, Merge.left_start pairs⟩, lagging.same,
      lagging.pending⟩

/-- Putting a fresh entry leaves the back behind by the pending update at most. -/
theorem Lagging.mergePut (lagging : Lagging state front back) (fresh : Fresh state .mergePut)
    (stepped : step state .mergePut = some next) : ∃ back', Lagging next front back' := by
  obtain ⟨pairs, left⟩ := lagging.merging
  simp only [step] at stepped
  cases put : state.merge.put state.back with
  | none =>
    rw [put] at stepped
    cases stepped
  | some result =>
    obtain ⟨merge, after⟩ := result
    rw [put] at stepped
    cases stepped
    obtain ⟨key, block, later, rfl, rest, -, holds⟩ := Merge.put_ran left lagging.atBack put
    have current : state.merge.current = some (.ofPair (key, block)) := Merge.current_of_left left
    refine ⟨back.insert key block, lagging.inFront, holds, ⟨later, rest⟩, ?_, ?_⟩
    · intro other notPending
      rw [contents_insert]
      by_cases same : other = key
      · -- An entry whose key is not pending is what the front holds.
        subst same
        rw [if_pos rfl]
        rcases fresh _ current with held | pending
        · have found := lagging.inFront.get_ran held
          cases stored : front.lookup other with
          | none =>
            rw [stored] at found
            cases found
          | some block' =>
            rw [stored] at found
            have contents := congrArg Data.contents (Option.some.inj found)
            rw [contents_ofBlock, contents_ofBlock] at contents
            exact contents
        · exact absurd pending notPending
      · rw [if_neg same]
        exact lagging.same other notPending
    · intro forward retries pending
      obtain ⟨update, passed, value, applies⟩ := lagging.pending forward retries pending
      refine ⟨update, passed, value, ?_⟩
      -- What the back holds is only added to, so a key to be deleted is still there.
      cases update with
      | put key' block' => trivial
      | del key' =>
        change (back.insert key block).lookup key' ≠ none
        rw [contents_insert]
        split
        · simp
        · exact applies

end Steps

end ChainTable.Neighbours
