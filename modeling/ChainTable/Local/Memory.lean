import Mathlib.Tactic.Common
import Mathlib.Algebra.Order.Ring.Int

/-! What the code shares: machine integers, allocations that may fail, and undefined behaviour. -/

namespace ChainTable

/-- Ways in which a run of the code leaves the behaviour the C language defines. -/
inductive Fault where
  /-- A NULL pointer is used as if it pointed somewhere. -/
  | nullDereference
  /-- An array or a block is read or written past its end. -/
  | outOfBounds
  /-- A string without a terminator is read past the end of its block. -/
  | unterminated
  deriving DecidableEq, Repr

/-- The outcomes of the allocations to come, all of which succeed past the end of the list. -/
abbrev Mem := List Bool

/-- Code that allocates memory and may run into undefined behaviour. -/
abbrev C := StateT Mem (Except Fault)

/-- Ask for memory, and learn whether it was given. -/
def malloc : C Bool
  -- With no scripted outcome left, memory is always there.
  | [] => .ok (true, [])
  | outcome :: rest => .ok (outcome, rest)

/-- Ask for memory and use it without looking at the pointer received. -/
def mallocUnchecked : C Unit := do
  if !(← malloc) then throw .nullDereference

/-- A block in which some bytes were written from a position on. -/
def writeAt (block : List UInt8) (position : Nat) (bytes : List UInt8) : C (List UInt8) :=
  if position + bytes.length ≤ block.length then
    return block.take position ++ bytes ++ block.drop (position + bytes.length)
  else throw .outOfBounds

/-- Conversion to a 32-bit signed `int`. -/
def int32 (value : Int) : Int := (value + 2 ^ 31) % 2 ^ 32 - 2 ^ 31

/-- Conversion to a 16-bit signed `short`. -/
def int16 (value : Int) : Int := (value + 2 ^ 15) % 2 ^ 16 - 2 ^ 15

/-- Conversion of an `int` to a 64-bit unsigned `size_t`. -/
def sizeT (value : Int) : Nat :=
  -- Only negative values change, to numbers above every positive one.
  if 0 ≤ value then value.toNat else (value + 2 ^ 64).toNat

/-- Writing where the untouched part of a block begins. -/
theorem writeAt_front {written old bytes : List UInt8} (room : bytes.length ≤ old.length) :
    writeAt (written ++ old) written.length bytes =
      pure (written ++ bytes ++ old.drop bytes.length) := by
  -- What was written stays in front, and as many of the old bytes are replaced.
  unfold writeAt
  rw [if_pos (by rw [List.length_append]; omega), List.take_left, List.drop_length_add_append]

/-- A value in the range of `int` survives the conversion. -/
theorem int32_of_bounds {value : Int} (low : -(2 ^ 31) ≤ value) (high : value < 2 ^ 31) :
    int32 value = value := by
  -- Shifting by half the range makes the remainder the value itself.
  unfold int32
  omega

/-- What was converted to `int` is in its range. -/
@[simp] theorem int32_int32 (value : Int) : int32 (int32 value) = int32 value := by
  -- The first conversion leaves nothing for the second.
  unfold int32
  omega

/-- A size shrinks when an `int` cannot hold it. -/
theorem int32_natCast_le (value : Nat) : int32 value ≤ value := by
  -- The remainder of a positive number is at most that number.
  unfold int32
  omega

/-- A number that is not negative survives the conversion to `size_t`. -/
@[simp] theorem sizeT_natCast (value : Nat) : sizeT value = value := by
  -- There is nothing to reduce below zero.
  simp [sizeT]

/-- Running a sequence whose first part is known continues with the second. -/
theorem run_bind {α β : Type} {first : C α} {next : α → C β} {mem mem' : Mem} {value : α}
    (ran : first mem = .ok (value, mem')) : (first >>= next) mem = next value mem' := by
  -- The bind of the state transformer passes value and state on.
  simp [Bind.bind, StateT.bind, Except.bind, ran]

/-- Running a sequence whose first part faults goes no further. -/
theorem run_bind_error {α β : Type} {first : C α} {next : α → C β} {mem : Mem} {fault : Fault}
    (faulted : first mem = .error fault) : (first >>= next) mem = .error fault := by
  -- There is no value to hand on.
  simp [Bind.bind, StateT.bind, Except.bind, faulted]

/-- A sequence that ran has run its first part, and then its second one. -/
theorem bind_ran {α β : Type} {first : C α} {next : α → C β} {mem : Mem} {result : β × Mem}
    (ran : (first >>= next) mem = .ok result) :
    ∃ value mem', first mem = .ok (value, mem') ∧ next value mem' = .ok result := by
  -- A first part that faults leaves nothing for the second to run on.
  cases head : first mem with
  | error fault =>
    rw [run_bind_error head] at ran
    cases ran
  | ok left =>
    obtain ⟨value, mem'⟩ := left
    rw [run_bind head] at ran
    exact ⟨value, mem', rfl, ran⟩

/-- Running a value leaves the memory alone. -/
theorem run_pure {α : Type} (value : α) (mem : Mem) :
    (pure value : C α) mem = .ok (value, mem) := rfl

/-- Running a sequence over a further state continues where its first part left. -/
theorem runOver_bind {σ α β : Type} {first : StateT σ C α} {next : α → StateT σ C β}
    {state state' : σ} {mem mem' : Mem} {value : α}
    (ran : first state mem = .ok ((value, state'), mem')) :
    (first >>= next) state mem = next value state' mem' := by
  -- The outer bind runs the first part as the first part of an inner bind.
  change (first state >>= fun result => next result.1 result.2) mem = _
  exact run_bind ran

/-- Running a sequence over a further state goes no further than a fault in its first part. -/
theorem runOver_bind_error {σ α β : Type} {first : StateT σ C α} {next : α → StateT σ C β}
    {state : σ} {mem : Mem} {fault : Fault} (faulted : first state mem = .error fault) :
    (first >>= next) state mem = .error fault := by
  -- The outer bind runs the first part as the first part of an inner bind.
  change (first state >>= fun result => next result.1 result.2) mem = _
  exact run_bind_error faulted

/-- A sequence over a further state that ran has run its first part, and then its second one. -/
theorem runOver_bind_ran {σ α β : Type} {first : StateT σ C α} {next : α → StateT σ C β}
    {state : σ} {mem : Mem} {result : (β × σ) × Mem}
    (ran : (first >>= next) state mem = .ok result) :
    ∃ value state' mem', first state mem = .ok ((value, state'), mem') ∧
      next value state' mem' = .ok result := by
  -- The value and the further state together are what the inner bind passes on.
  change (first state >>= fun result => next result.1 result.2) mem = _ at ran
  obtain ⟨⟨value, state'⟩, mem', head, rest⟩ := bind_ran ran
  exact ⟨value, state', mem', head, rest⟩

/-- Code that knows nothing of a further state and that ran left that state alone. -/
theorem runOver_lift_ran {σ α : Type} {run : C α} {state : σ} {mem : Mem}
    {result : (α × σ) × Mem} (ran : (liftM run : StateT σ C α) state mem = .ok result) :
    ∃ value mem', run mem = .ok (value, mem') ∧ result = ((value, state), mem') := by
  -- What is lifted runs, and its value is then paired with the state as it was.
  change (run >>= fun result => pure (result, state)) mem = _ at ran
  obtain ⟨value, mem', head, rest⟩ := bind_ran ran
  cases rest
  exact ⟨value, mem', head, rfl⟩

/-- Code that knows nothing of a further state leaves it alone. -/
theorem runOver_lift {σ α : Type} {run : C α} {state : σ} {mem mem' : Mem} {value : α}
    (ran : run mem = .ok (value, mem')) :
    (liftM run : StateT σ C α) state mem = .ok ((value, state), mem') := by
  -- The state is handed through beside the value.
  change (run >>= fun result => pure (result, state)) mem = _
  rw [run_bind ran]
  rfl

/-- Code that knows nothing of a further state faults over it as it does alone. -/
theorem runOver_lift_error {σ α : Type} {run : C α} {state : σ} {mem : Mem} {fault : Fault}
    (faulted : run mem = .error fault) :
    (liftM run : StateT σ C α) state mem = .error fault := by
  -- The fault comes before the state is looked at.
  change (run >>= fun result => pure (result, state)) mem = _
  exact run_bind_error faulted

/-- Success at every allocation takes the script of no failures to itself. -/
@[simp] theorem malloc_nil : malloc [] = .ok (true, []) := rfl

/-- An unchecked allocation that succeeds has no other effect. -/
@[simp] theorem mallocUnchecked_nil : mallocUnchecked [] = .ok ((), []) := rfl

/--
A computation ends in one of two values, whatever its allocations do.

The first is the answer of a call that gave up, the second of one that went through.
When all allocations succeed, the second one is answered.
-/
structure Attempts {α : Type} (run : C α) (failed completed : α) : Prop where
  /-- No outcome of the allocations leads anywhere else. -/
  either : ∀ mem, ∃ mem', run mem = .ok (failed, mem') ∨ run mem = .ok (completed, mem')
  /-- Allocations that succeed lead to completion. -/
  succeeds : run [] = .ok (completed, [])

namespace Attempts

variable {α β : Type}

/-- A computation that allocates nothing always completes. -/
theorem pure (failed value : α) : Attempts (Pure.pure value) failed value where
  either mem := ⟨mem, .inr rfl⟩
  succeeds := rfl

/-- One allocation is given or not. -/
theorem malloc : Attempts malloc false true where
  either mem := by
    -- The script ended, or it says what becomes of this allocation.
    cases mem with
    | nil => exact ⟨[], .inr rfl⟩
    | cons outcome rest => cases outcome <;> simp [ChainTable.malloc]
  succeeds := rfl

/-- A step that may give up, followed by one that goes on in both cases. -/
theorem bindBoth {first : C α} {next : α → C β} {failed completed : α} {worse best : β}
    (head : Attempts first failed completed) (onFailure : Attempts (next failed) worse worse)
    (onSuccess : Attempts (next completed) worse best) :
    Attempts (first >>= next) worse best where
  either mem := by
    obtain ⟨mem', gaveUp | wentOn⟩ := head.either mem
    · -- A first step that gave up leaves the failure to the second one.
      obtain ⟨mem'', ran | ran⟩ := onFailure.either mem' <;>
        exact ⟨mem'', .inl (by rwa [run_bind gaveUp])⟩
    · -- After a first step that went through, the second one decides.
      obtain ⟨mem'', ran⟩ := onSuccess.either mem'
      exact ⟨mem'', by rwa [run_bind wentOn]⟩
  succeeds := by rw [run_bind head.succeeds, onSuccess.succeeds]

/-- A step that may give up, followed by one that gives up in turn. -/
theorem bind {first : C α} {next : α → C β} {failed completed : α} {worse best : β}
    (head : Attempts first failed completed) (onFailure : next failed = Pure.pure worse)
    (onSuccess : Attempts (next completed) worse best) :
    Attempts (first >>= next) worse best := by
  -- Giving up takes no further allocations.
  refine head.bindBoth ?_ onSuccess
  rw [onFailure]
  exact .pure worse worse

/-- A known value in front of a computation does not change its outcomes. -/
theorem bind_pure {value : α} {next : α → C β} {worse best : β}
    (rest : Attempts (next value) worse best) :
    Attempts (Pure.pure value >>= next) worse best := by
  rwa [pure_bind]

end Attempts

/--
A computation has one value only, unless it uses a pointer that was not given.

When all allocations succeed, this value is reached.
-/
structure Unchecked {α : Type} (run : C α) (value : α) : Prop where
  /-- No outcome of the allocations leads to another value. -/
  either : ∀ mem, run mem = .error .nullDereference ∨ ∃ mem', run mem = .ok (value, mem')
  /-- Allocations that succeed lead to the value. -/
  succeeds : run [] = .ok (value, [])

namespace Unchecked

variable {α β : Type}

/-- A value is reached without any allocation. -/
theorem pure (value : α) : Unchecked (Pure.pure value) value where
  either mem := .inr ⟨mem, rfl⟩
  succeeds := rfl

/-- An allocation that is not looked at is given, or its pointer is used all the same. -/
theorem malloc : Unchecked mallocUnchecked () where
  either mem := by
    -- The script ended, or it says what becomes of this allocation.
    cases mem with
    | nil => exact .inr ⟨[], rfl⟩
    | cons outcome rest =>
      cases outcome with
      | false => exact .inl rfl
      | true => exact .inr ⟨rest, rfl⟩
  succeeds := rfl

/-- The value of a sequence is that of its second part, after the value of the first one. -/
theorem bind {first : C α} {next : α → C β} {value : α} {result : β}
    (head : Unchecked first value) (tail : Unchecked (next value) result) :
    Unchecked (first >>= next) result where
  either mem := by
    obtain faulted | ⟨mem', ran⟩ := head.either mem
    · exact .inl (run_bind_error faulted)
    · rw [run_bind ran]
      exact tail.either mem'
  succeeds := by rw [run_bind head.succeeds, tail.succeeds]

end Unchecked

end ChainTable
