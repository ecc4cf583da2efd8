import Mathlib.Logic.Function.Basic
import Mathlib.Tactic.Common

/-! Objects behind addresses: each address is given out once, and its object is gone once freed. -/

namespace ChainTable

/-- The objects behind addresses, and the first address that was never given out. -/
structure Heap (α : Type*) where
  objects : Nat → Option α
  next : Nat
  /-- There is nothing behind an address before it is given out. -/
  unused : ∀ address, next ≤ address → objects address = none

namespace Heap

variable {α : Type*}

/-- A heap that has given out no address. -/
def empty : Heap α where
  objects _ := none
  next := 0
  unused _ _ := rfl

/-- Give out the next address, with an object behind it. -/
def alloc (heap : Heap α) (object : α) : Heap α where
  objects := Function.update heap.objects heap.next (some object)
  next := heap.next + 1
  unused address above := by
    rw [Function.update_of_ne (Nat.ne_of_gt above), heap.unused address (Nat.le_of_succ_le above)]

/-- Change the object behind an address, if there is one. -/
def modify (heap : Heap α) (address : Nat) (change : α → α) : Heap α where
  objects := Function.update heap.objects address ((heap.objects address).map change)
  next := heap.next
  unused other above := by
    have missing := heap.unused other above
    by_cases same : other = address
    · rw [← same, Function.update_self, missing, Option.map_none]
    · rw [Function.update_of_ne same, missing]

/-- Take back the object behind an address. -/
def free (heap : Heap α) (address : Nat) : Heap α where
  objects := Function.update heap.objects address none
  next := heap.next
  unused other above := by
    by_cases same : other = address
    · rw [← same, Function.update_self]
    · rw [Function.update_of_ne same, heap.unused other above]

variable (heap : Heap α) {address other : Nat} {object : α}

/-- An object is behind the address it was given. -/
@[simp] theorem alloc_next (object : α) : (heap.alloc object).objects heap.next = some object :=
  Function.update_self ..

/-- An address with an object was given out before. -/
theorem ne_next_of_live (live : heap.objects address = some object) : address ≠ heap.next :=
  fun same => by
    rw [heap.unused address (Nat.le_of_eq same.symm)] at live
    cases live

/-- Nothing changes behind the other addresses. -/
theorem alloc_other (object : α) (differs : other ≠ heap.next) :
    (heap.alloc object).objects other = heap.objects other :=
  Function.update_of_ne differs ..

/-- The object behind the address is changed. -/
@[simp] theorem modify_self (change : α → α) :
    (heap.modify address change).objects address = (heap.objects address).map change :=
  Function.update_self ..

/-- Nothing is behind an address that was freed. -/
@[simp] theorem free_self : (heap.free address).objects address = none :=
  Function.update_self ..

/-- The objects behind other addresses are not freed. -/
@[simp] theorem free_other (differs : other ≠ address) :
    (heap.free address).objects other = heap.objects other :=
  Function.update_of_ne differs ..

/-- What is behind an address after another one was freed was there before. -/
theorem live_of_free (live : (heap.free address).objects other = some object) :
    other ≠ address ∧ heap.objects other = some object := by
  -- Nothing is behind the address that was freed.
  by_cases same : other = address
  · rw [same, free_self] at live
    cases live
  · exact ⟨same, by rwa [free_other heap same] at live⟩

end Heap

end ChainTable
