import Mathlib.Order.Lattice
import Mathlib.Tactic.Common

/-! Sorting by rounds in which the least element left moves to the front past its neighbours. -/

namespace ChainTable.BubbleSort

variable {α : Type*} [LinearOrder α]

/-- An element lets its neighbour pass in front of it when that is smaller. -/
def pass (element : α) : List α → List α
  | [] => [element]
  | next :: rest => if next < element then next :: element :: rest else element :: next :: rest

/-- A round over a list, in which its elements let smaller ones pass from the last one on. -/
def round (list : List α) : List α := list.foldr pass []

/-- A number of rounds, each of which leaves its first element where it is. -/
def sort : (rounds : Nat) → List α → List α
  | 0, list => list
  | rounds + 1, list =>
    match round list with
    | [] => []
    | least :: rest => least :: sort rounds rest

/-- Letting a neighbour pass loses nothing. -/
theorem pass_perm (element : α) (list : List α) : (pass element list).Perm (element :: list) := by
  -- At most the first two elements of the list change places.
  cases list with
  | nil => exact .refl _
  | cons next rest =>
    simp only [pass]
    split
    · exact .swap element next rest
    · exact .refl _

/-- A round loses nothing. -/
theorem round_perm (list : List α) : (round list).Perm list := by
  -- A round is a pass for each of its elements, the last one first.
  induction list with
  | nil => exact .refl _
  | cons first rest ih => exact (pass_perm first (round rest)).trans (ih.cons first)

/-- A round has as many elements as its list. -/
@[simp] theorem round_length (list : List α) : (round list).length = list.length :=
  (round_perm list).length_eq

/-- A round moves a least element to the front. -/
theorem round_least {list rest : List α} {least : α} (moved : round list = least :: rest) :
    ∀ element ∈ rest, least ≤ element := by
  -- The first element of the list meets the least one of the others, and the smaller leads.
  induction list generalizing least rest with
  | nil => cases moved
  | cons first others ih =>
    have meets : round (first :: others) = pass first (round others) := rfl
    rw [meets] at moved
    cases passed : round others with
    | nil =>
      rw [passed] at moved
      cases moved
      simp
    | cons front back =>
      have below := ih passed
      rw [passed, pass] at moved
      split at moved
      · -- The least element of the others passes, and the first one waits behind it.
        rename_i smaller
        cases moved
        intro element member
        rcases List.mem_cons.mp member with rfl | later
        · exact smaller.le
        · exact below element later
      · -- The first element stays in front of the least one of the others.
        rename_i larger
        cases moved
        intro element member
        rcases List.mem_cons.mp member with rfl | later
        · exact not_lt.mp larger
        · exact (not_lt.mp larger).trans (below element later)

/-- Sorting loses nothing. -/
theorem sort_perm (rounds : Nat) (list : List α) : (sort rounds list).Perm list := by
  -- Every round loses nothing, and neither do the rounds after it on what it leaves.
  induction rounds generalizing list with
  | zero => exact .refl _
  | succ rounds ih =>
    have whole := round_perm list
    unfold sort
    cases moved : round list with
    | nil => rwa [moved] at whole
    | cons least rest =>
      rw [moved] at whole
      exact ((ih rest).cons least).trans whole

/-- With as many rounds as there are elements but one, the list ascends. -/
theorem sort_ascends {rounds : Nat} {list : List α} (enough : list.length ≤ rounds + 1) :
    (sort rounds list).Pairwise (· ≤ ·) := by
  -- Each round settles the first place of what is left.
  induction rounds generalizing list with
  | zero =>
    match list, enough with
    | [], _ => exact .nil
    | [single], _ => exact List.pairwise_singleton _ single
  | succ rounds ih =>
    have length := round_length list
    unfold sort
    cases moved : round list with
    | nil => exact .nil
    | cons least rest =>
      rw [moved, List.length_cons] at length
      refine List.pairwise_cons.mpr ⟨fun element member => ?_, ih (by omega)⟩
      exact round_least moved element ((sort_perm rounds rest).mem_iff.mp member)

end ChainTable.BubbleSort
