import Mathlib.Algebra.Order.Monoid.Defs
import Mathlib.Algebra.Order.Monoid.Unbundled.Basic
import Mathlib.Data.Set.Card
import Mathlib.Data.Set.Insert
import Mathlib.Order.BooleanAlgebra.Set
import Mathlib.Logic.Function.Basic
import Mathlib.Tactic.Common

/-! Assertions about parts of a memory, and runs on that memory that follow a model on values. -/

namespace ChainTable

/-- What is said of the cells of a part of some memory. -/
def Assertion (α β : Type*) := (α → Option β) → Prop

namespace Assertion

variable {α β : Type*}

open Classical in
/-- The cells whose addresses are in a part. -/
noncomputable def restrict (cells : α → Option β) (part : Set α) : α → Option β :=
  fun address => if address ∈ part then cells address else none

/-- A part of a part is what both have in common. -/
theorem restrict_restrict (cells : α → Option β) (outer inner : Set α) :
    restrict (restrict cells outer) inner = restrict cells (outer ∩ inner) := by
  -- An address is kept if both sets have it.
  funext address
  by_cases inside : address ∈ inner <;> by_cases outside : address ∈ outer <;>
    simp [restrict, inside, outside]

/-- Assertions are ordered by what they imply. -/
instance : PartialOrder (Assertion α β) :=
  inferInstanceAs (PartialOrder ((α → Option β) → Prop))

/-- There are no cells. -/
instance : One (Assertion α β) := ⟨fun cells => cells = fun _ => none⟩

/-- The cells fall into two parts, each with an assertion of its own. -/
instance : Mul (Assertion α β) :=
  ⟨fun first second cells => ∃ part : Set α,
    first (restrict cells part) ∧ second (restrict cells partᶜ)⟩

/-- Next to no cells there are all cells. -/
theorem one_mul' (holds : Assertion α β) : 1 * holds = holds := by
  funext cells
  refine propext ⟨?_, fun held => ⟨∅, ?_, ?_⟩⟩
  · rintro ⟨part, none, held⟩
    -- The part without cells takes nothing away from the other one.
    have whole : restrict cells partᶜ = cells := by
      funext address
      have here := congrFun none address
      simp only [restrict] at here ⊢
      by_cases inside : address ∈ part
      · simpa [inside] using here.symm
      · simp [inside]
    rwa [whole] at held
  · funext address
    simp [restrict]
  · have whole : restrict cells ∅ᶜ = cells := by
      funext address
      simp [restrict]
    rwa [whole]

/-- The two parts may be named in either order. -/
theorem mul_comm' (first second : Assertion α β) : first * second = second * first := by
  -- The part of the one is what the other leaves.
  have turn : ∀ first second : Assertion α β, first * second ≤ second * first := by
    rintro first second cells ⟨part, here, there⟩
    exact ⟨partᶜ, there, by rwa [compl_compl]⟩
  exact le_antisymm (turn first second) (turn second first)

/-- Three parts are taken apart in either way. -/
theorem mul_assoc' (first second third : Assertion α β) :
    first * second * third = first * (second * third) := by
  -- The first of the three parts, and the first two of them, are cut out of the same cells.
  funext cells
  refine propext ⟨?_, ?_⟩
  · rintro ⟨both, ⟨part, here, there⟩, last⟩
    rw [restrict_restrict] at here there
    refine ⟨both ∩ part, here, both, ?_, ?_⟩
    · rw [restrict_restrict]
      have same : (both ∩ part)ᶜ ∩ both = both ∩ partᶜ := by ext; simp; tauto
      rwa [same]
    · rw [restrict_restrict]
      have same : (both ∩ part)ᶜ ∩ bothᶜ = bothᶜ :=
        Set.inter_eq_right.mpr (Set.compl_subset_compl.mpr Set.inter_subset_left)
      rwa [same]
  · rintro ⟨part, here, both, there, last⟩
    rw [restrict_restrict] at there last
    refine ⟨part ∪ both, ⟨part, ?_, ?_⟩, ?_⟩
    · rw [restrict_restrict]
      rwa [Set.union_inter_cancel_left]
    · rw [restrict_restrict]
      have same : (part ∪ both) ∩ partᶜ = partᶜ ∩ both := by ext; simp; tauto
      rwa [same]
    · rwa [Set.compl_union]

instance : CommMonoid (Assertion α β) where
  mul_assoc := mul_assoc'
  mul_comm := mul_comm'
  one_mul := one_mul'
  mul_one holds := (mul_comm' holds 1).trans (one_mul' holds)

instance : IsOrderedMonoid (Assertion α β) where
  mul_le_mul_left _ _ weaker _ _ := fun ⟨part, here, there⟩ => ⟨part, weaker _ here, there⟩

/-- Some assertion of a family holds. -/
def any {ι : Sort*} (family : ι → Assertion α β) : Assertion α β :=
  fun cells => ∃ index, family index cells

/-- A choice may be made for all parts at once. -/
theorem any_mul {ι : Sort*} (family : ι → Assertion α β) (other : Assertion α β) :
    any family * other = any fun index => family index * other := by
  -- The choice is made before the cells are cut in two, or after it.
  funext cells
  refine propext ⟨?_, ?_⟩
  · rintro ⟨part, ⟨index, here⟩, there⟩
    exact ⟨index, part, here, there⟩
  · rintro ⟨index, part, here, there⟩
    exact ⟨part, ⟨index, here⟩, there⟩

/-- What every one of a family implies, some one of them does. -/
theorem any_le {ι : Sort*} {family : ι → Assertion α β} {other : Assertion α β}
    (each : ∀ index, family index ≤ other) : any family ≤ other :=
  fun cells ⟨index, held⟩ => each index cells held

/-- A proposition is the case, and an assertion holds. -/
def given (fact : Prop) (holds : Assertion α β) : Assertion α β := any fun _ : fact => holds

/-- A fact that is the case may be added. -/
theorem le_given {fact : Prop} (holds : Assertion α β) (proved : fact) :
    holds ≤ given fact holds :=
  fun _ held => ⟨proved, held⟩

/--
A chain of nodes from one link to another, with one value for each node.

What a node is depends on its name, its value and its link to the next node.
-/
def segment {ν γ : Type*} (node : ν → γ → Option ν → Assertion α β) :
    Option ν → List γ → Option ν → Assertion α β
  | start, [], stop => given (start = stop) 1
  | start, value :: values, stop => any fun name => any fun next =>
      given (start = some name) (node name value next * segment node next values stop)

section Segment

variable {ν γ : Type*} (node : ν → γ → Option ν → Assertion α β)

/-- No nodes are a chain from a link to itself. -/
theorem le_segment_nil (stop : Option ν) : 1 ≤ segment node stop [] stop :=
  le_given 1 rfl

/-- A node in front of a chain is a longer chain. -/
theorem le_segment_cons (name : ν) (next : Option ν) (value : γ) (values : List γ)
    (stop : Option ν) : node name value next * segment node next values stop ≤
      segment node (some name) (value :: values) stop :=
  fun _ parts => ⟨name, next, rfl, parts⟩

/-- A chain up to a link and a chain from there are one chain. -/
theorem segment_mul_le (start middle stop : Option ν) (front back : List γ) :
    segment node start front middle * segment node middle back stop ≤
      segment node start (front ++ back) stop := by
  -- The front is taken off link by link, until only the back is left.
  induction front generalizing start with
  | nil =>
    rw [segment, given, any_mul]
    refine any_le fun same => ?_
    rw [one_mul, same]
    exact le_refl _
  | cons value values ih =>
    simp only [segment, given, any_mul]
    refine any_le fun name => any_le fun next => any_le fun same => ?_
    subst same
    rw [mul_assoc]
    exact (mul_le_mul_right (ih next) _).trans (le_segment_cons node name next value _ stop)

/-- A chain up to a node, and that node. -/
theorem segment_concat_le (start : Option ν) (front : List γ) (name : ν) (value : γ)
    (next : Option ν) : segment node start front (some name) * node name value next ≤
      segment node start (front ++ [value]) next := by
  -- The node alone is a chain of one link, which is joined to the one in front of it.
  refine (mul_le_mul_right ?_ _).trans (segment_mul_le node start (some name) next front [value])
  calc node name value next = node name value next * 1 := (mul_one _).symm
    _ ≤ node name value next * segment node next [] next :=
        mul_le_mul_right (le_segment_nil node next) _
    _ ≤ segment node (some name) [value] next := le_segment_cons node name next value [] next

end Segment

/-- Pointers with the values behind them, one for each. -/
def pairwise {ν γ : Type*} (holds : ν → γ → Assertion α β) :
    List (Option ν) → List γ → Assertion α β
  | [], [] => 1
  | some pointer :: pointers, value :: values =>
    holds pointer value * pairwise holds pointers values
  | _, _ => given False 1

section Pairwise

variable {ν γ : Type*} {holds : ν → γ → Assertion α β}

/-- There are as many pointers as values. -/
theorem pairwise_le_length (pointers : List (Option ν)) (values : List γ) :
    pairwise holds pointers values ≤
      given (pointers.length = values.length) (pairwise holds pointers values) := by
  -- The pairs are taken off one by one, and neither list is empty before the other.
  fun_induction pairwise holds pointers values with
  | case1 => exact le_given _ rfl
  | case2 first pointers value values ih =>
    refine (mul_le_mul_right ih _).trans ?_
    rw [mul_comm, given, any_mul]
    refine any_le fun same => ?_
    rw [mul_comm]
    exact le_given _ (by rw [List.length_cons, List.length_cons, same])
  | case3 => exact any_le False.elim

/-- One more pointer with its value joins the others. -/
theorem pairwise_concat_le (pointers : List (Option ν)) (values : List γ) (pointer : ν)
    (value : γ) : pairwise holds pointers values * holds pointer value ≤
      pairwise holds (pointers ++ [some pointer]) (values ++ [value]) := by
  -- The new pair is taken past those in front of it, down to the end of both lists.
  fun_induction pairwise holds pointers values with
  | case1 => exact le_of_eq (mul_comm _ _)
  | case2 first pointers held values ih =>
    rw [mul_assoc]
    exact mul_le_mul_right ih _
  | case3 => exact le_trans (le_of_eq (any_mul _ _)) (any_le False.elim)

/-- The value at one place may be replaced, with the other ones left as they are. -/
theorem pairwise_open (pointers : List (Option ν)) (values : List γ) {place : Nat} {value : γ}
    (found : values[place]? = some value) :
    pairwise holds pointers values ≤ any fun pointer => any fun rest =>
      given (pointers[place]? = some (some pointer) ∧
        ∀ new, holds pointer new * rest ≤ pairwise holds pointers (values.set place new))
        (holds pointer value * rest) := by
  fun_induction pairwise holds pointers values generalizing place with
  | case1 => simp at found
  | case2 first pointers held values ih =>
    cases place with
    | zero =>
      -- The first of them is replaced.
      simp only [List.getElem?_cons_zero, Option.some.injEq] at found
      subst found
      exact fun _ parts => ⟨first, _, ⟨rfl, fun _ => le_refl _⟩, parts⟩
    | succ place =>
      refine (mul_le_mul_right (ih found) _).trans ?_
      simp only [mul_comm (holds first held), given, any_mul]
      refine any_le fun pointer => any_le fun rest => any_le fun opened => ?_
      rw [mul_assoc, mul_comm rest]
      refine fun _ parts => ⟨pointer, holds first held * rest, ⟨opened.1, fun new => ?_⟩, parts⟩
      rw [mul_left_comm]
      exact mul_le_mul_right (opened.2 new) _
  | case3 => exact any_le False.elim

end Pairwise

/-- There are just these cells. -/
def exactly (cells : α → Option β) : Assertion α β := fun others => others = cells

/-- Next to anything else there are so many cells more, and what was there stays as it was. -/
def Adds (count : Nat) (holds : Assertion α β) : Prop :=
  ∀ base cells : α → Option β, (holds * exactly base) cells →
    (∀ address content, base address = some content → cells address = some content) ∧
      {address | cells address ≠ base address}.encard = count

namespace Adds

/-- No cells are no more cells. -/
theorem one : Adds 0 (1 : Assertion α β) := by
  -- Without cells of its own, what is asserted of the base is all that there is.
  intro base cells held
  rw [one_mul, exactly] at held
  subst held
  simp

/-- Two parts add what each of them adds. -/
theorem mul {first second : Assertion α β} {count more : Nat} (left : Adds count first)
    (right : Adds more second) : Adds (count + more) (first * second) := by
  intro base cells held
  rw [mul_assoc] at held
  obtain ⟨part, here, there⟩ := held
  let between := restrict cells partᶜ
  obtain ⟨kept, many⟩ := right base between there
  obtain ⟨keptToo, few⟩ := left between cells ⟨part, here, rfl⟩
  refine ⟨fun address content stored => keptToo _ _ (kept _ _ stored), ?_⟩
  -- A cell is new when it came with the one part or with the other, and never with both.
  have unstored : ∀ address, cells address ≠ between address →
      between address = none ∧ base address = none := by
    intro address differs
    have none : between address = none := by
      by_contra some
      obtain ⟨content, stored⟩ := Option.ne_none_iff_exists'.mp some
      exact differs ((keptToo _ _ stored).trans stored.symm)
    refine ⟨none, ?_⟩
    by_contra some
    obtain ⟨content, stored⟩ := Option.ne_none_iff_exists'.mp some
    rw [kept _ _ stored] at none
    cases none
  have split : {address | cells address ≠ base address} =
      {address | cells address ≠ between address} ∪ {address | between address ≠ base address} := by
    ext address
    simp only [Set.mem_ofPred_eq, Set.mem_union]
    constructor
    · intro differs
      by_contra neither
      push Not at neither
      exact differs (neither.1.trans neither.2)
    · rintro (new | new) same
      · obtain ⟨none, noneToo⟩ := unstored address new
        exact new (same.trans (noneToo.trans none.symm))
      · by_cases changed : cells address = between address
        · exact new (changed.symm.trans same)
        · obtain ⟨none, noneToo⟩ := unstored address changed
          exact new (none.trans noneToo.symm)
  have apart : Disjoint {address | cells address ≠ between address}
      {address | between address ≠ base address} := by
    rw [Set.disjoint_left]
    intro address changed new
    obtain ⟨none, noneToo⟩ := unstored address changed
    exact new (none.trans noneToo.symm)
  rw [split, Set.encard_union_eq apart, few, many]
  push_cast
  rfl

/-- Any of a family adds as much as each of them. -/
theorem any {ι : Sort*} {family : ι → Assertion α β} {count : Nat}
    (each : ∀ index, Adds count (family index)) : Adds count (Assertion.any family) := by
  -- Whichever of the family it is, it adds so many cells.
  intro base cells held
  rw [any_mul] at held
  obtain ⟨index, held⟩ := held
  exact each index base cells held

end Adds

variable [DecidableEq α]

/-- There is one cell only, and this is what is in it. -/
def cell (address : α) (content : β) : Assertion α β :=
  fun cells => cells = Function.update (fun _ => none) address (some content)

/-- With a cell next to others, the others are what is left without it. -/
theorem cell_mul (address : α) (content : β) (others : Assertion α β) (cells : α → Option β) :
    (cell address content * others) cells ↔
      cells address = some content ∧ others (Function.update cells address none) := by
  constructor
  · rintro ⟨part, single, rest⟩
    -- The part has the cell, and nothing else.
    have inside : address ∈ part := by
      by_contra outside
      have here := congrFun single address
      rw [Function.update_self, restrict, if_neg outside] at here
      cases here
    have held := congrFun single address
    rw [Function.update_self, restrict, if_pos inside] at held
    refine ⟨held, ?_⟩
    have same : restrict cells partᶜ = Function.update cells address none := by
      funext other
      by_cases here : other = address
      · rw [here, Function.update_self, restrict, if_neg (by simpa using inside)]
      · rw [Function.update_of_ne here, restrict]
        by_cases within : other ∈ part
        · have nothing := congrFun single other
          rw [Function.update_of_ne here, restrict, if_pos within] at nothing
          rw [if_neg (by simpa using within), nothing]
        · rw [if_pos (by simpa using within)]
    rwa [same] at rest
  · rintro ⟨held, rest⟩
    refine ⟨{address}, ?_, ?_⟩
    · funext other
      by_cases here : other = address
      · rw [here, Function.update_self, restrict, if_pos (Set.mem_singleton _), held]
      · rw [Function.update_of_ne here, restrict, if_neg (by simpa using here)]
    · have same : restrict cells {address}ᶜ = Function.update cells address none := by
        funext other
        by_cases here : other = address
        · rw [here, Function.update_self, restrict, if_neg (by simp)]
        · rw [Function.update_of_ne here, restrict, if_pos (by simpa using here)]
      rwa [same]

/-- What is left of a cell: some content, or not even the cell. -/
def slot (address : α) : Option β → Assertion α β
  | some content => cell address content
  | none => 1

/-- Behind a change of one cell there is the cell as it was changed. -/
theorem slot_mul (address : α) (content : Option β) {others : Assertion α β} {cells : α → Option β}
    (held : others (Function.update cells address none)) :
    (slot address content * others) (Function.update cells address content) := by
  -- A slot is one cell or none, depending on what it holds.
  cases content with
  | none =>
    rw [slot, one_mul]
    exact held
  | some content =>
    rw [slot, cell_mul, Function.update_self, Function.update_idem]
    exact ⟨rfl, held⟩

/-- A cell is one more. -/
theorem Adds.cell (address : α) (content : β) : Adds 1 (cell address content) := by
  -- The cell is the only one that differs, and it was not in use before.
  intro base cells held
  obtain ⟨here, rfl⟩ := (cell_mul _ _ _ _).mp held
  refine ⟨fun other stored there => ?_, ?_⟩
  · by_cases own : other = address
    · rw [own, Function.update_self] at there
      cases there
    · rwa [Function.update_of_ne own] at there
  · have only : {other | cells other ≠ Function.update cells address none other} = {address} := by
      ext other
      by_cases own : other = address <;> simp [own, here]
    rw [only, Set.encard_singleton]
    rfl

end Assertion

end ChainTable
