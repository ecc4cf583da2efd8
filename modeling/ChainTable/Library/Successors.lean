import Mathlib.Order.Bounds.Basic
import Mathlib.Data.List.Chain

/-! The next larger and the next smaller of the members of a list, and the chain that they form. -/

namespace ChainTable

variable {α : Type*} [LinearOrder α]

/-- The least of the names above one of them, or none for the greatest. -/
def Succeeds (names : List α) (own : α) : Option α → Prop
  | some next => IsLeast {name | name ∈ names ∧ own < name} next
  | none => ∀ name ∈ names, name ≤ own

/-- The greatest of the names below one of them, or none for the least. -/
def Precedes (names : List α) (own : α) : Option α → Prop
  | some prev => IsGreatest {name | name ∈ names ∧ name < own} prev
  | none => ∀ name ∈ names, own ≤ name

/-- Only the members of the list decide what succeeds a name. -/
theorem Succeeds.of_perm {names others : List α} (same : others.Perm names) {own : α}
    {next : Option α} (succeeds : Succeeds others own next) : Succeeds names own next := by
  -- Either condition asks only which names are members, and both lists have the same ones.
  cases next with
  | none => exact fun name member => succeeds name (same.mem_iff.mpr member)
  | some next => simpa only [Succeeds, same.mem_iff] using succeeds

/-- Only the members of the list decide what precedes a name. -/
theorem Precedes.of_perm {names others : List α} (same : others.Perm names) {own : α}
    {prev : Option α} (precedes : Precedes others own prev) : Precedes names own prev := by
  -- This is the condition on the successor, with the order turned around.
  cases prev with
  | none => exact fun name member => precedes name (same.mem_iff.mpr member)
  | some prev => simpa only [Precedes, same.mem_iff] using precedes

/-- A name succeeds another one exactly if that one precedes it. -/
theorem succeeds_iff_precedes {names : List α} {own other : α} (ownMember : own ∈ names)
    (otherMember : other ∈ names) :
    Succeeds names own (some other) ↔ Precedes names other (some own) := by
  -- Both sides say that the one name is below the other, with no member between them.
  constructor
  · rintro ⟨⟨-, above⟩, least⟩
    refine ⟨⟨ownMember, above⟩, ?_⟩
    -- A name between the two would be above the one, and below the least name above it.
    rintro name ⟨member, below⟩
    exact not_lt.mp fun between => absurd (least ⟨member, between⟩) (not_le.mpr below)
  · rintro ⟨⟨-, below⟩, greatest⟩
    refine ⟨⟨otherMember, below⟩, ?_⟩
    -- In the same way, it would be below the other, and above the greatest name below that.
    rintro name ⟨member, above⟩
    exact not_lt.mp fun between => absurd (greatest ⟨member, between⟩) (not_le.mpr above)

/-- In an ascending list each name is succeeded by its neighbour. -/
theorem isChain_succeeds {names : List α} (ascends : names.Pairwise (· < ·)) :
    names.IsChain fun own next => Succeeds names own (some next) := by
  -- It is enough to look at two neighbours, with the names before and after them.
  rw [List.isChain_iff_forall_rel_of_append_cons_cons]
  rintro own next before after rfl
  obtain ⟨-, tail, across⟩ := List.pairwise_append.mp ascends
  obtain ⟨above, rest⟩ := List.pairwise_cons.mp tail
  refine ⟨⟨by simp, above next (by simp)⟩, ?_⟩
  -- A name above the first of the two is the second, or comes after it.
  rintro name ⟨member, higher⟩
  rcases List.mem_append.mp member with earlier | later
  · -- The names before the two are below the first of them.
    exact absurd higher (across name earlier own (by simp)).asymm
  · rcases List.mem_cons.mp later with rfl | later
    · -- The first of the two is not above itself.
      exact absurd higher (lt_irrefl _)
    · rcases List.mem_cons.mp later with rfl | later
      · exact le_refl _
      · -- The names after the two are above the second of them.
        exact ((List.pairwise_cons.mp rest).1 name later).le

/-- In an ascending list no name succeeds the last one. -/
theorem succeeds_getLast {names : List α} (ascends : names.Pairwise (· < ·)) {last : α}
    (ends : last ∈ names.getLast?) : Succeeds names last none := by
  -- Every member is in front of the last one, or is the last one.
  obtain ⟨before, rfl⟩ := List.getLast?_eq_some_iff.mp ends
  intro name member
  rcases List.mem_append.mp member with earlier | isLast
  · exact ((List.pairwise_append.mp ascends).2.2 name earlier last (by simp)).le
  · exact (List.mem_singleton.mp isLast).le

/-- The first of ascending items above one of them is the one behind it. -/
theorem find?_above {β : Type*} {key : β → α} {items : List β}
    (ascends : (items.map key).Pairwise (· < ·)) {position : Nat} {item : β}
    (found : items[position]? = some item) :
    items.find? (fun other => key item < key other) = items[position + 1]? := by
  -- The items in front are below, and the one behind is above.
  obtain ⟨inside, holds⟩ := List.getElem?_eq_some_iff.mp found
  have split : items = items.take position ++ item :: items.drop (position + 1) := by
    rw [← holds, ← List.drop_eq_getElem_cons inside, List.take_append_drop]
  have ordered := List.pairwise_map.mp ascends
  rw [split] at ordered
  obtain ⟨-, tail, across⟩ := List.pairwise_append.mp ordered
  have front : (items.take position).find? (fun other => key item < key other) = none := by
    rw [List.find?_eq_none]
    intro other member
    simpa using (across other member item List.mem_cons_self).le
  have behind : (items.drop (position + 1)).find? (fun other => key item < key other) =
      (items.drop (position + 1)).head? := by
    cases rest : items.drop (position + 1) with
    | nil => rfl
    | cons next others =>
      rw [rest] at tail
      have above := (List.pairwise_cons.mp tail).1 next List.mem_cons_self
      rw [List.find?_cons_of_pos (by simpa using above), List.head?_cons]
  calc
    items.find? (fun other => key item < key other)
    _ = (items.take position ++ item :: items.drop (position + 1)).find?
          (fun other => key item < key other) := by rw [← split]
    _ = (items.drop (position + 1)).head? := by
      rw [List.find?_append, front, Option.none_or, List.find?_cons_of_neg (by simp), behind]
    _ = items[position + 1]? := List.head?_drop

/-- One of ascending items is the only one with its key. -/
theorem find?_same {β : Type*} {key : β → α} {items : List β}
    (ascends : (items.map key).Pairwise (· < ·)) {item : β} (member : item ∈ items) :
    items.find? (fun other => key other = key item) = some item := by
  -- The items in front of it have smaller keys.
  induction items with
  | nil => cases member
  | cons first rest ih =>
    rw [List.map_cons] at ascends
    obtain ⟨below, ascends⟩ := List.pairwise_cons.mp ascends
    rcases List.mem_cons.mp member with rfl | later
    · rw [List.find?_cons_of_pos (by simp)]
    · have less := below (key item) (List.mem_map_of_mem later)
      rw [List.find?_cons_of_neg (by simpa using less.ne)]
      exact ih ascends later

end ChainTable
