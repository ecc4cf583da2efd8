import Mathlib.Order.Lattice
import Mathlib.Order.Defs.LinearOrder
import Mathlib.Data.List.Basic
import Mathlib.Tactic.Common

/-! Association lists kept in strictly ascending key order, as finite maps. -/

namespace ChainTable.OrderedAssoc

variable {κ ν μ : Type*} [LinearOrder κ]

/-- Keys strictly ascend along the list, so no key is stored twice. -/
def Sorted (pairs : List (κ × ν)) : Prop :=
  -- Strict order between every earlier and every later pair.
  pairs.Pairwise (fun left right => left.1 < right.1)

/-- Insert a pair at its place, or overwrite the value stored under the same key. -/
def insert (key : κ) (value : ν) : List (κ × ν) → List (κ × ν)
  | [] => [(key, value)]
  | (other, stored) :: rest =>
    if key < other then (key, value) :: (other, stored) :: rest
    else if key = other then (key, value) :: rest
    else (other, stored) :: insert key value rest

/-- Drop the first pair stored under a key. -/
def erase (key : κ) : List (κ × ν) → List (κ × ν)
  | [] => []
  | (other, stored) :: rest =>
    if key = other then rest else (other, stored) :: erase key rest

/-- Looking up the head's own key stops there, and any other key continues in the rest. -/
theorem lookup_cons (key other : κ) (stored : ν) (rest : List (κ × ν)) :
    List.lookup key ((other, stored) :: rest) =
      if key = other then some stored else List.lookup key rest := by
  -- Boolean equality of keys is their equality.
  rw [List.lookup_cons]
  by_cases same : key = other
  · simp [same]
  · simp [beq_eq_false_iff_ne.mpr same, same]

/-- Every key after the head of a sorted list lies above the head's key. -/
theorem Sorted.head_lt {key : κ} {value : ν} {rest : List (κ × ν)}
    (sorted : Sorted ((key, value) :: rest)) : ∀ pair ∈ rest, key < pair.1 :=
  (List.pairwise_cons.mp sorted).1

/-- The rest of a sorted list is sorted. -/
theorem Sorted.tail {pair : κ × ν} {rest : List (κ × ν)}
    (sorted : Sorted (pair :: rest)) : Sorted rest :=
  (List.pairwise_cons.mp sorted).2

/-- A key that no pair carries is looked up to nothing. -/
theorem lookup_eq_none {key : κ} {pairs : List (κ × ν)}
    (absent : ∀ pair ∈ pairs, pair.1 ≠ key) : List.lookup key pairs = none := by
  -- The search passes every pair, since each carries another key.
  induction pairs with
  | nil => rfl
  | cons pair rest ih =>
    obtain ⟨other, stored⟩ := pair
    have differs : key ≠ other := fun same => absent (other, stored) (by simp) same.symm
    rw [lookup_cons, if_neg differs]
    exact ih fun pair member => absent pair (by simp [member])

/-- In a sorted list, being stored and being found are the same. -/
theorem Sorted.mem_iff_lookup {pairs : List (κ × ν)} (sorted : Sorted pairs) (key : κ) (value : ν) :
    (key, value) ∈ pairs ↔ List.lookup key pairs = some value := by
  -- The search stops at the first pair with the key, and a sorted list has only one.
  induction pairs with
  | nil => simp
  | cons pair rest ih =>
    obtain ⟨other, stored⟩ := pair
    rw [lookup_cons]
    by_cases same : key = other
    · subst same
      -- A second pair under the head's key would have to lie above itself.
      have only : (key, value) ∉ rest := fun member =>
        lt_irrefl _ (sorted.head_lt _ member)
      simp [only, eq_comm]
    · simp [same, ih sorted.tail]

/-- Insertion brings in its own pair and no other. -/
theorem mem_insert {key : κ} {value : ν} {pair : κ × ν} {pairs : List (κ × ν)}
    (member : pair ∈ insert key value pairs) : pair = (key, value) ∨ pair ∈ pairs := by
  -- The three branches place the new pair in front, over the head, or further on.
  induction pairs with
  | nil => simpa [insert] using member
  | cons head rest ih =>
    obtain ⟨other, stored⟩ := head
    simp only [insert] at member
    split at member
    · simpa using member
    · split at member
      · rcases List.mem_cons.mp member with same | later
        · exact .inl same
        · exact .inr (by simp [later])
      · rcases List.mem_cons.mp member with same | later
        · exact .inr (by simp [same])
        · exact (ih later).imp id fun stored => by simp [stored]

/-- Erasure keeps no pair that was not stored before. -/
theorem mem_erase {key : κ} {pair : κ × ν} {pairs : List (κ × ν)}
    (member : pair ∈ erase key pairs) : pair ∈ pairs := by
  -- The pair is dropped at the head, or further on.
  induction pairs with
  | nil => simp [erase] at member
  | cons head rest ih =>
    obtain ⟨other, stored⟩ := head
    simp only [erase] at member
    split at member
    · simp [member]
    · rcases List.mem_cons.mp member with same | later
      · simp [same]
      · simp [ih later]

/-- Insertion keeps a sorted list sorted. -/
theorem Sorted.insert {pairs : List (κ × ν)} (sorted : Sorted pairs) (key : κ) (value : ν) :
    Sorted (OrderedAssoc.insert key value pairs) := by
  -- The place of the new key is in front of the head, at it, or behind it.
  induction pairs with
  | nil => simp [OrderedAssoc.insert, Sorted]
  | cons head rest ih =>
    obtain ⟨other, stored⟩ := head
    simp only [OrderedAssoc.insert]
    split
    · -- The new key lies below the head, hence below everything.
      rename_i below
      refine List.pairwise_cons.mpr ⟨fun pair member => ?_, sorted⟩
      rcases List.mem_cons.mp member with same | later
      · rw [same]; exact below
      · exact below.trans (sorted.head_lt pair later)
    · rename_i notBelow
      split
      · -- The head keeps its key, and only its value changes.
        rename_i same
        subst same
        exact List.pairwise_cons.mpr ⟨sorted.head_lt, sorted.tail⟩
      · -- The new key lies above the head, so it joins the rest.
        rename_i differs
        have above : other < key := lt_of_le_of_ne (not_lt.mp notBelow) (Ne.symm differs)
        refine List.pairwise_cons.mpr ⟨fun pair member => ?_, ih sorted.tail⟩
        rcases mem_insert member with same | later
        · rw [same]; exact above
        · exact sorted.head_lt pair later

/-- Erasure keeps a sorted list sorted. -/
theorem Sorted.erase {pairs : List (κ × ν)} (sorted : Sorted pairs) (key : κ) :
    Sorted (OrderedAssoc.erase key pairs) := by
  -- What is left of the rest was in it before, and so it is above the head still.
  induction pairs with
  | nil => exact sorted
  | cons head rest ih =>
    obtain ⟨other, stored⟩ := head
    simp only [OrderedAssoc.erase]
    split
    · -- The head itself is dropped.
      exact sorted.tail
    · exact List.pairwise_cons.mpr
        ⟨fun pair member => sorted.head_lt pair (mem_erase member), ih sorted.tail⟩

/-- Insertion changes what is found under its own key only. -/
theorem lookup_insert (key other : κ) (value : ν) (pairs : List (κ × ν)) :
    List.lookup other (insert key value pairs) =
      if other = key then some value else List.lookup other pairs := by
  -- The three branches of the insertion meet the search at the head, or pass it on to the rest.
  induction pairs with
  | nil => simp [insert, lookup_cons]
  | cons head rest ih =>
    obtain ⟨first, stored⟩ := head
    simp only [insert]
    split
    · -- The new pair comes first, and is found first.
      rw [lookup_cons]
    · split
      · -- The head gets the new value, and hides what it stored before.
        rename_i same
        subst same
        simp only [lookup_cons]
        split <;> rfl
      · rename_i differs
        simp only [lookup_cons, ih]
        -- The key asked for is the head's, the new one, or neither.
        by_cases atHead : other = first
        · subst atHead
          simp [Ne.symm differs]
        · simp [atHead]

/-- Erasure hides its own key and no other. -/
theorem Sorted.lookup_erase {pairs : List (κ × ν)} (sorted : Sorted pairs) (key other : κ) :
    List.lookup other (OrderedAssoc.erase key pairs) =
      if other = key then none else List.lookup other pairs := by
  -- The erased pair is the head, or the search passes the head as the erasure did.
  induction pairs with
  | nil => simp [OrderedAssoc.erase]
  | cons head rest ih =>
    obtain ⟨first, stored⟩ := head
    simp only [OrderedAssoc.erase]
    split
    · rename_i same
      subst same
      by_cases asked : other = key
      · -- Everything left lies above the erased key.
        subst asked
        rw [if_pos rfl]
        exact lookup_eq_none fun pair member => (sorted.head_lt pair member).ne'
      · simp [lookup_cons, asked]
    · rename_i differs
      simp only [lookup_cons, ih sorted.tail]
      by_cases atHead : other = first
      · subst atHead
        simp [Ne.symm differs]
      · simp [atHead]

/-- Insertion adds one pair exactly when its key was not stored. -/
theorem Sorted.length_insert {pairs : List (κ × ν)} (sorted : Sorted pairs) (key : κ) (value : ν) :
    (OrderedAssoc.insert key value pairs).length =
      if List.lookup key pairs = none then pairs.length + 1 else pairs.length := by
  -- A pair is added in front of the first larger key, or not at all.
  induction pairs with
  | nil => simp [OrderedAssoc.insert]
  | cons head rest ih =>
    obtain ⟨other, stored⟩ := head
    simp only [OrderedAssoc.insert]
    split
    · -- A key below the head is nowhere in the list.
      rename_i below
      have absent : List.lookup key ((other, stored) :: rest) = none := by
        refine lookup_eq_none fun pair member => ?_
        rcases List.mem_cons.mp member with same | later
        · rw [same]; exact below.ne'
        · exact (below.trans (sorted.head_lt pair later)).ne'
      simp [absent]
    · split
      · -- The key was stored at the head, where its value is replaced.
        rename_i same
        simp [same]
      · -- The count of the rest decides, since the head is not about this key.
        rename_i differs
        simp only [lookup_cons, if_neg differs, List.length_cons, ih sorted.tail]
        split <;> rfl

/-- Erasure removes one pair exactly when its key was stored. -/
theorem length_erase (key : κ) (pairs : List (κ × ν)) :
    (erase key pairs).length =
      if List.lookup key pairs = none then pairs.length else pairs.length - 1 := by
  -- A pair is dropped where the search finds the key.
  induction pairs with
  | nil => simp [erase]
  | cons head rest ih =>
    obtain ⟨other, stored⟩ := head
    simp only [erase, lookup_cons]
    split
    · simp
    · simp only [List.length_cons, ih]
      split
      · rfl
      · -- A stored key means the rest is not empty.
        rename_i found
        have positive : rest ≠ [] := fun empty => found (by simp [empty])
        have := List.length_pos_iff.mpr positive
        omega

/-- Changing the values and keeping the keys keeps a sorted list sorted. -/
theorem Sorted.map_values {pairs : List (κ × ν)} (sorted : Sorted pairs) (change : ν → μ) :
    Sorted (pairs.map (Prod.map id change)) :=
  List.Pairwise.map _ (fun _ _ less => less) sorted

/-- Insertion goes by the keys alone, so the values may be changed before or after it. -/
theorem insert_map_values (key : κ) (value : ν) (change : ν → μ) (pairs : List (κ × ν)) :
    insert key (change value) (pairs.map (Prod.map id change)) =
      (insert key value pairs).map (Prod.map id change) := by
  -- Both insertions compare the same keys, and so they take the same branch.
  induction pairs with
  | nil => rfl
  | cons head rest ih =>
    simp only [List.map_cons, Prod.map, id_eq, insert, ih]
    split
    · rfl
    · split <;> rfl

/-- A search goes by the keys alone, so the value found may be changed before or after it. -/
theorem lookup_map_values (key : κ) (change : ν → μ) (pairs : List (κ × ν)) :
    List.lookup key (pairs.map (Prod.map id change)) = (List.lookup key pairs).map change := by
  -- Both searches stop at the same key.
  induction pairs with
  | nil => rfl
  | cons head rest ih =>
    obtain ⟨other, stored⟩ := head
    simp only [List.map_cons, Prod.map, id_eq, lookup_cons, ih]
    split <;> rfl

/-- Insertion under a stored key changes the pair with that key, and no other. -/
theorem Sorted.insert_stored {pairs : List (κ × ν)} (sorted : Sorted pairs) {key : κ} (value : ν)
    (stored : List.lookup key pairs ≠ none) :
    OrderedAssoc.insert key value pairs =
      pairs.map fun pair => if pair.1 = key then (key, value) else pair := by
  -- The pairs passed on the way to the key have smaller keys, and those behind it larger ones.
  induction pairs with
  | nil => exact absurd rfl stored
  | cons head rest ih =>
    obtain ⟨other, held⟩ := head
    rw [lookup_cons] at stored
    simp only [OrderedAssoc.insert, List.map_cons]
    by_cases same : key = other
    · subst same
      have kept : rest.map (fun pair => if pair.1 = key then (key, value) else pair) = rest := by
        refine (List.map_congr_left fun pair member => ?_).trans (List.map_id rest)
        exact if_neg (sorted.head_lt pair member).ne'
      rw [if_neg (lt_irrefl key), if_pos rfl, if_pos rfl, kept]
    · rw [if_neg same] at stored
      -- The key is further on in a sorted list, and hence larger than the head.
      obtain ⟨old, found⟩ := Option.ne_none_iff_exists'.mp stored
      have member := (sorted.tail.mem_iff_lookup key old).mpr found
      have above : ¬ key < other := (sorted.head_lt _ member).asymm
      rw [if_neg above, if_neg same, if_neg (Ne.symm same), ih sorted.tail stored]

/-- Insertion under a new key puts one pair between those in front of it and those behind. -/
theorem insert_fresh {key : κ} (value : ν) {pairs : List (κ × ν)}
    (fresh : List.lookup key pairs = none) :
    ∃ before behind, pairs = before ++ behind ∧
      insert key value pairs = before ++ (key, value) :: behind := by
  -- The pairs passed on the way to the first larger key stay in front of the new one.
  induction pairs with
  | nil => exact ⟨[], [], rfl, rfl⟩
  | cons head rest ih =>
    obtain ⟨other, held⟩ := head
    rw [lookup_cons] at fresh
    have differs : key ≠ other := fun same => by simp [same] at fresh
    rw [if_neg differs] at fresh
    by_cases below : key < other
    · exact ⟨[], (other, held) :: rest, rfl, by simp [insert, below]⟩
    · obtain ⟨before, behind, cut, inserted⟩ := ih fresh
      refine ⟨(other, held) :: before, behind, by rw [cut]; rfl, ?_⟩
      simp only [insert, if_neg below, if_neg differs, inserted, List.cons_append]

/-- There is one place only where an element can join a list that ascends strictly. -/
theorem place_unique {α : Type*} {below : α → α → Prop}
    (strict : ∀ left right, below left right → ¬ below right left) {joined : α}
    {before behind before' behind' : List α} (same : before ++ behind = before' ++ behind')
    (ascends : (before ++ joined :: behind).Pairwise below)
    (ascends' : (before' ++ joined :: behind').Pairwise below) :
    before = before' ∧ behind = behind' := by
  -- Element by element, what stands in front of one place stands in front of the other.
  induction before generalizing before' with
  | nil =>
    cases before' with
    | nil => exact ⟨rfl, same⟩
    | cons first rest =>
      -- The first element would be above the joined one, and below it.
      rw [List.nil_append, List.cons_append] at same
      rw [List.nil_append, same] at ascends
      have above := (List.pairwise_cons.mp ascends).1 first (by simp)
      have under := (List.pairwise_cons.mp ascends').1 joined (by simp)
      exact absurd under (strict _ _ above)
  | cons first rest ih =>
    cases before' with
    | nil =>
      -- Here the first element is in front of the one place, and behind the other.
      rw [List.nil_append, List.cons_append] at same
      rw [List.nil_append, ← same] at ascends'
      have above := (List.pairwise_cons.mp ascends').1 first (by simp)
      have under := (List.pairwise_cons.mp ascends).1 joined (by simp)
      exact absurd under (strict _ _ above)
    | cons other others =>
      rw [List.cons_append, List.cons_append, List.cons.injEq] at same
      obtain ⟨fronts, backs⟩ := ih same.2 (List.pairwise_cons.mp ascends).2
        (List.pairwise_cons.mp ascends').2
      exact ⟨by rw [same.1, fronts], backs⟩

/-- Two sorted lists that find the same values are the same list. -/
theorem Sorted.eq_of_lookup {left right : List (κ × ν)} (sortedLeft : Sorted left)
    (sortedRight : Sorted right)
    (agree : ∀ key, List.lookup key left = List.lookup key right) : left = right := by
  -- The same pairs are stored in both, and there is one sorted way to list them.
  have members : ∀ pair, pair ∈ left ↔ pair ∈ right := fun ⟨key, value⟩ => by
    rw [sortedLeft.mem_iff_lookup, sortedRight.mem_iff_lookup, agree]
  have distinct : ∀ {pairs : List (κ × ν)}, Sorted pairs → pairs.Nodup := fun sorted =>
    sorted.imp fun less same => less.ne (congrArg Prod.fst same)
  have permuted : left.Perm right :=
    (List.perm_ext_iff_of_nodup (distinct sortedLeft) (distinct sortedRight)).mpr members
  exact permuted.eq_of_pairwise (fun _ _ _ _ less more => absurd less more.asymm)
    sortedLeft sortedRight

end ChainTable.OrderedAssoc
