import ChainTable.Library.OrderedAssoc
import Mathlib.Data.Finmap
import Mathlib.Data.List.Nodup

/-! A finite map spread over buckets, each bucket an ordered association list. -/

namespace ChainTable

open OrderedAssoc

/-- Rows of pairs, where every pair is stored in the row its key is assigned to. -/
structure Buckets (κ ν : Type*) [LinearOrder κ] (home : κ → Int) (count : Nat) where
  rows : List (List (κ × ν))
  /-- The number of rows is fixed when the map is created. -/
  length_rows : rows.length = count
  /-- Each row ascends strictly by key. -/
  sorted : ∀ row ∈ rows, Sorted row
  /-- No pair strays from the row of its key. -/
  placed : ∀ (index : Nat) (row : List (κ × ν)), rows[index]? = some row →
    ∀ pair ∈ row, home pair.1 = index

namespace Buckets

variable {κ ν : Type*} [LinearOrder κ] {home : κ → Int} {count : Nat}

/-- A key can be stored only when its assigned row exists. -/
def InRange (home : κ → Int) (count : Nat) (key : κ) : Prop :=
  0 ≤ home key ∧ home key < count

instance (home : κ → Int) (count : Nat) (key : κ) : Decidable (InRange home count key) :=
  inferInstanceAs (Decidable (_ ∧ _))

/-- The row a key is assigned to, empty when there is no such row. -/
def row (buckets : Buckets κ ν home count) (key : κ) : List (κ × ν) :=
  buckets.rows.getD (home key).toNat []

/-- The value stored under a key. -/
def lookup (buckets : Buckets κ ν home count) (key : κ) : Option ν :=
  List.lookup key (buckets.row key)

/-- Every stored pair, row after row. -/
def pairs (buckets : Buckets κ ν home count) : List (κ × ν) :=
  buckets.rows.flatten

/-- The number of stored pairs. -/
def size (buckets : Buckets κ ν home count) : Nat :=
  buckets.pairs.length

/-- All rows start without pairs. -/
def empty (home : κ → Int) (count : Nat) : Buckets κ ν home count where
  rows := List.replicate count []
  length_rows := List.length_replicate
  sorted row member := by
    -- Every row is the empty one.
    rw [List.eq_of_mem_replicate member]
    exact List.Pairwise.nil
  placed index row found := by
    rw [List.eq_of_mem_replicate (List.mem_of_getElem? found)]
    simp

/-- A row found for a key in range is one of the rows, so it is sorted. -/
theorem row_sorted (buckets : Buckets κ ν home count) (key : κ) : Sorted (buckets.row key) := by
  -- Past the last row the answer is the empty row, which is sorted too.
  unfold row
  rw [List.getD_eq_getElem?_getD]
  cases found : buckets.rows[(home key).toNat]? with
  | none => exact List.Pairwise.nil
  | some row => exact buckets.sorted row (List.mem_of_getElem? found)

/-- The row of a key in range stands at the key's own position. -/
theorem getElem?_row (buckets : Buckets κ ν home count) {key : κ}
    (inRange : InRange home count key) :
    buckets.rows[(home key).toNat]? = some (buckets.row key) := by
  -- A key in range has a position in front of the last row.
  have bound : (home key).toNat < buckets.rows.length := by
    rw [buckets.length_rows]
    have := inRange.1
    have := inRange.2
    omega
  rw [row, List.getD_eq_getElem?_getD, List.getElem?_eq_getElem bound, Option.getD_some]

/-- Replace one row by another one with keys of the same row. -/
def setRow (buckets : Buckets κ ν home count) (key : κ) (replacement : List (κ × ν))
    (sorted : Sorted replacement)
    (placed : ∀ pair ∈ replacement, home pair.1 = ((home key).toNat : Int)) :
    Buckets κ ν home count where
  rows := buckets.rows.set (home key).toNat replacement
  length_rows := by rw [List.length_set, buckets.length_rows]
  sorted row member := by
    -- A row is an old one, or the replacement.
    rcases List.mem_or_eq_of_mem_set member with old | same
    · exact buckets.sorted row old
    · rw [same]; exact sorted
  placed index row found := by
    -- The position asked for is the replaced one, or one that was not touched.
    rw [List.getElem?_set] at found
    split at found
    · rename_i same
      split at found
      · cases found; rw [← same]; exact placed
      · cases found
    · exact buckets.placed index row found

/-- The pairs of a key's row are all assigned to that row. -/
theorem row_placed (buckets : Buckets κ ν home count) {key : κ}
    (inRange : InRange home count key) :
    ∀ pair ∈ buckets.row key, home pair.1 = ((home key).toNat : Int) :=
  buckets.placed _ _ (buckets.getElem?_row inRange)

/-- Inserting a key into its own row leaves every pair of that row in its place. -/
theorem insert_placed (buckets : Buckets κ ν home count) {key : κ} (value : ν)
    (inRange : InRange home count key) :
    ∀ pair ∈ OrderedAssoc.insert key value (buckets.row key),
      home pair.1 = ((home key).toNat : Int) := by
  -- A pair of the row is the new one, or one that was placed there before.
  intro pair member
  rcases mem_insert member with same | stored
  · rw [same, Int.toNat_of_nonneg inRange.1]
  · exact buckets.row_placed inRange pair stored

/-- Store a value under a key in range. -/
def insert (buckets : Buckets κ ν home count) (key : κ) (value : ν)
    (inRange : InRange home count key) : Buckets κ ν home count :=
  buckets.setRow key (OrderedAssoc.insert key value (buckets.row key))
    ((buckets.row_sorted key).insert key value) (buckets.insert_placed value inRange)

/-- Forget what is stored under a key in range. -/
def erase (buckets : Buckets κ ν home count) (key : κ)
    (inRange : InRange home count key) : Buckets κ ν home count :=
  buckets.setRow key (OrderedAssoc.erase key (buckets.row key))
    ((buckets.row_sorted key).erase key)
    fun pair member => buckets.row_placed inRange pair (mem_erase member)

/-- Two bucket maps with the same rows are the same. -/
theorem ext_rows {left right : Buckets κ ν home count} (same : left.rows = right.rows) :
    left = right := by
  cases left; cases right; cases same; rfl

/-- Two bucket maps that find the same values are the same, row by row. -/
theorem ext_lookup {left right : Buckets κ ν home count}
    (agree : ∀ key, left.lookup key = right.lookup key) : left = right := by
  -- Rows at one position are sorted, and they find the same values.
  refine ext_rows (List.ext_getElem (by rw [left.length_rows, right.length_rows]) ?_)
  intro index insideLeft insideRight
  have foundLeft := List.getElem?_eq_getElem insideLeft
  have foundRight := List.getElem?_eq_getElem insideRight
  refine (left.sorted _ (List.getElem_mem insideLeft)).eq_of_lookup
    (right.sorted _ (List.getElem_mem insideRight)) fun key => ?_
  by_cases here : home key = index
  · -- A key of this row is looked up in this row by both.
    have found := agree key
    simpa only [lookup, row, here, Int.toNat_natCast, List.getD_eq_getElem?_getD, foundLeft,
      foundRight, Option.getD_some] using found
  · -- A key of another row is not stored in this one.
    have absent : ∀ (buckets : Buckets κ ν home count) (row : List (κ × ν)),
        buckets.rows[index]? = some row → List.lookup key row = none :=
      fun buckets row found => lookup_eq_none fun pair member same =>
        here (by rw [← same]; exact buckets.placed index row found pair member)
    rw [absent left _ foundLeft, absent right _ foundRight]

/-- Reading any row after one row was replaced. -/
theorem row_setRow (buckets : Buckets κ ν home count) {key : κ}
    (inRange : InRange home count key) {replacement : List (κ × ν)}
    (sorted : Sorted replacement)
    (placed : ∀ pair ∈ replacement, home pair.1 = ((home key).toNat : Int)) (other : κ) :
    (buckets.setRow key replacement sorted placed).row other =
      if (home other).toNat = (home key).toNat then replacement else buckets.row other := by
  -- The replaced position lies inside the rows, so the replacement is really there.
  have bound : (home key).toNat < buckets.rows.length :=
    (List.getElem?_eq_some_iff.mp (buckets.getElem?_row inRange)).1
  simp only [row, setRow, List.getD_eq_getElem?_getD, List.getElem?_set]
  by_cases same : (home key).toNat = (home other).toNat
  · rw [if_pos same, if_pos (same ▸ bound), if_pos same.symm, Option.getD_some]
  · rw [if_neg same, if_neg (Ne.symm same)]

/-- Storing a value changes what is found under its own key only. -/
theorem lookup_insert (buckets : Buckets κ ν home count) {key : κ} (value : ν)
    (inRange : InRange home count key) (other : κ) :
    (buckets.insert key value inRange).lookup other =
      if other = key then some value else buckets.lookup other := by
  -- A key of another row is not affected, and one of this row is left to the row.
  simp only [lookup, insert, row_setRow buckets inRange]
  split
  · -- Both keys share a row, where the ordered list keeps them apart.
    rename_i shared
    rw [OrderedAssoc.lookup_insert]
    simp only [row, shared]
  · rename_i apart
    have differs : other ≠ key := fun same => apart (by rw [same])
    rw [if_neg differs]

/-- Forgetting a key changes what is found under that key only. -/
theorem lookup_erase (buckets : Buckets κ ν home count) {key : κ}
    (inRange : InRange home count key) (other : κ) :
    (buckets.erase key inRange).lookup other =
      if other = key then none else buckets.lookup other := by
  -- Again only the row of the erased key changes.
  simp only [lookup, erase, row_setRow buckets inRange]
  split
  · -- The row is sorted, so that erasing one pair hides the key.
    rename_i shared
    rw [(buckets.row_sorted key).lookup_erase]
    simp only [row, shared]
  · rename_i apart
    have differs : other ≠ key := fun same => apart (by rw [same])
    rw [if_neg differs]

/-- Being stored and being found are the same. -/
theorem mem_pairs_iff_lookup (buckets : Buckets κ ν home count) (key : κ) (value : ν) :
    (key, value) ∈ buckets.pairs ↔ buckets.lookup key = some value := by
  -- A lookup searches a sorted row, where being stored and being found are the same.
  rw [lookup, ← (buckets.row_sorted key).mem_iff_lookup]
  constructor
  · -- A stored pair sits in the row its key is assigned to.
    intro member
    obtain ⟨row, rowMember, stored⟩ := List.mem_flatten.mp member
    obtain ⟨index, found⟩ := List.mem_iff_getElem?.mp rowMember
    have position := buckets.placed index row found (key, value) stored
    have same : buckets.row key = row := by
      rw [Buckets.row, List.getD_eq_getElem?_getD, position, Int.toNat_natCast, found]
      rfl
    rw [same]
    exact stored
  · intro member
    refine List.mem_flatten.mpr ⟨buckets.row key, ?_, member⟩
    -- A row holding a pair is not the empty answer given past the last row.
    cases found : buckets.rows[(home key).toNat]? with
    | none =>
      rw [Buckets.row, List.getD_eq_getElem?_getD, found] at member
      simp at member
    | some row =>
      have same : buckets.row key = row := by
        rw [Buckets.row, List.getD_eq_getElem?_getD, found]
        rfl
      rw [same]
      exact List.mem_of_getElem? found

/-- A key under which a value is stored is in range. -/
theorem inRange_of_lookup (buckets : Buckets κ ν home count) {key : κ} {value : ν}
    (found : buckets.lookup key = some value) : InRange home count key := by
  -- The pair lies in some row, and only in the row of its key.
  have member := (buckets.mem_pairs_iff_lookup key value).mpr found
  obtain ⟨row, inRows, inRow⟩ := List.mem_flatten.mp member
  obtain ⟨index, bound, same⟩ := List.getElem_of_mem inRows
  have position := buckets.placed index row (by rw [List.getElem?_eq_getElem bound, same]) _ inRow
  rw [buckets.length_rows] at bound
  exact ⟨by simp only [position]; omega, by simp only [position]; omega⟩

/-- Replacing a row changes the number of pairs by the difference in that row. -/
theorem size_setRow (buckets : Buckets κ ν home count) {key : κ}
    (inRange : InRange home count key) {replacement : List (κ × ν)}
    (sorted : Sorted replacement)
    (placed : ∀ pair ∈ replacement, home pair.1 = ((home key).toNat : Int)) :
    (buckets.setRow key replacement sorted placed).size + (buckets.row key).length =
      buckets.size + replacement.length := by
  -- Cut the rows at the replaced one, and count the two sides that stay.
  have found := buckets.getElem?_row inRange
  obtain ⟨bound, atPosition⟩ := List.getElem?_eq_some_iff.mp found
  have cut : buckets.rows = buckets.rows.take (home key).toNat ++
      buckets.row key :: buckets.rows.drop ((home key).toNat + 1) := by
    rw [← atPosition, List.cons_getElem_drop_succ, List.take_append_drop]
  have before : buckets.size = (buckets.rows.take (home key).toNat).flatten.length +
      ((buckets.row key).length +
        (buckets.rows.drop ((home key).toNat + 1)).flatten.length) := by
    rw [size, pairs, congrArg List.flatten cut]
    simp only [List.flatten_append, List.flatten_cons, List.length_append]
  have after : (buckets.setRow key replacement sorted placed).size =
      (buckets.rows.take (home key).toNat).flatten.length + (replacement.length +
        (buckets.rows.drop ((home key).toNat + 1)).flatten.length) := by
    simp only [size, pairs, setRow, List.set_eq_take_append_cons_drop, if_pos bound,
      List.flatten_append, List.flatten_cons, List.length_append]
  omega

/-- Storing a value adds a pair exactly when its key was not stored. -/
theorem size_insert (buckets : Buckets κ ν home count) {key : κ} (value : ν)
    (inRange : InRange home count key) :
    (buckets.insert key value inRange).size =
      if buckets.lookup key = none then buckets.size + 1 else buckets.size := by
  -- The number of pairs changes as the length of the row does.
  have counted := buckets.size_setRow inRange
    ((buckets.row_sorted key).insert key value) (buckets.insert_placed value inRange)
  have grown := (buckets.row_sorted key).length_insert key value
  change (buckets.insert key value inRange).size + _ = _ at counted
  unfold lookup
  split at grown <;> rename_i stored
  · rw [if_pos stored]; omega
  · rw [if_neg stored]; omega

/-- Forgetting a key removes a pair exactly when the key was stored. -/
theorem size_erase (buckets : Buckets κ ν home count) {key : κ}
    (inRange : InRange home count key) :
    (buckets.erase key inRange).size =
      if buckets.lookup key = none then buckets.size else buckets.size - 1 := by
  -- The number of pairs changes as the length of the row does.
  have counted := buckets.size_setRow inRange ((buckets.row_sorted key).erase key)
    fun pair member => buckets.row_placed inRange pair (mem_erase member)
  have shrunk := length_erase key (buckets.row key)
  change (buckets.erase key inRange).size + _ = _ at counted
  unfold lookup
  split at shrunk <;> rename_i stored
  · rw [if_pos stored]; omega
  · -- A stored key means the row it is in is not empty.
    have positive : buckets.row key ≠ [] := fun none => stored (by simp [none])
    have := List.length_pos_iff.mpr positive
    rw [if_neg stored]
    omega

/-- A map without pairs finds nothing. -/
theorem lookup_eq_none_of_size (buckets : Buckets κ ν home count) (noPairs : buckets.size = 0)
    (key : κ) : buckets.lookup key = none := by
  -- Whatever is found is one of the stored pairs.
  cases found : buckets.lookup key with
  | none => rfl
  | some value =>
    have member := (buckets.mem_pairs_iff_lookup key value).mpr found
    rw [List.length_eq_zero_iff.mp noPairs] at member
    simp at member

/-- Nothing is found in the empty map. -/
@[simp] theorem lookup_empty (key : κ) :
    (empty home count : Buckets κ ν home count).lookup key = none := by
  -- A map all of whose rows are empty has no pairs.
  refine lookup_eq_none_of_size _ ?_ key
  simp [size, pairs, empty]

/-- No key is stored twice, within a row or across rows. -/
theorem nodup_keys (buckets : Buckets κ ν home count) :
    (buckets.pairs.map Prod.fst).Nodup := by
  rw [pairs, List.map_flatten, List.nodup_flatten]
  constructor
  · -- Within a row the keys ascend strictly.
    intro keys member
    obtain ⟨row, rowMember, rfl⟩ := List.mem_map.mp member
    exact List.pairwise_map.mpr ((buckets.sorted row rowMember).imp ne_of_lt)
  · -- Two rows differ in position, and a key has one position only.
    rw [List.pairwise_map, List.pairwise_iff_getElem]
    intro i j boundI boundJ less key inLeft inRight
    obtain ⟨left, leftMember, rfl⟩ := List.mem_map.mp inLeft
    obtain ⟨right, rightMember, same⟩ := List.mem_map.mp inRight
    have atLeft := buckets.placed i _ (List.getElem?_eq_getElem boundI) left leftMember
    have atRight := buckets.placed j _ (List.getElem?_eq_getElem boundJ) right rightMember
    rw [same, atLeft] at atRight
    omega

/-- A finite map that finds the same values has as many keys as there are stored pairs. -/
theorem size_eq_card (buckets : Buckets κ ν home count) (map : Finmap fun _ : κ => ν)
    (agree : ∀ key, buckets.lookup key = map.lookup key) : buckets.size = map.keys.card := by
  -- The stored keys are distinct, and they are the keys of the map.
  have keys : (buckets.pairs.map Prod.fst).toFinset = map.keys := by
    ext key
    rw [List.mem_toFinset, Finmap.mem_keys, ← Finmap.lookup_isSome, ← agree,
      Option.isSome_iff_exists, List.mem_map]
    constructor
    · rintro ⟨⟨stored, value⟩, member, rfl⟩
      exact ⟨value, (buckets.mem_pairs_iff_lookup stored value).mp member⟩
    · rintro ⟨value, found⟩
      exact ⟨(key, value), (buckets.mem_pairs_iff_lookup key value).mpr found, rfl⟩
  rw [← keys, List.toFinset_card_of_nodup buckets.nodup_keys, List.length_map, size]

/-- Pairs with distinct keys are the pairs of a finite map. -/
theorem exists_finmap_pairs {pairs : List (κ × ν)} (nodup : (pairs.map Prod.fst).Nodup) :
    ∃ map : Finmap fun _ : κ => ν, ∀ key value,
      (key, value) ∈ pairs ↔ map.lookup key = some value := by
  -- The pairs go into the map one after another, the first pair last.
  induction pairs with
  | nil => exact ⟨∅, by simp⟩
  | cons pair rest ih =>
    obtain ⟨fresh, nodup⟩ := List.nodup_cons.mp nodup
    obtain ⟨map, agrees⟩ := ih nodup
    refine ⟨map.insert pair.1 pair.2, fun key value => ?_⟩
    by_cases same : key = pair.1
    · -- The key of the first pair is that of no other one.
      have absent : (pair.1, value) ∉ rest := fun member =>
        fresh (List.mem_map.mpr ⟨(pair.1, value), member, rfl⟩)
      rw [same, Finmap.lookup_insert, List.mem_cons]
      simp [absent, Prod.ext_iff, eq_comm]
    · rw [Finmap.lookup_insert_of_ne map same, ← agrees, List.mem_cons]
      simp [Prod.ext_iff, same]

/-- The lookups in buckets are those in a finite map. -/
theorem exists_finmap (buckets : Buckets κ ν home count) :
    ∃ map : Finmap fun _ : κ => ν, ∀ key, buckets.lookup key = map.lookup key := by
  -- The keys of a bucket map are distinct, so its pairs are those of a finite map.
  obtain ⟨map, agrees⟩ := exists_finmap_pairs buckets.nodup_keys
  refine ⟨map, fun key => Option.ext fun value => ?_⟩
  rw [← buckets.mem_pairs_iff_lookup key value, agrees]

end Buckets

end ChainTable
