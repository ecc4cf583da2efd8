import ChainTable.Library.BubbleSort
import ChainTable.Library.Successors
import ChainTable.Membership.Selection

/-! The servers that are selected form one chain, from the head to the tail that clients select. -/

namespace ChainTable

/-- A swap of neighbours. -/
theorem swap_neighbours (front back : List Key) (first second : Key) :
    swap (front ++ first :: second :: back) front.length (front.length + 1) =
      pure (front ++ second :: first :: back) := by
  -- Both positions are inside the array.
  simp [swap]

/-- The inner loop lets every string that it has yet to reach pass those that it has reached. -/
theorem bubbleInner_pass (front waiting : List Key) {passed : List Key} (reached : passed ≠ []) :
    bubbleInner front.length (front.length + waiting.length) (front ++ waiting ++ passed) =
      pure (front ++ waiting.foldr BubbleSort.pass passed) := by
  -- The loop goes down, so it reaches the last of the waiting strings first.
  induction waiting using List.reverseRecOn generalizing passed with
  | nil =>
    simp only [List.length_nil, Nat.add_zero, List.append_nil, List.foldr_nil]
    cases length : front.length with
    | zero => rfl
    | succ before => simp [bubbleInner]
  | append_singleton waiting left ih =>
    cases passed with
    | nil => exact absurd rfl reached
    | cons right passed =>
      have j : front.length + (waiting ++ [left]).length = front.length + waiting.length + 1 := by
        simp only [List.length_append, List.length_cons, List.length_nil]
        omega
      have array : front ++ (waiting ++ [left]) ++ right :: passed =
          (front ++ waiting) ++ left :: right :: passed := by simp
      have length : front.length + waiting.length = (front ++ waiting).length := by simp
      have atLeft : ((front ++ waiting) ++ left :: right :: passed)[(front ++ waiting).length]? =
          some left := by simp
      have atRight : ((front ++ waiting) ++ left :: right :: passed)[
          (front ++ waiting).length + 1]? = some right := by
        rw [List.getElem?_append_right (by omega)]
        simp
      rw [j, array, bubbleInner, if_pos (by omega), Nat.add_sub_cancel, length, atLeft, atRight]
      simp only [List.foldr_append, List.foldr_cons, List.foldr_nil]
      -- The comparison of strings is that of the order of names.
      by_cases above : right < left
      · rw [if_pos ((strcmp_pos_iff left right).mpr above), swap_neighbours, pure_bind, ← length]
        rw [BubbleSort.pass, if_pos above]
        exact ih (by simp)
      · -- Here nothing is swapped, and the next string is reached.
        rw [if_neg (fun positive => above ((strcmp_pos_iff left right).mp positive)), pure_bind,
          ← length]
        rw [BubbleSort.pass, if_neg above]
        exact ih (by simp)

/-- One run of the inner loop is a round over the strings from `i` on. -/
theorem bubbleInner_round (front : List Key) {rest : List Key} (nonempty : rest ≠ []) :
    bubbleInner front.length ((front ++ rest).length - 1) (front ++ rest) =
      pure (front ++ BubbleSort.round rest) := by
  obtain ⟨waiting, last, rfl⟩ := (List.eq_nil_or_concat' rest).resolve_left nonempty
  -- The last string waits for the others to come down to it.
  have passed : [last] ≠ [] := List.cons_ne_nil last []
  have passes := bubbleInner_pass front waiting passed
  have j : (front ++ (waiting ++ [last])).length - 1 = front.length + waiting.length := by
    simp only [List.length_append, List.length_cons, List.length_nil]
    omega
  rw [j, ← List.append_assoc, passes, BubbleSort.round, List.foldr_append]
  rfl

/-- The outer loop sorts the strings from `i` on. -/
theorem bubbleOuter_sort (rounds : Nat) (front rest : List Key)
    (enough : rounds + 1 ≤ rest.length) :
    bubbleOuter rounds front.length (front ++ rest) =
      pure (front ++ BubbleSort.sort rounds rest) := by
  -- Each round settles one place, from which the next round keeps away.
  induction rounds generalizing front rest with
  | zero => rfl
  | succ rounds ih =>
    have nonempty : rest ≠ [] := by
      rintro rfl
      simp at enough
    have length := BubbleSort.round_length rest
    rw [bubbleOuter, bubbleInner_round front nonempty, pure_bind, BubbleSort.sort]
    cases moved : BubbleSort.round rest with
    | nil =>
      rw [moved, List.length_nil] at length
      omega
    | cons least others =>
      rw [moved, List.length_cons] at length
      -- The least string joins those in front of `i`.
      have walked := ih (front ++ [least]) others (by omega)
      simpa using walked

/-- The children in the order in which every process sorts them. -/
def sortedChildren (children : List Key) : List Key :=
  BubbleSort.sort (children.length - 1) children

/-- `bubble_sort` sorts the children. -/
theorem bubbleSort_sorts (children : List Key) :
    bubbleSort children = pure (sortedChildren children) := by
  -- There are as many rounds as strings but one.
  cases children with
  | nil => rfl
  | cons first rest =>
    exact bubbleOuter_sort ((first :: rest).length - 1) [] (first :: rest) (by simp)

/-- Sorted children are the same ones. -/
theorem sortedChildren_perm (children : List Key) : (sortedChildren children).Perm children :=
  BubbleSort.sort_perm _ children

/-- Sorted children never descend. -/
theorem sortedChildren_ascend_weakly (children : List Key) :
    (sortedChildren children).Pairwise (· ≤ ·) :=
  BubbleSort.sort_ascends (by omega)

/--
`bubble_sort` ends for every array of strings, and leaves the same strings in the order of `strcmp`.

It runs into no undefined behaviour, so every swap is at two positions inside the array.
-/
theorem bubble_sort_orders (strings : List Key) :
    ∃ sorted, bubbleSort strings = pure sorted ∧ sorted.Perm strings ∧
      sorted.Pairwise fun earlier later => strcmp earlier later ≤ 0 := by
  refine ⟨sortedChildren strings, bubbleSort_sorts strings, sortedChildren_perm strings, ?_⟩
  -- A string that is not greater does not compare as greater.
  refine (sortedChildren_ascend_weakly strings).imp fun {earlier later} ordered => ?_
  have notGreater : ¬ 0 < strcmp earlier later := fun positive =>
    ordered.not_gt ((strcmp_pos_iff earlier later).mp positive)
  omega

/-- Distinct children ascend once they are sorted. -/
theorem sortedChildren_ascend {children : List Key} (distinct : children.Nodup) :
    (sortedChildren children).Pairwise (· < ·) := by
  -- Two distinct names that ascend weakly ascend strictly.
  have ascends := sortedChildren_ascend_weakly children
  have nodup := (sortedChildren_perm children).nodup_iff.mpr distinct
  exact (ascends.and nodup).imp fun both => lt_of_le_of_ne both.1 both.2

/-- The upward loop breaks at the successor. -/
theorem nextChild_succeeds (zkNodeId : Key) {children : List Key}
    (ascends : children.Pairwise (· < ·)) :
    Succeeds children zkNodeId (nextChild zkNodeId children) := by
  -- The loop passes every name up to the own one, and breaks at the first name above it.
  induction children with
  | nil => exact fun name member => by cases member
  | cons child rest ih =>
    obtain ⟨below, ascends⟩ := List.pairwise_cons.mp ascends
    unfold nextChild
    by_cases above : zkNodeId < child
    · -- Every later child is above this one.
      rw [if_pos ((strcmp_pos_iff child zkNodeId).mpr above)]
      refine ⟨⟨by simp, above⟩, ?_⟩
      rintro name ⟨member, -⟩
      rcases List.mem_cons.mp member with rfl | later
      · exact le_refl _
      · exact (below name later).le
    · -- This child is not above the own name, so the others decide.
      rw [if_neg (fun positive => above ((strcmp_pos_iff child zkNodeId).mp positive))]
      have succeeds := ih ascends
      cases found : nextChild zkNodeId rest with
      | none =>
        rw [found] at succeeds
        intro name member
        rcases List.mem_cons.mp member with rfl | later
        · exact not_lt.mp above
        · exact succeeds name later
      | some next =>
        rw [found] at succeeds
        obtain ⟨⟨member, higher⟩, least⟩ := succeeds
        refine ⟨⟨List.mem_cons_of_mem _ member, higher⟩, ?_⟩
        rintro name ⟨member, higher⟩
        rcases List.mem_cons.mp member with rfl | later
        · exact absurd higher above
        · exact least ⟨later, higher⟩

/-- The downward loop breaks at the predecessor. -/
theorem prevChild_precedes (zkNodeId : Key) {downwards : List Key}
    (descends : downwards.Pairwise (· > ·)) :
    Precedes downwards zkNodeId (prevChild zkNodeId downwards) := by
  -- The loop passes every name down to the own one, and breaks at the first name below it.
  induction downwards with
  | nil => exact fun name member => by cases member
  | cons child rest ih =>
    obtain ⟨above, descends⟩ := List.pairwise_cons.mp descends
    unfold prevChild
    by_cases below : child < zkNodeId
    · -- Every later child is below this one.
      rw [if_pos ((strcmp_neg_iff child zkNodeId).mpr below)]
      refine ⟨⟨by simp, below⟩, ?_⟩
      rintro name ⟨member, -⟩
      rcases List.mem_cons.mp member with rfl | later
      · exact le_refl _
      · exact (above name later).le
    · -- This child is not below the own name, so the others decide.
      rw [if_neg (fun negative => below ((strcmp_neg_iff child zkNodeId).mp negative))]
      have precedes := ih descends
      cases found : prevChild zkNodeId rest with
      | none =>
        rw [found] at precedes
        intro name member
        rcases List.mem_cons.mp member with rfl | later
        · exact not_lt.mp below
        · exact precedes name later
      | some prev =>
        rw [found] at precedes
        obtain ⟨⟨member, lower⟩, greatest⟩ := precedes
        refine ⟨⟨List.mem_cons_of_mem _ member, lower⟩, ?_⟩
        rintro name ⟨member, lower⟩
        rcases List.mem_cons.mp member with rfl | later
        · exact absurd lower below
        · exact greatest ⟨later, lower⟩

variable {ρ σ : Type}

/-- Each child's path fits, `zoo_get` finds its data, and `rtable_connect` connects to it. -/
def Reaches (registry : Registry ρ) (rootPath : Key) (connection : Key → ρ) (children : List Key) :
    Prop :=
  ∀ child ∈ children, ∃ metadata,
    childMetadata registry rootPath child [] = .ok (some metadata, []) ∧
      connectTo registry metadata [] = .ok (connection child, [])

section Selection

variable {registry : Registry ρ} {rootPath : Key} {connection : Key → ρ} {names children : List Key}

/-- `select_next_server` connects to the successor, and to nobody from the greatest server. -/
theorem selectNextServer_spec (reaches : Reaches registry rootPath connection names)
    (distinct : names.Nodup) (same : children.Perm names) (own : Key) (previous : Option ρ) :
    ∃ next, Succeeds names own next ∧
      selectNextServer registry rootPath own children previous [] =
        .ok ((next.map connection, previous.toList), []) := by
  -- The children are sorted first, and the loop breaks at the successor.
  have sorted := sortedChildren_perm children
  have succeeds := nextChild_succeeds own (sortedChildren_ascend (same.nodup_iff.mpr distinct))
  refine ⟨_, succeeds.of_perm (sorted.trans same), ?_⟩
  unfold selectNextServer
  rw [bubbleSort_sorts, pure_bind]
  cases found : nextChild own (sortedChildren children) with
  | none => rfl
  | some child =>
    rw [found] at succeeds
    -- The successor is one of the children, so its data is found and it is reached.
    have member : child ∈ names := (sorted.trans same).mem_iff.mp succeeds.1.1
    obtain ⟨metadata, got, connected⟩ := reaches child member
    simp only [Option.map_some]
    rw [run_bind got, Option.getD_some, run_bind connected]
    rfl

/-- `select_prev_server` connects to the predecessor, and to nobody at the least server. -/
theorem connectPrevServer_spec (reaches : Reaches registry rootPath connection names)
    (distinct : names.Nodup) (same : children.Perm names) (own : Key) :
    ∃ prev, Precedes names own prev ∧
      connectPrevServer registry rootPath own children [] = .ok (prev.map connection, []) := by
  -- The children are sorted first, and are walked from the last one on.
  have sorted := sortedChildren_perm children
  have descends : (sortedChildren children).reverse.Pairwise (· > ·) :=
    List.pairwise_reverse.mpr (sortedChildren_ascend (same.nodup_iff.mpr distinct))
  have precedes := prevChild_precedes own descends
  have whole := (List.reverse_perm _).trans (sorted.trans same)
  refine ⟨_, precedes.of_perm whole, ?_⟩
  unfold connectPrevServer
  rw [bubbleSort_sorts, pure_bind]
  cases found : prevChild own (sortedChildren children).reverse with
  | some child =>
    rw [found] at precedes
    obtain ⟨metadata, got, connected⟩ := reaches child (whole.mem_iff.mp precedes.1.1)
    simp only [Option.map_some]
    rw [run_bind got]
    dsimp only
    rw [run_bind connected]
    rfl
  | none =>
    -- The least server connects to itself only.
    simp only [Option.map_none]
    cases first : sortedChildren children with
    | nil => rfl
    | cons child rest =>
      dsimp only
      split
      · have member : child ∈ names :=
          (sorted.trans same).mem_iff.mp (by rw [first]; exact List.mem_cons_self)
        obtain ⟨metadata, got, connected⟩ := reaches child member
        rw [run_bind got]
        dsimp only
        rw [run_bind connected]
        rfl
      · rfl

/-- The client asks for the first and for the last of the sorted children. -/
theorem headAndTail_spec (nonempty : children ≠ []) :
    ∃ head ∈ (sortedChildren children).head?, ∃ tail ∈ (sortedChildren children).getLast?,
      headAndTail children [] = .ok (some (head, tail), []) := by
  -- There is a child, so that the sorted array has a first and a last position.
  have length := (sortedChildren_perm children).length_eq
  have positive := List.length_pos_iff.mpr nonempty
  have inside : (sortedChildren children).length - 1 < (sortedChildren children).length := by omega
  refine ⟨(sortedChildren children)[0], ?_,
    (sortedChildren children)[(sortedChildren children).length - 1], ?_, ?_⟩
  · exact List.head?_eq_getElem? ▸ List.getElem?_eq_getElem (by omega)
  · exact List.getLast?_eq_getElem? ▸ List.getElem?_eq_getElem inside
  · unfold headAndTail
    rw [bubbleSort_sorts, pure_bind, List.getElem?_eq_getElem (by omega),
      List.getElem?_eq_getElem inside]
    rfl

/--
All servers and the client read the same chain from the children, in whatever order they get them.

Each server connects to its successor and merges from its predecessor, one the inverse of the other.
-/
theorem servers_form_one_chain (distinct : names.Nodup) (nonempty : names ≠ [])
    (reaches : Reaches registry rootPath connection names) :
    (∀ own ∈ names, ∀ children, children.Perm names →
      (∀ previous, ∃ next, Succeeds names own next ∧
        selectNextServer registry rootPath own children previous [] =
          .ok ((next.map connection, previous.toList), [])) ∧
      ∃ prev, Precedes names own prev ∧ ∀ (transport : ρ → SendReceive σ) table state,
        selectPrevServer registry transport rootPath own children table state [] =
          match prev with
          | none => .ok ((table, state), [])
          | some prev => mergeTable (transport (connection prev)) table state []) ∧
    (∀ own ∈ names, ∀ other ∈ names,
      Succeeds names own (some other) ↔ Precedes names other (some own)) ∧
    ∀ children, children.Perm names → ∃ (path : List Key) (head tail : Key),
      path.Perm names ∧ headAndTail children [] = .ok (some (head, tail), []) ∧
      path.head? = some head ∧
      path.IsChain (fun own next => Succeeds names own (some next)) ∧
      path.getLast? = some tail ∧ Succeeds names tail none := by
  -- What each process selects is settled one by one by the lemmas above.
  refine ⟨fun own member children same => ⟨selectNextServer_spec reaches distinct same own, ?_⟩,
    fun own ownMember other otherMember => succeeds_iff_precedes ownMember otherMember,
    fun children same => ?_⟩
  · obtain ⟨prev, precedes, connected⟩ := connectPrevServer_spec reaches distinct same own
    refine ⟨prev, precedes, fun transport table state => ?_⟩
    unfold selectPrevServer
    rw [runOver_bind (runOver_lift connected)]
    cases prev <;> rfl
  · -- The path is the list of children once it is sorted.
    have whole := (sortedChildren_perm children).trans same
    have ascends := sortedChildren_ascend (same.nodup_iff.mpr distinct)
    have filled : children ≠ [] := by
      rintro rfl
      exact nonempty same.nil_eq.symm
    obtain ⟨head, first, tail, last, asked⟩ := headAndTail_spec filled
    exact ⟨sortedChildren children, head, tail, whole, asked, first,
      (isChain_succeeds ascends).imp fun own next succeeds => succeeds.of_perm whole, last,
      (succeeds_getLast ascends last).of_perm whole⟩

end Selection

/-- Three servers whose names are given out of order, and whose data in ZooKeeper is their path. -/
theorem servers_form_one_chain_three :
    let names : List Key := [⟨[50], by decide⟩, ⟨[51], by decide⟩, ⟨[49], by decide⟩]
    ∃ (path : List Key) (head tail : Key), path.Perm names ∧
      headAndTail names [] = .ok (some (head, tail), []) ∧ path.head? = some head ∧
      path.IsChain (fun own next => Succeeds names own (some next)) ∧
      path.getLast? = some tail ∧ Succeeds names tail none := by
  intro names
  let rootPath : Key := ⟨[47, 99], by decide⟩
  let zooGet : Key → List UInt8 → Int → Option (List UInt8 × Int) := fun path buffer _ =>
    some (path.bytes ++ 0 :: buffer.drop (path.bytes.length + 1), path.bytes.length + 1)
  let connection : Key → Key := fun name =>
    ⟨rootPath.bytes ++ 47 :: name.bytes, by simp [rootPath.nulFree, name.nulFree]⟩
  have reaches :
      ∀ fresh length, Reaches ⟨zooGet, some, fresh, length⟩ rootPath connection names := by
    intro fresh length child member
    have fits : (rootPath.bytes ++ 47 :: child.bytes).length < 120 :=
      (by decide : ∀ child ∈ names, (rootPath.bytes ++ 47 :: child.bytes).length < 120) child member
    refine ⟨(connection child).bytes ++ 0 :: fresh.drop ((connection child).bytes.length + 1),
      ?_, ?_⟩
    · unfold childMetadata nodePath
      rw [run_bind mallocUnchecked_nil, if_pos fits]
      rfl
    · unfold connectTo
      rw [cString_terminated]
      rfl
  exact (servers_form_one_chain (ρ := Key) (σ := Unit) (by decide) (by decide)
    (reaches (List.replicate zDataLen 0) List.length_replicate)).2.2 names (.refl _)

end ChainTable
