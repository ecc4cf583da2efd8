import ChainTable.Local.EntryList
import ChainTable.Pointers.Entry

/-! Lists of nodes behind pointers: their functions, and the values that they keep. -/

namespace ChainTable.Lifetime

/-- One round of the loop of `valid_list`: the next node, or the answer. -/
def validNodesRound (current : Option Nat) : Pointed (Option Nat ⊕ Int) := do
  match current with
  | none => return .inr 0
  | some current =>
    let held ← nodes.read current
    if (← onMemory (entryValid held.entry)) = -1 then return .inr (-1)
    return .inl held.next

/-- The loop of `valid_list` over the nodes. -/
def validNodes (current : Option Nat) : Pointed Int := repeatM validNodesRound current

/-- `valid_list`. -/
def validList : Option Nat → Pointed Int
  | none => return -1
  | some list => do
    let held ← lists.read list
    if held.head.isSome && held.size < 0 then return -1
    validNodes held.head

/-- `list_create`. -/
def listCreate : Pointed (Option Nat) := do
  match ← lists.malloc ⟨0, none⟩ with
  | none => return none
  | some list =>
    lists.write list ⟨0, none⟩
    return some list

/-- One round of the loop of `list_destroy`: the next node, or whether all were destroyed. -/
def listDestroyRound (current : Option Nat) : Pointed (Option Nat ⊕ Bool) := do
  match current with
  | none => return .inr true
  | some current =>
    let held ← nodes.read current
    if (← onMemory (entryDestroy held.entry)) = -1 then return .inr false
    nodes.free current
    return .inl held.next

/-- The loop of `list_destroy` over the nodes: whether all of them were destroyed. -/
def listDestroyLoop (current : Option Nat) : Pointed Bool := repeatM listDestroyRound current

/-- `list_destroy`. -/
def listDestroy : Option Nat → Pointed Int
  | none => return -1
  | some list => do
    let held ← lists.read list
    if !(← listDestroyLoop held.head) then return -1
    lists.free list
    return 0

/-- Put another node behind the previous one, or at the head when there is none. -/
def relink (list : Nat) (previous target : Option Nat) : Pointed Unit := do
  match previous with
  | none =>
    let held ← lists.read list
    lists.write list { held with head := target }
  | some previous =>
    let held ← nodes.read previous
    nodes.write previous { held with next := target }

/-- `list->size += change`. -/
def resize (list : Nat) (change : Int) : Pointed Unit := do
  let held ← lists.read list
  lists.write list { held with size := held.size + change }

/-- One round of the loop of `list_add`: the next node with the one before it, or the answer. -/
def listAddRound (list entry : Nat) :
    Option Nat × Option Nat → Pointed (Option Nat × Option Nat ⊕ Int)
  | (none, _) => return .inr (-1)
  | (some current, previous) => do
    let held ← nodes.read current
    let compare ← entryCompare (some entry) held.entry
    if compare = -1 then
      match ← nodes.malloc ⟨none, none⟩ with
      | none => return .inr (-1)
      | some newNode =>
        nodes.write newNode ⟨some entry, some current⟩
        relink list previous (some newNode)
        resize list 1
        return .inr 0
    else if compare = 0 then
      let _ ← onMemory (entryDestroy held.entry)
      nodes.write current { held with entry := some entry }
      return .inr 1
    else if held.next.isNone then
      match ← nodes.malloc ⟨none, none⟩ with
      | none => return .inr (-1)
      | some newNode =>
        nodes.write newNode ⟨some entry, none⟩
        nodes.write current { held with next := some newNode }
        resize list 1
        return .inr 0
    else return .inl (held.next, some current)

/-- The loop of `list_add` over the nodes of a list. -/
def listAddLoop (list entry : Nat) (current previous : Option Nat) : Pointed Int :=
  repeatM (listAddRound list entry) (current, previous)

/-- `list_add`. -/
def listAdd (list : Option Nat) (entry : Nat) : Pointed Int := do
  if (← validList list) = -1 then return -1
  if (← onMemory (entryValid (some entry))) = -1 then return -1
  match list with
  | none => failure
  | some list =>
    let held ← lists.read list
    if held.size = 0 then
      let newNode ← nodes.malloc ⟨none, none⟩
      -- The head is assigned before the allocation is checked.
      lists.write list { held with head := newNode }
      match newNode with
      | none => return -1
      | some newNode =>
        nodes.write newNode ⟨some entry, none⟩
        lists.write list ⟨1, some newNode⟩
        return 0
    else if held.size = 1 then
      match held.head with
      | none => failure
      | some head =>
        let first ← nodes.read head
        let compare ← entryCompare first.entry (some entry)
        if compare = 1 then
          match ← nodes.malloc ⟨none, none⟩ with
          | none => return -1
          | some newNode =>
            nodes.write newNode ⟨some entry, some head⟩
            lists.write list ⟨2, some newNode⟩
            return 0
        else if compare = 0 then
          let new ← entries.read entry
          if (← onMemory (entryReplace first.entry new.key new.value)) = -1 then return -1
          entries.free entry
          return 1
        else if compare = -1 then
          match ← nodes.malloc ⟨none, none⟩ with
          | none => return -1
          | some newNode =>
            nodes.write newNode ⟨some entry, none⟩
            nodes.write head { first with next := some newNode }
            lists.write list { held with size := 2 }
            return 0
        else listAddLoop list entry held.head none
    else listAddLoop list entry held.head none

/-- `strcmp` of a key with the key of an entry. -/
def compareKey (key : Pointer) : Option Nat → Pointed Int
  | none => failure
  | some entry => do
    let held ← entries.read entry
    match held.key with
    | none => failure
    | some heldKey => return strcmpBytes (← readString key) (← readString heldKey)

/-- One round of the loop of `list_remove`: the next node with the one before it, or the answer. -/
def listRemoveRound (list : Nat) (key : Pointer) :
    Option Nat × Option Nat → Pointed (Option Nat × Option Nat ⊕ Int)
  | (none, _) => return .inr 1
  | (some current, previous) => do
    let held ← nodes.read current
    if (← compareKey key held.entry) = 0 then
      relink list previous held.next
      let _ ← onMemory (entryDestroy held.entry)
      nodes.free current
      resize list (-1)
      return .inr 0
    else return .inl (held.next, some current)

/-- The loop of `list_remove` over the nodes of a list. -/
def listRemoveLoop (list : Nat) (key : Pointer) (current previous : Option Nat) : Pointed Int :=
  repeatM (listRemoveRound list key) (current, previous)

/-- `list_remove`. -/
def listRemove (list : Option Nat) (key : Option Pointer) : Pointed Int := do
  if (← validList list) = -1 then return -1
  match list, key with
  | _, none => return -1
  | none, some _ => failure
  | some list, some key =>
    let held ← lists.read list
    if held.size = 0 then return 1
    listRemoveLoop list key held.head none

/-- One round of the loop of `list_get`: the next node, or the answer. -/
def listGetRound (key : Pointer) : Option Nat → Pointed (Option Nat ⊕ Option Nat)
  | none => return .inr none
  | some current => do
    let held ← nodes.read current
    if (← compareKey key held.entry) = 0 then return .inr held.entry
    else return .inl held.next

/-- The loop of `list_get` over the nodes of a list. -/
def listGetLoop (key : Pointer) (current : Option Nat) : Pointed (Option Nat) :=
  repeatM (listGetRound key) current

/-- `list_get`: the entry itself, which stays in the list. -/
def listGet (list : Option Nat) (key : Option Pointer) : Pointed (Option Nat) := do
  if (← validList list) = -1 then return none
  match list, key with
  | _, none => return none
  | none, some _ => failure
  | some list, some key =>
    let held ← lists.read list
    if held.size = 0 then return none
    listGetLoop key held.head

/-- A node with its entry. -/
def nodeAt (node : Nat) (held : Entry) (next : Option Nat) : Assertion Address Object :=
  .any fun entry => nodes.holds node ⟨some entry, next⟩ * entryAt entry held

/-- Nodes with their entries, from one link to another. -/
def nodesAt : Option Nat → List Entry → Option Nat → Assertion Address Object :=
  .segment nodeAt

/-- A list has a structure and its nodes. -/
def listAt (list : Nat) (held : EntryList) : Assertion Address Object :=
  .any fun head => lists.holds list ⟨held.size, head⟩ * nodesAt head held.head none

/--
A list up to a node: its structure, and the nodes in front of that one.

The last of them is the previous node, if there is one.
-/
def frontAt (list : Nat) (size : Int) : Option Nat → List Entry → Option Nat →
    Assertion Address Object
  | none, front, current => .given (front = []) (lists.holds list ⟨size, current⟩)
  | some previous, front, current =>
    .any fun head => .any fun earlier => .any fun last => .given (front = earlier ++ [last])
      (lists.holds list ⟨size, head⟩ *
        (nodesAt head earlier (some previous) * nodeAt previous last current))

/-- After `list_add`: the list, and the entry where it did not become a part of the list. -/
def added (list entry : Nat) (new : Entry) (result : Int) (value : Int × EntryList) :
    Assertion Address Object :=
  .given (result = value.1)
    (listAt list value.2 * if value.1 = -1 then entryAt entry new else 1)

/-- After `list_remove`: the list, and the string that was looked for. -/
def removed (list keyBlock : Nat) (key : Key) (result : Int) (value : Int × EntryList) :
    Assertion Address Object :=
  .given (result = value.1) (listAt list value.2 * stringAt keyBlock key)

/-- What was found is a part of some whole, and the rest completes it. -/
def foundIn (whole : Assertion Address Object) :
    Option Nat → Option Entry → Assertion Address Object
  | none, none => whole
  | some entry, some held => .any fun rest =>
      .given (entryAt entry held * rest ≤ whole) (entryAt entry held * rest)
  | _, _ => .given False 1

/-- The parts of a node are a node. -/
theorem le_nodeAt (node entry : Nat) (held : Entry) (next : Option Nat) :
    nodes.holds node ⟨some entry, next⟩ * entryAt entry held ≤ nodeAt node held next :=
  fun _ parts => ⟨entry, parts⟩

section Front

variable {list : Nat} {size : Int} {previous current : Option Nat} {front : List Entry}

/-- A node behind the front of a list joins the front. -/
theorem frontAt_advance (name : Nat) (held : Entry) (next : Option Nat) :
    frontAt list size previous front (some name) * nodeAt name held next ≤
      frontAt list size (some name) (front ++ [held]) next := by
  cases previous with
  | none =>
    simp only [frontAt, Assertion.given, Assertion.any_mul]
    refine Assertion.any_le fun none => ?_
    subst none
    -- The node is the first one, so that nothing is in front of it.
    have started := mul_le_mul_right (mul_le_mul_left
      (Assertion.le_segment_nil nodeAt (some name)) (nodeAt name held next))
      (lists.holds list ⟨size, some name⟩)
    rw [one_mul] at started
    exact started.trans fun _ parts => ⟨some name, [], held, rfl, parts⟩
  | some previous =>
    simp only [frontAt, Assertion.given, Assertion.any_mul]
    refine Assertion.any_le fun head => Assertion.any_le fun earlier => Assertion.any_le fun last =>
      Assertion.any_le fun same => ?_
    subst same
    -- The previous node is one of the earlier ones from now on.
    have moved := mul_le_mul_right (mul_le_mul_left
      (Assertion.segment_concat_le nodeAt head earlier previous last (some name))
      (nodeAt name held next)) (lists.holds list ⟨size, head⟩)
    rw [← mul_assoc] at moved
    exact moved.trans fun _ parts => ⟨head, earlier ++ [last], held, rfl, parts⟩

/-- The front of a list and the nodes behind it are the list. -/
theorem frontAt_mul_le (back : List Entry) :
    frontAt list size previous front current * nodesAt current back none ≤
      listAt list ⟨size, front ++ back⟩ := by
  -- Without a previous node the list starts here, and otherwise the segments are joined.
  cases previous with
  | none =>
    simp only [frontAt, Assertion.given, Assertion.any_mul]
    refine Assertion.any_le fun none => ?_
    subst none
    exact fun _ parts => ⟨current, parts⟩
  | some previous =>
    simp only [frontAt, Assertion.given, Assertion.any_mul]
    refine Assertion.any_le fun head => Assertion.any_le fun earlier => Assertion.any_le fun last =>
      Assertion.any_le fun same => ?_
    subst same
    have joined := mul_le_mul_right ((mul_le_mul_left
      (Assertion.segment_concat_le nodeAt head earlier previous last current)
      (nodesAt current back none)).trans (Assertion.segment_mul_le nodeAt head current none _ back))
      (lists.holds list ⟨size, head⟩)
    rw [← mul_assoc] at joined
    exact joined.trans fun _ parts => ⟨head, parts⟩

end Front

section Rules

variable {α β : Type} {others : Assertion Address Object} {model : C β}
  {after : α → β → Assertion Address Object} {list : Nat} {size : Int}
  {previous current : Option Nat} {front : List Entry} {next : Unit → Pointed α}

/-- Relinking puts another node behind the front of a list. -/
theorem relink_next (target : Option Nat)
    (rest : Follows objects (frontAt list size previous front target * others) (next ()) model
      after) :
    Follows objects (frontAt list size previous front current * others)
      (relink list previous target >>= next) model after := by
  cases previous with
  -- The first node is pointed at by the structure.
  | none =>
    refine .assume fun none => ?_
    simp only [relink, bind_assoc]
    refine Kind.read_next (Kind.write_next ?_)
    exact rest.strengthen (mul_le_mul_left (Assertion.le_given _ none) _)
  -- Any other node is pointed at by the one in front of it.
  | some previous =>
    refine .choose fun head => .choose fun earlier => .choose fun last => .assume fun same => ?_
    refine .permute (nodeAt previous last current * (lists.holds list _ *
      (nodesAt head earlier (some previous) * others))) (by ac_rfl) ?_
    refine .choose fun entry => ?_
    simp only [relink, bind_assoc]
    rw [mul_assoc]
    refine Kind.read_next (Kind.write_next (rest.strengthen ?_))
    -- The previous node has its entry still, and another link.
    have put : lists.holds list ⟨size, head⟩ * (nodesAt head earlier (some previous) *
        (nodes.holds previous ⟨some entry, target⟩ * entryAt entry last)) ≤
        frontAt list size (some previous) front target :=
      (mul_le_mul_right (mul_le_mul_right (le_nodeAt previous entry last target) _) _).trans
        fun _ parts => ⟨head, earlier, last, same, parts⟩
    refine le_trans (le_of_eq ?_) (mul_le_mul_left put others)
    ac_rfl

/-- A list is given another size, whatever it has in front. -/
theorem resize_next (change : Int)
    (rest : Follows objects (frontAt list (size + change) previous front current * others)
      (next ()) model after) :
    Follows objects (frontAt list size previous front current * others)
      (resize list change >>= next) model after := by
  -- Without a previous node the structure is at hand, and otherwise it is within the front.
  simp only [resize, bind_assoc]
  cases previous with
  | none =>
    refine .assume fun none => Kind.read_next (Kind.write_next ?_)
    exact rest.strengthen (mul_le_mul_left (Assertion.le_given _ none) _)
  | some previous =>
    refine .choose fun head => .choose fun earlier => .choose fun last => .assume fun same => ?_
    rw [mul_assoc]
    refine Kind.read_next (Kind.write_next (rest.strengthen ?_))
    rw [← mul_assoc]
    exact mul_le_mul_left (fun _ parts => ⟨head, earlier, last, same, parts⟩) others

/-- Nodes with valid entries pass the check, as they do in the model. -/
theorem validNodes_next {current : Option Nat} {held : List Entry} {next : Int → Pointed α}
    (rest : ChainTable.validNodes held = 0 →
      Follows objects (nodesAt current held none * others) (next 0) model after) :
    Follows objects (nodesAt current held none * others) (validNodes current >>= next) model
      after := by
  -- The walk goes along the links, with the nodes that it has passed next to the others.
  induction held generalizing current others with
  -- A walk that has reached the end answers zero.
  | nil =>
    refine .assume fun same => ?_
    subst same
    rw [validNodes, repeatM_round]
    simp only [validNodesRound, pure_bind]
    exact (rest rfl).strengthen (mul_le_mul_left (Assertion.le_segment_nil nodeAt _) _)
  -- A walk at a node looks at its entry, which is valid, and goes on along its link.
  | cons first back ih =>
    refine .choose fun name => .choose fun link => .assume fun same => ?_
    subst same
    rw [validNodes, repeatM_round, mul_assoc]
    refine .choose fun entry => ?_
    simp only [validNodesRound, bind_assoc]
    rw [mul_assoc]
    refine Kind.read_next (.permute (entryAt entry first * (nodes.holds name _ *
      (nodesAt link back none * others))) (mul_left_comm _ _ _)
      (entryValid_next (valid_of_entryAt fun valid => ?_)))
    rw [if_neg (by decide), pure_bind]
    refine .permute (nodesAt link back none * (nodes.holds name _ * entryAt entry first * others))
      (by unfold nodesAt; ac_rfl) (ih fun validBack => ?_)
    refine (rest ?_).strengthen ?_
    · rw [ChainTable.validNodes, if_neg valid, validBack]
    · have linked := mul_le_mul_left ((mul_le_mul_left (le_nodeAt name entry first link)
        (nodesAt link back none)).trans
          (Assertion.le_segment_cons nodeAt name link first back none)) others
      refine le_trans (le_of_eq ?_) linked
      ac_rfl

/-- A list has a first node exactly if it has nodes. -/
theorem headed {current : Option Nat} {held : List Entry} {program : Pointed α}
    (each : current.isSome = !held.isEmpty →
      Follows objects (nodesAt current held none * others) program model after) :
    Follows objects (nodesAt current held none * others) program model after := by
  -- An empty segment ends where it starts, and any other starts at a node.
  cases held with
  | nil =>
    refine .assume fun same => (each ?_).strengthen
      (mul_le_mul_left (Assertion.le_given _ same) others)
    rw [same]
    rfl
  | cons first back =>
    refine .choose fun name => .choose fun link => .assume fun same => (each ?_).strengthen
      (mul_le_mul_left (fun _ parts => ⟨name, link, same, parts⟩) others)
    rw [same]
    rfl

/-- The check of a list answers what it answers in the model. -/
theorem validList_next {held : EntryList} {next : Int → Pointed α}
    (rest : Follows objects (listAt list held * others)
      (next (ChainTable.validList (some held))) model after) :
    Follows objects (listAt list held * others) (validList (some list) >>= next) model after := by
  refine .choose fun head => ?_
  simp only [validList, bind_assoc]
  rw [mul_assoc]
  refine Kind.read_next (.permute (nodesAt head held.head none * (lists.holds list _ * others))
    (mul_left_comm _ _ _) ?_)
  -- There is a head exactly if there are nodes.
  refine headed fun same => ?_
  have folded : nodesAt head held.head none * (lists.holds list ⟨held.size, head⟩ * others) ≤
      listAt list held * others := by
    rw [mul_left_comm, ← mul_assoc]
    exact mul_le_mul_left (fun _ parts => ⟨head, parts⟩) others
  rw [ChainTable.validList] at rest
  by_cases negative : (!held.head.isEmpty && decide (held.size < 0)) = true
  · rw [same, if_pos negative, pure_bind]
    rw [if_pos negative] at rest
    exact rest.strengthen folded
  · rw [same, if_neg negative]
    rw [if_neg negative] at rest
    refine validNodes_next fun valid => ?_
    rw [valid] at rest
    exact rest.strengthen folded

end Rules

section Lists

variable {list : Nat}

/-- Where nothing was added, the list and the entry are what they were. -/
theorem le_added_kept {entry : Nat} {new : Entry} {size : Int} (current previous : Option Nat)
    {front back : List Entry} :
    frontAt list size previous front current * (nodesAt current back none * entryAt entry new) ≤
      added list entry new (-1) (-1, ⟨size, front ++ back⟩) := by
  -- The front and the back make the list again, and the entry is beside it.
  rw [← mul_assoc]
  exact (mul_le_mul_left (frontAt_mul_le back) _).trans (Assertion.le_given _ rfl)

/-- Where the entry was added, it is a part of the list. -/
theorem le_added_done {entry : Nat} {new : Entry} {result size : Int}
    (current previous : Option Nat) {front back : List Entry} (done : ¬ result = -1) :
    frontAt list size previous front current * nodesAt current back none ≤
      added list entry new result (result, ⟨size, front ++ back⟩) := by
  -- The entry is one of the nodes already, so that nothing is left beside the list.
  refine (frontAt_mul_le back).trans (le_trans ?_ (Assertion.le_given _ rfl))
  rw [if_neg done, mul_one]

/-- A node in front of others. -/
theorem le_nodesAt_cons (name entry : Nat) (held : Entry) (link : Option Nat) (back : List Entry) :
    nodes.holds name ⟨some entry, link⟩ * (entryAt entry held * nodesAt link back none) ≤
      nodesAt (some name) (held :: back) none := by
  -- The node takes its entry, and becomes the first of the segment.
  rw [← mul_assoc]
  exact (mul_le_mul_left (le_nodeAt name entry held link) _).trans
    (Assertion.le_segment_cons nodeAt name link held back none)

/-- A last node. -/
theorem le_nodesAt_last (name entry : Nat) (held : Entry) :
    nodes.holds name ⟨some entry, none⟩ * entryAt entry held ≤ nodesAt (some name) [held] none := by
  -- There is nothing behind it, which is a segment of no nodes.
  refine le_trans ?_ (le_nodesAt_cons name entry held none [])
  exact mul_le_mul_right ((mul_one _).ge.trans
    (mul_le_mul_right (Assertion.le_segment_nil nodeAt none) _)) _

/-- The loop of `list_add` does what it does with values. -/
theorem listAddLoop_follows (entry : Nat) (new : Entry) (size : Int) (current previous : Option Nat)
    (front back : List Entry) :
    Follows objects
      (frontAt list size previous front current * (nodesAt current back none * entryAt entry new))
      (listAddLoop list entry current previous)
      (ChainTable.listAddLoop ⟨size, front ++ back⟩ new front back) (added list entry new) := by
  -- The node that is looked at joins the front when the loop goes on.
  induction back generalizing current previous front with
  -- A loop that has reached the end has added nothing.
  | nil =>
    refine .permute (nodesAt current [] none *
      (frontAt list size previous front current * entryAt entry new)) (mul_left_comm _ _ _) ?_
    refine .assume fun same => ?_
    subst same
    rw [listAddLoop, repeatM_round, ChainTable.listAddLoop]
    simp only [listAddRound, pure_bind]
    refine .done (le_trans ?_ (le_added_kept none previous))
    rw [mul_left_comm]
    exact mul_le_mul_right (mul_le_mul_left (Assertion.le_segment_nil nodeAt none) _) _
  | cons first back ih =>
    refine .permute (nodesAt current (first :: back) none *
      (frontAt list size previous front current * entryAt entry new)) (mul_left_comm _ _ _) ?_
    refine .choose fun name => .choose fun link => .assume fun same => ?_
    subst same
    rw [listAddLoop, repeatM_round, mul_assoc]
    refine .choose fun held => ?_
    simp only [listAddRound, bind_assoc]
    rw [mul_assoc]
    refine Kind.read_next ?_
    refine .permute (entryAt entry new * (entryAt held first * (nodes.holds name _ *
      (nodesAt link back none * frontAt list size previous front (some name)))))
      (by unfold nodesAt; ac_rfl) (entryCompare_next ?_)
    rw [ChainTable.listAddLoop]
    dsimp only
    -- An entry that sorts before this one goes into a new node in front of it.
    by_cases before : ChainTable.entryCompare (some new) (some first) = -1
    · rw [if_pos before, if_pos before, bind_assoc]
      refine Kind.malloc_next ?_ fun newNode => ?_
      · rw [pure_bind]
        refine .done (le_trans (le_of_eq ?_) ((mul_le_mul_right (mul_le_mul_left
          (le_nodesAt_cons name held first link back) _) _).trans
            (le_added_kept (some name) previous)))
        ac_rfl
      · simp only [bind_assoc, pure_bind]
        refine Kind.write_next ?_
        refine .permute (frontAt list size previous front (some name) * (nodes.holds newNode _ *
          (entryAt entry new * (nodes.holds name _ * (entryAt held first *
            nodesAt link back none))))) (by ac_rfl)
          (relink_next _ (resize_next 1 (.done (le_trans ?_
            (le_added_done (some newNode) previous (by decide))))))
        exact mul_le_mul_right ((mul_le_mul_right (mul_le_mul_right
          (le_nodesAt_cons name held first link back) _) _).trans
          (le_nodesAt_cons newNode entry new (some name) (first :: back))) _
    · rw [if_neg before, if_neg before]
      -- An entry with this key takes the place of the one that is here.
      by_cases same : ChainTable.entryCompare (some new) (some first) = 0
      · rw [if_pos same, if_pos same]
        simp only [bind_assoc, pure_bind]
        refine .permute (entryAt held first * (nodes.holds name _ * (entryAt entry new *
          (nodesAt link back none * frontAt list size previous front (some name)))))
          (by ac_rfl) (entryDestroy_next (Kind.write_next (.done ?_)))
        refine le_trans (le_of_eq ?_) ((mul_le_mul_right (le_nodesAt_cons name entry new link back)
          (frontAt list size previous front (some name))).trans
          (le_added_done (some name) previous (by decide)))
        ac_rfl
      · rw [if_neg same, if_neg same]
        refine .permute (nodesAt link back none * (nodes.holds name _ * (entryAt held first *
          (entryAt entry new * frontAt list size previous front (some name))))) (by ac_rfl)
          (headed fun linked => ?_)
        have ends : link.isNone = back.isEmpty := by
          cases link <;> cases back <;> simp at linked ⊢
        rw [ends]
        -- Behind the last node a new one is linked, and behind any other the loop goes on.
        by_cases last : back.isEmpty = true
        · rw [if_pos last, if_pos last]
          obtain rfl := List.isEmpty_iff.mp last
          refine .assume fun none => ?_
          subst none
          rw [one_mul, bind_assoc]
          refine Kind.malloc_next ?_ fun newNode => ?_
          · rw [pure_bind]
            refine .done (le_trans (le_of_eq ?_) ((mul_le_mul_right (mul_le_mul_left
              (le_nodesAt_last name held first) _) _).trans (le_added_kept (some name) previous)))
            ac_rfl
          · simp only [bind_assoc, pure_bind]
            refine Kind.write_next ?_
            refine .permute (nodes.holds name _ * (nodes.holds newNode _ * (entryAt held first *
              (entryAt entry new * frontAt list size previous front (some name))))) (by ac_rfl)
              (Kind.write_next ?_)
            refine .permute (frontAt list size previous front (some name) * (nodes.holds name _ *
              (entryAt held first * (nodes.holds newNode _ * entryAt entry new)))) (by ac_rfl)
              (resize_next 1 (.done (le_trans (mul_le_mul_right ?_ _)
                (le_added_done (some name) previous (by decide)))))
            have linked := mul_le_mul_right (mul_le_mul_right (le_nodesAt_last newNode entry new)
              (entryAt held first)) (nodes.holds name ⟨some held, some newNode⟩)
            exact linked.trans (le_nodesAt_cons name held first (some newNode) [new])
        · rw [if_neg last, if_neg last]
          have advanced := mul_le_mul_right (le_nodeAt name held first link)
            (frontAt list size previous front (some name)) |>.trans
              (frontAt_advance name first link)
          have rest := ih link (some name) (front ++ [first])
          rw [← List.append_cons] at rest
          refine rest.strengthen (le_trans (le_of_eq ?_) (mul_le_mul_left advanced _))
          ac_rfl

/-- The structure and the nodes of a list are the list. -/
theorem le_listAt (list : Nat) (head : Option Nat) (size : Int) (values : List Entry) :
    lists.holds list ⟨size, head⟩ * nodesAt head values none ≤ listAt list ⟨size, values⟩ :=
  fun _ parts => ⟨head, parts⟩

/-- Where the entry was added, the list is the structure and its nodes. -/
theorem le_added {entry : Nat} {new : Entry} (head : Option Nat) {result size : Int}
    {values : List Entry} (done : ¬ result = -1) :
    lists.holds list ⟨size, head⟩ * nodesAt head values none ≤
      added list entry new result (result, ⟨size, values⟩) := by
  -- The structure points at the first node, and nothing is left beside the list.
  refine (le_listAt list head size values).trans (le_trans ?_ (Assertion.le_given _ rfl))
  rw [if_neg done, mul_one]

/-- A valid entry takes over whatever it is given. -/
theorem entryReplace_of_valid {held : Entry} (valid : ¬ ChainTable.entryValid (some held) = -1)
    (key : Key) (value : Data) :
    ChainTable.entryReplace (some held) (some key) (some value) =
      (0, some ⟨some key, some value⟩) := by
  -- What is valid has valid data, which can be freed.
  have destroyed : ¬ ChainTable.dataDestroy held.value = -1 := by
    intro refused
    have invalid : ChainTable.dataValid held.value = -1 := by
      by_contra other
      rw [ChainTable.dataDestroy, if_neg other] at refused
      cases refused
    exact valid (by rw [ChainTable.entryValid, if_pos invalid, ite_self])
  simp only [ChainTable.entryReplace, if_neg valid, if_neg destroyed]

/-- `list_add` does what it does with values, for a list that has as many nodes as it says. -/
theorem listAdd_follows (entry : Nat) (new : Entry) {held : EntryList}
    (counted : held.size = held.head.length) :
    Follows objects (listAt list held * entryAt entry new) (listAdd (some list) entry)
      (ChainTable.listAdd held new) (added list entry new) := by
  unfold listAdd ChainTable.listAdd
  refine validList_next ?_
  by_cases invalid : ChainTable.validList (some held) = -1
  · rw [if_pos invalid, if_pos invalid]
    exact .done (Assertion.le_given _ rfl)
  rw [if_neg invalid, if_neg invalid]
  refine .permute (entryAt entry new * listAt list held) (mul_comm _ _)
    (entryValid_next (valid_of_entryAt fun valid => ?_))
  rw [if_neg (by decide), if_neg valid]
  refine .permute (listAt list held * entryAt entry new) (mul_comm _ _) ?_
  refine .choose fun head => ?_
  rw [mul_assoc]
  refine Kind.read_next ?_
  obtain ⟨size, values⟩ := held
  dsimp only at counted ⊢
  cases values with
  -- An empty list gets its first node.
  | nil =>
    obtain rfl : size = 0 := by simpa using counted
    rw [if_pos rfl, if_pos rfl]
    refine .permute (nodesAt head [] none * (lists.holds list _ * entryAt entry new))
      (mul_left_comm _ _ _) ?_
    refine .assume fun none => ?_
    subst none
    rw [one_mul]
    refine Kind.malloc_next ?_ fun newNode => ?_
    · refine Kind.write_next (.done (le_trans ?_ (Assertion.le_given _ rfl)))
      rw [if_pos rfl]
      refine mul_le_mul_left (le_trans ((mul_one _).ge.trans ?_) (le_listAt list none 0 [])) _
      exact mul_le_mul_right (Assertion.le_segment_nil nodeAt none) _
    · refine .permute (lists.holds list _ * (nodes.holds newNode _ * entryAt entry new))
        (mul_left_comm _ _ _) (Kind.write_next ?_)
      refine .permute (nodes.holds newNode _ * (lists.holds list _ * entryAt entry new))
        (mul_left_comm _ _ _) (Kind.write_next ?_)
      refine .permute (lists.holds list _ * (nodes.holds newNode _ * entryAt entry new))
        (mul_left_comm _ _ _) (Kind.write_next (.done ?_))
      exact (mul_le_mul_right (le_nodesAt_last newNode entry new) _).trans
        (le_added (some newNode) (by decide))
  | cons first back =>
    have filled : ¬ size = 0 := by simp at counted; omega
    rw [if_neg filled, if_neg filled]
    cases back with
    -- A list of one node is looked at before the loop, in three ways.
    | nil =>
      obtain rfl : size = 1 := by simpa using counted
      rw [if_pos rfl, if_pos rfl]
      refine .permute (nodesAt head [first] none * (lists.holds list _ * entryAt entry new))
        (mul_left_comm _ _ _) ?_
      refine .choose fun name => .choose fun link => .assume fun same => ?_
      subst same
      refine .permute (nodesAt link [] none * (nodeAt name first link * (lists.holds list _ *
        entryAt entry new))) (by unfold nodesAt; ac_rfl) (.assume fun none => ?_)
      subst none
      rw [one_mul]
      refine .choose fun heldEntry => ?_
      rw [mul_assoc]
      refine Kind.read_next (.permute (entryAt heldEntry first * (entryAt entry new *
        (nodes.holds name _ * lists.holds list _))) (by ac_rfl) (entryCompare_next ?_))
      dsimp only
      -- Without memory for a node, the list and the entry are put together again.
      have kept : entryAt heldEntry first * (entryAt entry new * (nodes.holds name
          ⟨some heldEntry, none⟩ * lists.holds list ⟨1, some name⟩)) ≤
          added list entry new (-1) (-1, ⟨1, [first]⟩) := by
        refine le_trans ?_ (Assertion.le_given _ rfl)
        refine le_trans (le_of_eq ?_) (mul_le_mul_left ((mul_le_mul_right
          (le_nodesAt_last name heldEntry first) _).trans (le_listAt list (some name) 1 [first])) _)
        rw [if_pos rfl]
        ac_rfl
      -- The new node comes in front of the one that is there.
      by_cases larger : ChainTable.entryCompare (some first) (some new) = 1
      · rw [if_pos larger, if_pos larger]
        refine Kind.malloc_next (.done kept) fun newNode => Kind.write_next ?_
        refine .permute (lists.holds list _ * (nodes.holds newNode _ * (entryAt entry new *
          (nodes.holds name _ * entryAt heldEntry first)))) (by ac_rfl)
          (Kind.write_next (.done (le_trans (mul_le_mul_right ?_ _)
            (le_added (some newNode) (by decide)))))
        exact (mul_le_mul_right (mul_le_mul_right (le_nodesAt_last name heldEntry first) _) _).trans
          (le_nodesAt_cons newNode entry new (some name) [first])
      rw [if_neg larger, if_neg larger]
      -- The entry that is there gets the key and the data, and the new structure is freed.
      by_cases same : ChainTable.entryCompare (some first) (some new) = 0
      · rw [if_pos same, if_pos same]
        refine valid_of_entryAt fun validFirst => ?_
        refine .permute (entryAt entry new * (entryAt heldEntry first *
          (nodes.holds name _ * lists.holds list _))) (mul_left_comm _ _ _) ?_
        refine .choose fun keyBlock => .choose fun data => .choose fun key => .choose fun value =>
          .assume fun parts => ?_
        subst parts
        rw [entryReplace_of_valid validFirst, mul_assoc]
        refine Kind.read_next (.permute (entryAt heldEntry first * (stringAt keyBlock key *
          (dataAt data value * (entries.holds entry _ * (nodes.holds name _ *
            lists.holds list _))))) (by ac_rfl) (entryReplace_next ?_))
        rw [if_neg (by decide)]
        refine .permute (entries.holds entry _ * (lists.holds list _ * (nodes.holds name _ *
          entryAt heldEntry ⟨some key, some value⟩))) (by ac_rfl) (Kind.free_next (.done ?_))
        exact (mul_le_mul_right (le_nodesAt_last name heldEntry _) _).trans
          (le_added (some name) (by decide))
      rw [if_neg same, if_neg same]
      -- The new node comes behind the one that is there.
      by_cases smaller : ChainTable.entryCompare (some first) (some new) = -1
      · rw [if_pos smaller, if_pos smaller]
        refine Kind.malloc_next (.done kept) fun newNode => Kind.write_next ?_
        refine .permute (nodes.holds name _ * (nodes.holds newNode _ * (entryAt heldEntry first *
          (entryAt entry new * lists.holds list _)))) (by ac_rfl) (Kind.write_next ?_)
        refine .permute (lists.holds list _ * (nodes.holds name _ * (entryAt heldEntry first *
          (nodes.holds newNode _ * entryAt entry new)))) (by ac_rfl)
          (Kind.write_next (.done (le_trans (mul_le_mul_right ?_ _)
            (le_added (some name) (by decide)))))
        exact (mul_le_mul_right (mul_le_mul_right (le_nodesAt_last newNode entry new) _) _).trans
          (le_nodesAt_cons name heldEntry first (some newNode) [new])
      · rw [if_neg smaller, if_neg smaller]
        refine (listAddLoop_follows entry new 1 (some name) none [] [first]).strengthen ?_
        refine le_trans (le_of_eq ?_) (mul_le_mul' (Assertion.le_given _ rfl)
          (mul_le_mul_left (le_nodesAt_last name heldEntry first) _))
        ac_rfl
    -- A longer list is walked from its first node, with nothing in front.
    | cons second back =>
      have several : ¬ size = 1 := by simp at counted; omega
      rw [if_neg several, if_neg several]
      refine (listAddLoop_follows entry new size head none []
        (first :: second :: back)).strengthen ?_
      exact mul_le_mul_left (Assertion.le_given _ rfl) _

/-- A key is compared with that of an entry. -/
theorem compareKey_next {α β : Type} {others : Assertion Address Object} {model : C β}
    {after : α → β → Assertion Address Object} {keyBlock entry : Nat} {key : Key} {held : Entry}
    {next : Int → Pointed α}
    (rest : ∀ heldKey, held.key = some heldKey →
      Follows objects (entryAt entry held * (stringAt keyBlock key * others))
        (next (strcmp key heldKey)) model after) :
    Follows objects (entryAt entry held * (stringAt keyBlock key * others))
      (compareKey ⟨keyBlock, 0⟩ (some entry) >>= next) model after := by
  -- The entry is opened to reach its key, both keys are read, and it is closed again.
  refine .choose fun heldBlock => .choose fun data => .choose fun heldKey => .choose fun value =>
    .assume fun same => ?_
  subst same
  simp only [compareKey, bind_assoc]
  rw [mul_assoc]
  refine Kind.read_next (.permute (stringAt keyBlock key * (stringAt heldBlock heldKey *
    (entries.holds entry _ * (dataAt data value * others)))) (by ac_rfl) ?_)
  simp only [bind_assoc]
  refine readString_next (.permute (stringAt heldBlock heldKey * (stringAt keyBlock key *
    (entries.holds entry _ * (dataAt data value * others)))) (by ac_rfl) (readString_next ?_))
  rw [pure_bind]
  refine (rest heldKey rfl).strengthen (le_trans (le_of_eq ?_)
    (mul_le_mul_left (le_entryAt heldBlock data) _))
  ac_rfl

/-- The loop of `list_remove` does what it does with values. -/
theorem listRemoveLoop_follows (keyBlock : Nat) (key : Key) (size : Int)
    (current previous : Option Nat) (front back : List Entry) :
    Follows objects
      (frontAt list size previous front current *
        (nodesAt current back none * stringAt keyBlock key))
      (listRemoveLoop list ⟨keyBlock, 0⟩ current previous)
      (ChainTable.listRemoveLoop ⟨size, front ++ back⟩ key front back)
      (removed list keyBlock key) := by
  -- As in `list_add`, the node that is looked at joins the front when the loop goes on.
  induction back generalizing current previous front with
  -- A loop that has reached the end has found nothing.
  | nil =>
    refine .permute (nodesAt current [] none *
      (frontAt list size previous front current * stringAt keyBlock key)) (mul_left_comm _ _ _) ?_
    refine .assume fun same => ?_
    subst same
    rw [listRemoveLoop, repeatM_round, ChainTable.listRemoveLoop]
    simp only [listRemoveRound, pure_bind]
    refine .done (le_trans ?_ (Assertion.le_given _ rfl))
    rw [mul_left_comm, ← mul_assoc]
    refine mul_le_mul_left (le_trans (mul_le_mul_right ?_ _) (frontAt_mul_le [])) _
    exact Assertion.le_segment_nil nodeAt none
  | cons first back ih =>
    refine .permute (nodesAt current (first :: back) none *
      (frontAt list size previous front current * stringAt keyBlock key)) (mul_left_comm _ _ _) ?_
    refine .choose fun name => .choose fun link => .assume fun same => ?_
    subst same
    rw [listRemoveLoop, repeatM_round, mul_assoc]
    refine .choose fun held => ?_
    simp only [listRemoveRound, bind_assoc]
    rw [mul_assoc]
    refine Kind.read_next ?_
    refine .permute (entryAt held first * (stringAt keyBlock key * (nodes.holds name _ *
      (nodesAt link back none * frontAt list size previous front (some name)))))
      (by unfold nodesAt; ac_rfl) (compareKey_next fun heldKey keyed => ?_)
    rw [ChainTable.listRemoveLoop, keyed]
    dsimp only
    -- The node with the key is unlinked and freed, and past any other the loop goes on.
    by_cases same : strcmp key heldKey = 0
    · rw [if_pos same, if_pos same]
      simp only [bind_assoc, pure_bind]
      refine .permute (frontAt list size previous front (some name) * (entryAt held first *
        (nodes.holds name _ * (nodesAt link back none * stringAt keyBlock key)))) (by ac_rfl)
        (relink_next link ?_)
      refine .permute (entryAt held first * (nodes.holds name _ *
        (frontAt list size previous front link * (nodesAt link back none *
          stringAt keyBlock key)))) (by ac_rfl) (entryDestroy_next (Kind.free_next ?_))
      refine resize_next (-1) (.done (le_trans ?_ (Assertion.le_given _ rfl)))
      rw [← mul_assoc]
      exact mul_le_mul_left (frontAt_mul_le back) _
    · rw [if_neg same, if_neg same]
      have advanced := mul_le_mul_right (le_nodeAt name held first link)
        (frontAt list size previous front (some name)) |>.trans (frontAt_advance name first link)
      have rest := ih link (some name) (front ++ [first])
      rw [← List.append_cons] at rest
      refine rest.strengthen (le_trans (le_of_eq ?_) (mul_le_mul_left advanced _))
      ac_rfl

/-- `list_remove` does what it does with values, and frees what it takes out. -/
theorem listRemove_follows (keyBlock : Nat) (key : Key) (held : EntryList) :
    Follows objects (listAt list held * stringAt keyBlock key)
      (listRemove (some list) (some ⟨keyBlock, 0⟩)) (ChainTable.listRemove held (some key))
      (removed list keyBlock key) := by
  -- The pointers are checked as the values are, branch by branch.
  unfold listRemove ChainTable.listRemove
  refine validList_next ?_
  by_cases invalid : ChainTable.validList (some held) = -1
  · rw [if_pos invalid, if_pos invalid]
    exact .done (Assertion.le_given _ rfl)
  rw [if_neg invalid, if_neg invalid]
  refine .choose fun head => ?_
  rw [mul_assoc]
  refine Kind.read_next ?_
  dsimp only
  -- In an empty list there is nothing to take out.
  by_cases empty : held.size = 0
  · rw [if_pos empty, if_pos empty]
    refine .done (le_trans ?_ (Assertion.le_given _ rfl))
    rw [← mul_assoc]
    exact mul_le_mul_left (le_listAt list head held.size held.head) _
  · rw [if_neg empty, if_neg empty]
    exact (listRemoveLoop_follows keyBlock key held.size head none [] held.head).strengthen
      (mul_le_mul_left (Assertion.le_given _ rfl) _)

/-- What is found in a part is found in the whole. -/
theorem foundIn_mul_le {part whole others : Assertion Address Object} (result : Option Nat)
    (value : Option Entry) (whole_of : part * others ≤ whole) :
    foundIn part result value * others ≤ foundIn whole result value := by
  -- What completes the part completes the whole, together with the others.
  match result, value with
  | none, none => exact whole_of
  | some entry, some held =>
    simp only [foundIn, Assertion.given, Assertion.any_mul]
    refine Assertion.any_le fun rest => Assertion.any_le fun completes => ?_
    rw [mul_assoc]
    refine fun _ parts => ⟨rest * others, ?_, parts⟩
    rw [← mul_assoc]
    exact (mul_le_mul_left completes others).trans whole_of
  | none, some _ | some _, none =>
    simp only [foundIn, Assertion.given, Assertion.any_mul]
    exact Assertion.any_le False.elim

/-- The loop of `list_get` finds what it finds among values. -/
theorem listGetLoop_follows (keyBlock : Nat) (key : Key) (current : Option Nat)
    (back : List Entry) :
    Follows objects (nodesAt current back none * stringAt keyBlock key)
      (listGetLoop ⟨keyBlock, 0⟩ current) (ChainTable.listGetLoop key back)
      fun result value => foundIn (nodesAt current back none * stringAt keyBlock key) result
        value := by
  induction back generalizing current with
  -- A loop that has reached the end has found nothing.
  | nil =>
    refine .assume fun same => ?_
    subst same
    rw [listGetLoop, repeatM_round, ChainTable.listGetLoop]
    simp only [listGetRound, pure_bind]
    exact .done (mul_le_mul_left (Assertion.le_segment_nil nodeAt none) _)
  | cons first back ih =>
    refine .choose fun name => .choose fun link => .assume fun same => ?_
    subst same
    rw [listGetLoop, repeatM_round, mul_assoc]
    refine .choose fun held => ?_
    simp only [listGetRound, bind_assoc]
    rw [mul_assoc]
    refine Kind.read_next (.permute (entryAt held first * (stringAt keyBlock key *
      (nodes.holds name _ * nodesAt link back none))) (by unfold nodesAt; ac_rfl)
      (compareKey_next fun heldKey keyed => ?_))
    rw [ChainTable.listGetLoop, keyed]
    dsimp only
    have whole := mul_le_mul_left (le_nodesAt_cons name held first link back)
      (stringAt keyBlock key)
    -- The entry with the key completes the nodes, and past any other the loop goes on.
    by_cases same : strcmp key heldKey = 0
    · rw [if_pos same, if_pos same]
      refine .done fun _ parts => ⟨_, (le_of_eq ?_).trans whole, parts⟩
      ac_rfl
    · rw [if_neg same, if_neg same]
      -- What is found further on is a part of all the nodes.
      refine ((ih link).frame (nodes.holds name ⟨some held, link⟩ * entryAt held first)).weaken
        (le_of_eq (by ac_rfl)) fun result value => foundIn_mul_le result value ?_
      refine le_trans (le_of_eq ?_) whole
      ac_rfl

/-- `list_get` finds what it finds among values, and leaves it in the list. -/
theorem listGet_follows (keyBlock : Nat) (key : Key) (held : EntryList) :
    Follows objects (listAt list held * stringAt keyBlock key)
      (listGet (some list) (some ⟨keyBlock, 0⟩)) (ChainTable.listGet held (some key))
      (foundIn (listAt list held * stringAt keyBlock key)) := by
  -- The pointers are checked as the values are, and each branch gives the list back.
  unfold listGet ChainTable.listGet
  refine validList_next ?_
  by_cases invalid : ChainTable.validList (some held) = -1
  · rw [if_pos invalid, if_pos invalid]
    exact .done (le_refl _)
  rw [if_neg invalid, if_neg invalid]
  refine .choose fun head => ?_
  rw [mul_assoc]
  refine Kind.read_next ?_
  dsimp only
  have whole := mul_le_mul_left (le_listAt list head held.size held.head)
    (stringAt keyBlock key)
  -- In an empty list there is nothing to find.
  by_cases empty : held.size = 0
  · rw [if_pos empty, if_pos empty]
    refine .done (le_trans (le_of_eq ?_) whole)
    ac_rfl
  · rw [if_neg empty, if_neg empty]
    refine ((listGetLoop_follows keyBlock key head held.head).frame _).weaken
      (le_of_eq (mul_comm _ _)) fun result value => foundIn_mul_le result value ?_
    refine le_trans (le_of_eq ?_) whole
    ac_rfl

/-- A list is created with nothing in it. -/
theorem listCreate_follows :
    Follows objects 1 listCreate ChainTable.listCreate (nullable listAt) := by
  -- The new structure has no first node, and that is a list without entries.
  unfold listCreate ChainTable.listCreate
  refine Kind.malloc_next (.done (le_refl _)) fun list => Kind.write_next (.done ?_)
  exact (mul_le_mul_right (Assertion.le_segment_nil nodeAt none) _).trans (le_listAt list none 0 [])

/-- The loop of `list_destroy` frees all nodes with their entries. -/
theorem listDestroyLoop_next {α β : Type} {others : Assertion Address Object} {model : C β}
    {after : α → β → Assertion Address Object} {current : Option Nat} {held : List Entry}
    {next : Bool → Pointed α} (rest : Follows objects others (next true) model after) :
    Follows objects (nodesAt current held none * others) (listDestroyLoop current >>= next) model
      after := by
  -- The induction is on the nodes that are left, and a round frees the first of them.
  induction held generalizing current with
  | nil =>
    refine .assume fun same => ?_
    subst same
    rw [listDestroyLoop, repeatM_round, one_mul]
    simp only [listDestroyRound, pure_bind]
    exact rest
  | cons first back ih =>
    refine .choose fun name => .choose fun link => .assume fun same => ?_
    subst same
    rw [listDestroyLoop, repeatM_round, mul_assoc]
    -- The entry of the node is destroyed before the node is freed.
    refine .choose fun entry => ?_
    simp only [listDestroyRound, bind_assoc]
    rw [mul_assoc]
    refine Kind.read_next (.permute (entryAt entry first * (nodes.holds name _ *
      (nodesAt link back none * others))) (mul_left_comm _ _ _) (entryDestroy_next ?_))
    rw [if_neg (by decide)]
    simp only [bind_assoc]
    exact Kind.free_next ih

/-- `list_destroy` frees a list with all that is in it. -/
theorem listDestroy_next {α β : Type} {others : Assertion Address Object} {model : C β}
    {after : α → β → Assertion Address Object} {held : EntryList} {next : Int → Pointed α}
    (rest : Follows objects others (next 0) model after) :
    Follows objects (listAt list held * others) (listDestroy (some list) >>= next) model after := by
  -- The nodes are freed first, and the structure that pointed at them after them.
  refine .choose fun head => ?_
  simp only [listDestroy, bind_assoc]
  rw [mul_assoc]
  refine Kind.read_next (.permute (nodesAt head held.head none * (lists.holds list _ * others))
    (mul_left_comm _ _ _) (listDestroyLoop_next ?_))
  rw [if_neg (by decide), bind_assoc]
  refine Kind.free_next ?_
  rwa [pure_bind]

end Lists

end ChainTable.Lifetime
