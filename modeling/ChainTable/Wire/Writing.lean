import ChainTable.Wire.Socket
import Mathlib.Data.Set.Finite.Lattice
import Mathlib.Data.Stream.Init

/-! `write_all` against an endless sequence of outcomes: that it ends, and what was accepted. -/

namespace ChainTable

/-- The variables of `write_all`, and the bytes that the socket has accepted so far. -/
structure Writing where
  /-- The distance by which `buf` has moved. -/
  buf : Nat
  /-- What is left of `size`. -/
  size : Int
  accepted : List UInt8
  deriving DecidableEq, Repr

/-- A `write` that returned the number of bytes it accepted: `buf += res` and `size -= res`. -/
def Writing.move (buffer : List UInt8) (res : Nat) (writing : Writing) : Writing where
  buf := writing.buf + res
  size := writing.size - res
  accepted := writing.accepted ++ (buffer.drop writing.buf).take res

/-- The loop of `write_all` for so many rounds: its result and the bytes accepted, if it ended. -/
def writeRounds (buffer : List UInt8) (bufsize : Int) :
    (rounds : Nat) → Stream' Transfer → Writing → Option (Int × List UInt8)
  | 0, _, _ => none
  | rounds + 1, outcomes, writing =>
    if 0 < writing.size then
      match outcomes.head with
      | .moved count =>
        let res := (Transfer.moved count).amount writing.size.toNat
        writeRounds buffer bufsize rounds outcomes.tail (writing.move buffer res)
      -- After EINTR the same bytes are offered again.
      | .interrupted => writeRounds buffer bufsize rounds outcomes.tail writing
      | .failed => some (-1, writing.accepted)
    else some (bufsize, writing.accepted)

/-- `write_all` of a whole buffer, given so many rounds of its loop to end. -/
def writeAllRounds (buffer : List UInt8) (rounds : Nat) (outcomes : Stream' Transfer) :
    Option (Int × List UInt8) :=
  writeRounds buffer buffer.length rounds outcomes ⟨0, buffer.length, []⟩

/-- The pointer and the remaining count move together, past the bytes that were accepted. -/
structure Writing.Kept (buffer : List UInt8) (writing : Writing) : Prop where
  left : 0 ≤ writing.size
  together : writing.buf + writing.size = buffer.length
  accepted : writing.accepted = buffer.take writing.buf

section Loop

variable {buffer : List UInt8} {writing : Writing} {outcomes : Stream' Transfer} {bufsize : Int}

/-- Before the loop nothing was accepted, and the whole buffer is left. -/
theorem kept_start (buffer : List UInt8) : Writing.Kept buffer ⟨0, buffer.length, []⟩ where
  left := Int.natCast_nonneg _
  together := Int.zero_add _
  accepted := rfl

/-- A `write` moves at least one byte, and no more than are left. -/
theorem amount_bounds (count : Nat) {size : Int} (positive : 0 < size) :
    1 ≤ (Transfer.moved count).amount size.toNat ∧
      ((Transfer.moved count).amount size.toNat : Int) ≤ size := by
  -- The amount is what is moved, within these bounds.
  simp only [Transfer.amount]
  omega

/-- What a `write` accepts is what follows the bytes accepted before. -/
theorem Writing.Kept.move (kept : writing.Kept buffer) {res : Nat} (fits : res ≤ writing.size) :
    (writing.move buffer res).Kept buffer where
  left := by
    show 0 ≤ writing.size - res
    omega
  together := by
    have together := kept.together
    show ((writing.buf + res : Nat) : Int) + (writing.size - res) = buffer.length
    omega
  accepted := by
    -- The bytes up to the pointer and those behind it are next to each other.
    unfold Writing.move
    rw [kept.accepted, List.take_add]

/-- The loop returns once all is accepted, or fails with a part of the buffer accepted. -/
theorem writeRounds_returned (kept : writing.Kept buffer) {rounds : Nat} {result : Int}
    {accepted : List UInt8}
    (ended : writeRounds buffer bufsize rounds outcomes writing = some (result, accepted)) :
    (result = bufsize ∧ accepted = buffer) ∨
      (result = -1 ∧ ∃ cut < buffer.length, accepted = buffer.take cut) := by
  -- Every round keeps the pointer and the count together, up to the round that returns.
  induction rounds generalizing outcomes writing with
  | zero => cases ended
  | succ rounds ih =>
    have together := kept.together
    unfold writeRounds at ended
    split at ended
    · rename_i positive
      split at ended
      · exact ih (kept.move (amount_bounds _ positive).2) ended
      · exact ih kept ended
      · -- A failed write leaves at least one byte of the buffer behind.
        cases ended
        exact .inr ⟨rfl, writing.buf, by omega, kept.accepted⟩
    · -- With nothing left, the pointer is at the end of the buffer.
      have := kept.left
      cases ended
      refine .inl ⟨rfl, ?_⟩
      rw [kept.accepted, List.take_of_length_le (by omega)]

/-- The loop ends within as many rounds as interruptions may come and bytes are left. -/
theorem writeRounds_ends (kept : writing.Kept buffer) {last rounds : Nat}
    (quiet : ∀ call, last ≤ call → outcomes.get call ≠ .interrupted)
    (enough : last + writing.size < rounds) :
    (writeRounds buffer bufsize rounds outcomes writing).isSome := by
  -- A round takes one outcome, and once no interruption may come it also moves a byte.
  induction rounds generalizing outcomes writing last with
  | zero =>
    have := kept.left
    omega
  | succ rounds ih =>
    have later : ∀ call, last - 1 ≤ call → outcomes.tail.get call ≠ .interrupted :=
      fun call reached => quiet (call + 1) (by omega)
    unfold writeRounds
    split
    · rename_i positive
      split
      · rename_i count moved
        obtain ⟨some, most⟩ := amount_bounds count positive
        refine ih (kept.move most) later ?_
        show ((last - 1 : Nat) : Int) + (writing.size - _) < rounds
        omega
      · -- An interruption is one of those that may still come.
        rename_i interrupted
        have pending : last ≠ 0 := fun none => quiet 0 (by omega) interrupted
        exact ih kept later (by omega)
      · rfl
    · rfl

/-- A round with bytes left in which a `write` moves some of them. -/
theorem writeRounds_moved (rounds : Nat) (positive : 0 < writing.size) {count : Nat}
    (moved : outcomes.get 0 = .moved count) :
    writeRounds buffer bufsize (rounds + 1) outcomes writing =
      writeRounds buffer bufsize rounds outcomes.tail
        (writing.move buffer ((Transfer.moved count).amount writing.size.toNat)) := by
  -- There are bytes left, and the outcome is a move.
  rw [writeRounds, if_pos positive, Stream'.head, moved]

/-- A round with nothing left returns. -/
theorem writeRounds_done (rounds : Nat) (done : ¬ 0 < writing.size) :
    writeRounds buffer bufsize (rounds + 1) outcomes writing =
      some (bufsize, writing.accepted) := by
  -- There are no bytes left.
  rw [writeRounds, if_neg done]

/-- With nothing to be written no outcome is taken from the script. -/
theorem writeLoop_done (script : List Transfer) : writeLoop script [] = (true, [], script) := by
  -- The loop ends before it looks at the script.
  cases script with
  | nil => rfl
  | cons outcome script => simp [writeLoop]

/-- A script past whose end every call moves all it can is an endless sequence of outcomes. -/
theorem writeRounds_scripted (kept : writing.Kept buffer) {script : List Transfer} {rounds : Nat}
    (enough : script.length + 1 < rounds) :
    writeRounds buffer bufsize rounds (script ++ₛ .const (.moved buffer.length)) writing =
      some (if (writeLoop script (buffer.drop writing.buf)).1 then bufsize else -1,
        writing.accepted ++ (writeLoop script (buffer.drop writing.buf)).2.1) := by
  -- Both loops take one outcome after the other, up to the one that makes them return.
  induction script generalizing rounds writing with
  | nil =>
    obtain ⟨rounds, rfl⟩ : ∃ more, rounds = more + 2 := ⟨rounds - 2, by simp at enough; omega⟩
    have together := kept.together
    have left := kept.left
    by_cases positive : 0 < writing.size
    · -- The first call past the script moves all that is left, and the next round returns.
      have whole : (Transfer.moved buffer.length).amount writing.size.toNat =
          writing.size.toNat := by
        simp only [Transfer.amount]
        omega
      have done : ¬ 0 < (writing.move buffer writing.size.toNat).size := by
        show ¬ 0 < writing.size - (writing.size.toNat : Int)
        omega
      have moved : (Stream'.const (Transfer.moved buffer.length)).get 0 =
          .moved buffer.length := rfl
      rw [Stream'.nil_append_stream, writeRounds_moved _ positive moved, whole,
        writeRounds_done _ done, Writing.move, List.take_of_length_le]
      · simp [writeLoop]
      · rw [List.length_drop]
        omega
    · have none : buffer.drop writing.buf = [] := List.drop_eq_nil_iff.mpr (by omega)
      rw [writeRounds_done _ positive, none, writeLoop_done]
      simp
  | cons outcome script ih =>
    obtain ⟨rounds, rfl⟩ : ∃ more, rounds = more + 1 := ⟨rounds - 1, by omega⟩
    have later : script.length + 1 < rounds := by
      rw [List.length_cons] at enough
      omega
    have together := kept.together
    have left := kept.left
    by_cases positive : 0 < writing.size
    · have length : (buffer.drop writing.buf).length = writing.size.toNat := by
        rw [List.length_drop]
        omega
      have bytes : buffer.drop writing.buf ≠ [] := fun none => by
        rw [none, List.length_nil] at length
        omega
      cases outcome with
      | moved count =>
        -- The pointer moves past what is accepted, where the other loop drops it.
        have rest := ih (kept.move (amount_bounds count positive).2) later
        have moved : (.moved count :: script ++ₛ .const (.moved buffer.length) :
            Stream' Transfer).get 0 = .moved count := rfl
        rw [writeRounds_moved rounds positive moved, writeLoop, if_neg bytes]
        simp only [length]
        simp only [Writing.move, ← List.drop_drop, List.append_assoc] at rest
        exact rest
      | interrupted =>
        rw [writeRounds, if_pos positive, writeLoop, if_neg bytes]
        exact ih kept later
      | failed =>
        rw [writeRounds, if_pos positive, writeLoop, if_neg bytes, List.append_nil]
        rfl
    · have none : buffer.drop writing.buf = [] := List.drop_eq_nil_iff.mpr (by omega)
      rw [writeRounds_done _ positive, none, writeLoop_done]
      simp

/-- `write_all` on an open socket is its loop on the outcomes that the socket has for it. -/
theorem writeAll_rounds (socket : Socket) (opened : socket.isOpen = true) (buffer : List UInt8)
    (mem : Mem) : ∃ result accepted left,
      writeAll buffer buffer.length socket mem =
        .ok ((result, { socket with written := socket.written ++ accepted, writes := left }), mem) ∧
      ∀ rounds, socket.writes.length + 1 < rounds →
        writeAllRounds buffer rounds (socket.writes ++ₛ .const (.moved buffer.length)) =
          some (result, accepted) := by
  refine ⟨_, _, (writeLoop socket.writes buffer).2.2, ?_,
    fun rounds enough => writeRounds_scripted (kept_start buffer) enough⟩
  -- The whole buffer is to be written, and the socket is open.
  have inside : ¬ ((buffer.take (buffer.length : Int).toNat).length : Int) < buffer.length := by
    simp
  unfold writeAll
  rw [if_neg inside]
  have here : (get : StateT Socket C Socket) socket mem = .ok ((socket, socket), mem) := rfl
  change (get >>= _ : StateT Socket C Int) socket mem = _
  rw [runOver_bind here, if_neg (by simp [opened])]
  simp only [Int.toNat_natCast, List.take_length]
  rfl

end Loop

/--
`write_all` ends, whatever the calls of `write` do, if they are interrupted finitely often.

It returns the size after the socket accepted the buffer, or a negative number after a part of it.
-/
theorem write_all_delivers (buffer : List UInt8) (outcomes : Stream' Transfer)
    (finitely : {call | outcomes.get call = .interrupted}.Finite) :
    (∃ rounds, (writeAllRounds buffer rounds outcomes).isSome) ∧
      ∀ rounds result accepted,
        writeAllRounds buffer rounds outcomes = some (result, accepted) →
          (result = buffer.length ∨ result < 0) ∧ (result = buffer.length → accepted = buffer) ∧
            (result < 0 → accepted <+: buffer ∧ accepted ≠ buffer) := by
  constructor
  · -- After the last interruption every round moves a byte.
    obtain ⟨last, bound⟩ := finitely.bddAbove
    have quiet : ∀ call, last + 1 ≤ call → outcomes.get call ≠ .interrupted :=
      fun call reached interrupted => by
        have := bound (show call ∈ {call | outcomes.get call = .interrupted} from interrupted)
        omega
    exact ⟨last + buffer.length + 2,
      writeRounds_ends (kept_start buffer) quiet (by push_cast; omega)⟩
  · intro rounds result accepted ended
    rcases writeRounds_returned (kept_start buffer) ended with ⟨rfl, rfl⟩ | ⟨rfl, cut, inside, rfl⟩
    · exact ⟨.inl rfl, fun _ => rfl, fun negative => by omega⟩
    · refine ⟨.inr (by omega), fun same => by omega,
        fun _ => ⟨List.take_prefix _ _, fun same => ?_⟩⟩
      -- The accepted part is shorter than the buffer.
      have length := congrArg List.length same
      rw [List.length_take] at length
      omega

/-- An interruption and a write of one byte come before the write of the other two. -/
theorem write_all_delivers_interrupted :
    let outcomes : Stream' Transfer := [.interrupted, .moved 1] ++ₛ .const (.moved 5)
    (∃ rounds, (writeAllRounds [7, 8, 9] rounds outcomes).isSome) ∧
      writeAllRounds [7, 8, 9] 4 outcomes = some (3, [7, 8, 9]) := by
  intro outcomes
  -- Only the first call is interrupted.
  have once : {call | outcomes.get call = .interrupted} ⊆ {0} := by
    intro call interrupted
    match call with
    | 0 => rfl
    | 1 | _ + 2 => cases interrupted
  exact ⟨(write_all_delivers [7, 8, 9] outcomes ((Set.finite_singleton 0).subset once)).1, rfl⟩

end ChainTable
