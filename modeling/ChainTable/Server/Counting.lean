import ChainTable.Server.InvokeLaws
import Mathlib.Algebra.Order.BigOperators.Group.List
import Mathlib.Data.Int.GCD

/-! The statistics of a server over any run of requests: what is counted, and how time adds up. -/

namespace ChainTable

variable {σ : Type} {nextServer : Option (Successor σ)} {msg : MessageT} {server served : Server}
  {state state' : σ} {mem mem' : Mem} {code : Int} {reply : MessageT}

/-- A deletion that names no key. -/
def MessageT.Keyless (msg : MessageT) : Prop :=
  msg.opcode = opDel ∧ msg.key = none

instance (msg : MessageT) : Decidable msg.Keyless :=
  inferInstanceAs (Decidable (_ ∧ _))

/-- A request with another opcode than that of a deletion is not a keyless one. -/
theorem not_keyless {opcode : Int} (is : msg.opcode = opcode) (differs : opcode ≠ opDel) :
    ¬ msg.Keyless := fun keyless => differs (is.symm.trans keyless.1)

/-- The clock and the counters that a request leaves, whatever it does to the table. -/
def settle (msg : MessageT) (server : Server) : Server :=
  if msg.OnTable then
    -- Its exit has read the clock once, and does not call `update_stats`.
    if msg.Keyless then server.gettimeofday.2 else server.counted
  else server

/-- Two servers that differ at most in their tables. -/
def SameBooks (left right : Server) : Prop :=
  left.stats = right.stats ∧ left.clock = right.clock

/-- The end of an operation does not look at the table. -/
theorem sameBooks_finish (server : Server) (table : Table) (startTime : Timeval) :
    SameBooks ({ server with table := table }.finish startTime) (server.finish startTime) := by
  -- The clock is read in the same way, whether it stands still or not.
  obtain ⟨stored, stats, clock⟩ := server
  cases clock <;> exact ⟨rfl, rfl⟩

/-- A put leaves the clock and the counters as they should be at every exit. -/
theorem invokePut_books (ran : invokePut nextServer msg server state mem =
    .ok (((code, reply, served), state'), mem')) : SameBooks served server.counted := by
  -- The section under the lock comes first, and decides whether anything is passed on.
  obtain ⟨⟨stored, table⟩, stateLocal, memLocal, -, rest⟩ := runOver_bind_ran ran
  cases stored with
  | none =>
    cases rest
    exact sameBooks_finish _ _ _
  | some entry =>
    obtain ⟨-, stateSent, memSent, -, last⟩ := runOver_bind_ran rest
    cases last
    exact sameBooks_finish _ _ _

/-- A lookup leaves the clock and the counters as they should be at every exit. -/
theorem invokeGet_books (ran : invokeGet msg server state mem =
    .ok (((code, reply, served), state'), mem')) : SameBooks served server.counted := by
  unfold invokeGet at ran
  cases named : msg.key with
  | none =>
    simp only [named] at ran
    cases ran
    exact ⟨rfl, rfl⟩
  | some key =>
    -- The lookup finds data or does not, and either exit counts the operation.
    simp only [named] at ran
    obtain ⟨found, stateFound, memFound, -, rest⟩ := runOver_bind_ran ran
    cases found with
    | none => cases rest; exact ⟨rfl, rfl⟩
    | some data => cases rest; exact ⟨rfl, rfl⟩

/-- A deletion that names a key leaves the clock and the counters as they should be. -/
theorem invokeDel_books {key : Key} (named : msg.key = some key)
    (ran : invokeDel nextServer msg server state mem =
      .ok (((code, reply, served), state'), mem')) : SameBooks served server.counted := by
  unfold invokeDel at ran
  simp only [named] at ran
  -- The section under the lock comes first, and decides whether anything is passed on.
  obtain ⟨⟨removed, table⟩, stateLocal, memLocal, -, rest⟩ := runOver_bind_ran ran
  cases removed with
  | false =>
    cases rest
    exact sameBooks_finish _ _ _
  | true =>
    obtain ⟨-, stateSent, memSent, -, last⟩ := runOver_bind_ran rest
    cases last
    exact sameBooks_finish _ _ _

/-- A question about the whole table leaves the clock and the counters as they should be. -/
theorem invoke_question_books
    (question : msg.opcode = opSize ∨ msg.opcode = opGetKeys ∨ msg.opcode = opGetTable)
    (ran : invoke nextServer (some msg) server state mem =
      .ok (((code, reply, served), state'), mem')) : SameBooks served server.counted := by
  rcases question with isSize | isGetKeys | isGetTable
  · -- The size is a number, or the -1 of an error.
    rw [invoke_opSize isSize] at ran
    by_cases missing : tableSize server.gettimeofday.2.table = -1
    · simp only [invokeSize, if_pos missing] at ran
      cases ran
      exact ⟨rfl, rfl⟩
    · simp only [invokeSize, if_neg missing] at ran
      cases ran
      exact ⟨rfl, rfl⟩
  · rw [invoke_opGetKeys isGetKeys] at ran
    simp only [invokeGetKeys] at ran
    obtain ⟨keys, stateListed, memListed, -, rest⟩ := runOver_bind_ran ran
    by_cases missing : keys.isNone ∨ tableSize server.gettimeofday.2.table = -1
    · simp only [if_pos missing] at rest
      cases rest
      exact ⟨rfl, rfl⟩
    · simp only [if_neg missing] at rest
      cases rest
      exact ⟨rfl, rfl⟩
  · rw [invoke_opGetTable isGetTable] at ran
    obtain ⟨entries, stateListed, memListed, -, rest⟩ := runOver_bind_ran ran
    cases entries with
    | none => cases rest; exact ⟨rfl, rfl⟩
    | some listed =>
      -- The entries are copied into the reply before the operation ends.
      obtain ⟨-, stateArray, memArray, -, copying⟩ := runOver_bind_ran rest
      obtain ⟨copies, stateCopied, memCopied, -, last⟩ := runOver_bind_ran copying
      cases last
      exact ⟨rfl, rfl⟩

/-- A request that `invoke` returned from left the clock and the counters that it should. -/
theorem invoke_books (ran : invoke nextServer (some msg) server state mem =
    .ok (((code, reply, served), state'), mem')) : SameBooks served (settle msg server) := by
  unfold settle
  by_cases onTable : msg.OnTable
  · rw [if_pos onTable]
    rcases onTable with isPut | isGet | isDel | question
    · rw [if_neg (not_keyless isPut (by decide))]
      rw [invoke_opPut isPut] at ran
      exact invokePut_books ran
    · rw [if_neg (not_keyless isGet (by decide))]
      rw [invoke_opGet isGet] at ran
      exact invokeGet_books ran
    · rw [invoke_opDel isDel] at ran
      cases named : msg.key with
      | none =>
        -- Here alone the clock is read once, and nothing is counted.
        rw [if_pos ⟨isDel, named⟩]
        unfold invokeDel at ran
        simp only [named] at ran
        cases ran
        exact ⟨rfl, rfl⟩
      | some key =>
        rw [if_neg fun keyless => by rw [keyless.2] at named; cases named]
        exact invokeDel_books named ran
    · have named : ¬ msg.Keyless := by
        rcases question with isSize | isGetKeys | isGetTable
        · exact not_keyless isSize (by decide)
        · exact not_keyless isGetKeys (by decide)
        · exact not_keyless isGetTable (by decide)
      rw [if_neg named]
      exact invoke_question_books question ran
  · rw [if_neg onTable]
    by_cases isStats : msg.opcode = opStats
    · rw [invoke_opStats isStats] at ran
      obtain ⟨-, stateAsked, memAsked, -, last⟩ := runOver_bind_ran ran
      cases last
      exact ⟨rfl, rfl⟩
    · rw [invoke_other onTable isStats] at ran
      cases ran
      exact ⟨rfl, rfl⟩

/--
A run of `invoke` over messages, one after another.

Each call is made with the table, the successor and the memory there are at that moment.
-/
inductive Serving : Server → List MessageT → Server → Prop
  | done (server : Server) : Serving server [] server
  | next {σ : Type} {nextServer : Option (Successor σ)} {server served final : Server}
    {table : Table} {msg reply : MessageT} {msgs : List MessageT} {state state' : σ}
    {mem mem' : Mem} {code : Int}
    (ran : invoke nextServer (some msg) { server with table := table } state mem =
      .ok (((code, reply, served), state'), mem'))
    (rest : Serving served msgs final) : Serving server (msg :: msgs) final

/-- Whether a request comes to an exit that calls `update_stats`. -/
def MessageT.Timed (msg : MessageT) : Prop :=
  msg.OnTable ∧ ¬ msg.Keyless

instance (msg : MessageT) : Decidable msg.Timed :=
  inferInstanceAs (Decidable (_ ∧ _))

/-- A request that does not come to such an exit leaves the counters alone. -/
theorem settle_stats_of_not_timed (notTimed : ¬ msg.Timed) (server : Server) :
    (settle msg server).stats = server.stats := by
  -- What is about the table and is not timed names no key, and only reads the clock.
  unfold settle
  split
  · rename_i onTable
    have keyless : msg.Keyless := not_not.mp fun named => notTimed ⟨onTable, named⟩
    rw [if_pos keyless]
    unfold Server.gettimeofday
    split <;> rfl
  · rfl

/-- A timed request reads the clock at its start and at its end. -/
theorem settle_of_timed (timed : msg.Timed) (server : Server) :
    settle msg server = server.counted := by
  -- Such a request is about the table, and is not keyless.
  rw [settle, if_pos timed.1, if_neg timed.2]

/-- Reading the clock leaves the counters alone. -/
@[simp] theorem gettimeofday_stats (server : Server) :
    server.gettimeofday.2.stats = server.stats := by
  -- Only the readings are touched.
  unfold Server.gettimeofday
  split <;> rfl

/-- Counting an operation updates the counters with the two readings. -/
theorem counted_stats (server : Server) :
    server.counted.stats = updateStats server.gettimeofday.1 server.gettimeofday.2.gettimeofday.1
      server.stats := by
  -- The second reading follows the first, and neither touches the counters.
  simp only [Server.counted, Server.finish, gettimeofday_stats]

section Operations

/-- An operation that an `int` has counted is one more, and the counter wraps as an `int`. -/
theorem counted_numOps (server : Server) :
    server.counted.stats.numOps = int32 (server.stats.numOps + 1) := by
  rw [counted_stats, updateStats]

/--
A run counts the requests of the table it is given, but for the deletions without a key.

The counter is an `int`, and wraps as one.
-/
theorem Serving.numOps_eq {server final : Server} {msgs : List MessageT}
    (run : Serving server msgs final) (isInt : int32 server.stats.numOps = server.stats.numOps) :
    final.stats.numOps =
      int32 (server.stats.numOps + msgs.countP (·.OnTable) - msgs.countP (·.Keyless)) := by
  -- Each request adds to the counter, or it is a deletion without a key, or it is not counted.
  induction run with
  | done server => simpa using isInt.symm
  | @next σ nextServer server served final table msg reply msgs state state' mem mem' code ran rest
      ih =>
    have books := congrArg Statistics.numOps (invoke_books ran).1
    rw [List.countP_cons, List.countP_cons]
    by_cases timed : msg.Timed
    · -- A timed request is counted once.
      rw [settle_of_timed timed, counted_numOps] at books
      rw [ih (by rw [books, int32_int32]), books]
      simp only [decide_eq_true timed.1, decide_eq_false timed.2, Bool.false_eq_true, if_true,
        if_false]
      unfold int32
      omega
    · rw [settle_stats_of_not_timed timed] at books
      rw [ih (by rw [books]; exact isInt), books]
      by_cases onTable : msg.OnTable
      · have keyless : msg.Keyless := not_not.mp fun named => timed ⟨onTable, named⟩
        simp only [decide_eq_true onTable, decide_eq_true keyless, if_true]
        congr 1
        omega
      · have named : ¬ msg.Keyless := fun keyless =>
          onTable (.inr (.inr (.inl keyless.1)))
        simp only [decide_eq_false onTable, decide_eq_false named, Bool.false_eq_true, if_false]
        rfl

/--
The counter grows by one for each request of the table exactly if no deletion is keyless, and
an `int` can hold the number of operations that there have been.
-/
theorem numOps_counts_requests_iff {server final : Server} {msgs : List MessageT}
    (run : Serving server msgs final) (isInt : int32 server.stats.numOps = server.stats.numOps) :
    final.stats.numOps = server.stats.numOps + msgs.countP (·.OnTable) ↔
      (∀ msg ∈ msgs, ¬ (msg.opcode = opDel ∧ msg.key = none)) ∧
        server.stats.numOps + msgs.countP (·.OnTable) < 2 ^ 31 := by
  -- The requests that were not counted are the keyless deletions.
  have counted := run.numOps_eq isInt
  have none : msgs.countP (·.Keyless) = 0 ↔ ∀ msg ∈ msgs, ¬ msg.Keyless := by
    rw [List.countP_eq_zero]
    simp only [decide_eq_true_eq]
  have fewer : msgs.countP (·.Keyless) ≤ msgs.countP (·.OnTable) :=
    List.countP_mono_left fun msg _ keyless =>
      decide_eq_true (.inr (.inr (.inl (of_decide_eq_true keyless).1)))
  change _ ↔ (∀ msg ∈ msgs, ¬ msg.Keyless) ∧ _
  rw [← none, counted]
  -- What an `int` cannot tell apart differs by 2^32, and there are fewer requests than that.
  unfold int32 at isInt ⊢
  omega

/-- A deletion without a key is a request of the table, and is not counted. -/
theorem keyless_deletion_is_not_counted :
    ¬ ∀ (server final : Server) (msgs : List MessageT), Serving server msgs final →
      int32 server.stats.numOps = server.stats.numOps →
      server.stats.numOps + msgs.countP (·.OnTable) < 2 ^ 31 →
      final.stats.numOps = server.stats.numOps + msgs.countP (·.OnTable) := by
  -- The exit for a missing key of a deletion returns without `update_stats`.
  intro counts
  let server : Server := ⟨⟨0, 1, [⟨0, []⟩], rfl⟩, ⟨0, 0, 0⟩, []⟩
  have ran : invoke (none : Option (Successor Unit)) (some { opcode := opDel, key := none })
      { server with table := server.table } () [] =
      .ok (((-1, errorReply { opcode := opDel, key := none }, server), ()), []) := rfl
  exact absurd (counts server server _ (.next ran (.done server)) rfl (by decide)) (by decide)

/-- A question for the size, and then a deletion without a key: one of the two is counted. -/
theorem numOps_counts_requests_iff_two :
    let server : Server := ⟨⟨0, 1, [⟨0, []⟩], rfl⟩, ⟨0, 0, 0⟩, []⟩
    ∃ final, Serving server [{ opcode := opSize }, { opcode := opDel, key := none }] final ∧
      final.stats.numOps ≠ 2 := by
  -- Both requests can be followed, and the second one is the exception.
  intro server
  let after : Server := ⟨⟨0, 1, [⟨0, []⟩], rfl⟩, ⟨1, 0, 0⟩, []⟩
  have size : invoke (none : Option (Successor Unit)) (some { opcode := opSize })
      { server with table := server.table } () [] =
      .ok (((0, { opcode := opSize + 1, cType := ctResult }, after), ()), []) := rfl
  have del : invoke (none : Option (Successor Unit)) (some { opcode := opDel, key := none })
      { after with table := after.table } () [] =
      .ok (((-1, errorReply { opcode := opDel, key := none }, after), ()), []) := rfl
  have last : Serving after [{ opcode := opDel, key := none }] after := .next del (.done after)
  have run : Serving server [{ opcode := opSize }, { opcode := opDel, key := none }] after :=
    .next size last
  refine ⟨after, run, fun both => ?_⟩
  have named := ((numOps_counts_requests_iff run rfl).mp both).1
  exact named { opcode := opDel, key := none } (by simp) ⟨rfl, rfl⟩

end Operations

section Time

/-- The readings of the clock at the start and at the end of each timed request. -/
def timings (server : Server) : List MessageT → List (Timeval × Timeval)
  | [] => []
  | msg :: msgs =>
    if msg.Timed then
      (server.gettimeofday.1, server.gettimeofday.2.gettimeofday.1) :: timings server.counted msgs
    else timings (settle msg server) msgs

/-- The microseconds from one reading to another. -/
def elapsed (timing : Timeval × Timeval) : Int :=
  (timing.2.tvSec - timing.1.tvSec) * 1000000 + (timing.2.tvUsec - timing.1.tvUsec)

/-- The full seconds from one reading to another, by their counters of seconds. -/
def secondsApart (timing : Timeval × Timeval) : Int :=
  timing.2.tvSec - timing.1.tvSec

/-- The table has no part in what a request leaves of the clock and the counters. -/
theorem sameBooks_settle {left right : Server} (same : SameBooks left right) (msg : MessageT) :
    SameBooks (settle msg left) (settle msg right) := by
  -- Both servers have the same counters and the same clock, whose readings are followed.
  obtain ⟨table, stats, clock⟩ := left
  obtain ⟨table', stats', clock'⟩ := right
  obtain ⟨rfl, rfl⟩ := same
  unfold settle
  split
  · split
    · cases clock <;> exact ⟨rfl, rfl⟩
    · -- The clock has two readings left, or stands still after one or at once.
      match clock with
      | [] | [_] | _ :: _ :: _ => exact ⟨rfl, rfl⟩
  · exact ⟨rfl, rfl⟩

/-- The table has no part in the readings of the clock. -/
theorem timings_congr {left right : Server} (same : SameBooks left right) (msgs : List MessageT) :
    timings left msgs = timings right msgs := by
  -- Each request reads the same clock, and leaves the same clock to those after it.
  induction msgs generalizing left right with
  | nil => rfl
  | cons msg rest ih =>
    have after := ih (sameBooks_settle same msg)
    simp only [timings]
    by_cases timed : msg.Timed
    · rw [settle_of_timed timed, settle_of_timed timed] at after
      rw [if_pos timed, if_pos timed, after]
      obtain ⟨table, stats, clock⟩ := left
      obtain ⟨table', stats', clock'⟩ := right
      obtain ⟨rfl, rfl⟩ := same
      match clock with
      | [] | [_] | _ :: _ :: _ => rfl
    · rw [if_neg timed, if_neg timed, after]

/-- Over a run the counter of time adds up the microseconds of the readings alone. -/
theorem Serving.totalTime_eq {server final : Server} {msgs : List MessageT}
    (run : Serving server msgs final) (unsigned : server.stats.totalTimeMicroseconds < 2 ^ 64) :
    (final.stats.totalTimeMicroseconds : Int) =
      (server.stats.totalTimeMicroseconds +
        ((timings server msgs).map fun timing => timing.2.tvUsec - timing.1.tvUsec).sum) %
          2 ^ 64 := by
  -- Each timed request adds its difference, and wraps as an `unsigned long`.
  induction run with
  | done server =>
    simp only [timings, List.map_nil, List.sum_nil, Int.add_zero]
    omega
  | @next σ nextServer server served final table msg reply msgs state state' mem mem' code ran rest
      ih =>
    have books := invoke_books ran
    have same : SameBooks { server with table := table } server := ⟨rfl, rfl⟩
    have moved := sameBooks_settle same msg
    have settled : SameBooks served (settle msg server) :=
      ⟨books.1.trans moved.1, books.2.trans moved.2⟩
    rw [timings_congr settled] at ih
    have stats := settled.1
    by_cases timed : msg.Timed
    · rw [settle_of_timed timed] at ih stats
      rw [counted_stats] at stats
      simp only [stats, updateStats] at ih
      rw [ih (by omega), timings, if_pos timed, List.map_cons, List.sum_cons]
      dsimp only
      omega
    · rw [settle_stats_of_not_timed timed] at stats
      rw [stats] at ih
      rw [ih unsigned, timings, if_neg timed]

/-- A sum of elapsed times is one of seconds and one of microseconds. -/
theorem sum_elapsed (readings : List (Timeval × Timeval)) :
    (readings.map elapsed).sum = (readings.map secondsApart).sum * 1000000 +
      (readings.map fun timing => timing.2.tvUsec - timing.1.tvUsec).sum := by
  -- Both sums grow by the reading in front.
  induction readings with
  | nil => rfl
  | cons timing rest ih =>
    simp only [List.map_cons, List.sum_cons, ih, elapsed, secondsApart]
    omega

/-- The counter has grown by the time elapsed, and not decreased as long as that fits in it. -/
def TimeAddsUp (server final : Server) (readings : List (Timeval × Timeval)) : Prop :=
  (final.stats.totalTimeMicroseconds : Int) =
      (server.stats.totalTimeMicroseconds + (readings.map elapsed).sum) % 2 ^ 64 ∧
    (server.stats.totalTimeMicroseconds + (readings.map elapsed).sum < 2 ^ 64 →
      server.stats.totalTimeMicroseconds ≤ final.stats.totalTimeMicroseconds)

/-- Leaving seconds out of a sum of microseconds shows modulo 2^64, unless 2^58 divides them. -/
theorem seconds_vanish_iff (total seconds microseconds : Int) :
    (total + microseconds) % 2 ^ 64 = (total + (seconds * 1000000 + microseconds)) % 2 ^ 64 ↔
      (2 ^ 58 : Int) ∣ seconds := by
  -- A second is 2^6 times an odd number of microseconds.
  have difference : total + microseconds - (total + (seconds * 1000000 + microseconds)) =
      -(seconds * 15625 * 2 ^ 6) := by omega
  have wide : (2 ^ 64 : Int) = 2 ^ 58 * 2 ^ 6 := by decide
  rw [Int.emod_eq_emod_iff_emod_sub_eq_zero, ← Int.dvd_iff_emod_eq_zero, difference, Int.dvd_neg,
    wide, Int.mul_dvd_mul_iff_right (by decide)]
  constructor
  · intro divides
    exact Int.dvd_of_dvd_mul_left_of_gcd_one divides (by decide)
  · intro divides
    exact divides.mul_right _

/-- The time adds up exactly if the seconds between the readings add up to none, modulo 2^58. -/
theorem total_time_adds_up_iff {server final : Server} {msgs : List MessageT}
    (run : Serving server msgs final) (unsigned : server.stats.totalTimeMicroseconds < 2 ^ 64)
    (ordered : ∀ timing ∈ timings server msgs, 0 ≤ elapsed timing) :
    TimeAddsUp server final (timings server msgs) ↔
      (2 ^ 58 : Int) ∣ ((timings server msgs).map secondsApart).sum := by
  have counter := run.totalTime_eq unsigned
  have positive : 0 ≤ ((timings server msgs).map elapsed).sum := by
    refine List.sum_nonneg fun time member => ?_
    obtain ⟨timing, held, rfl⟩ := List.mem_map.mp member
    exact ordered timing held
  rw [← seconds_vanish_iff server.stats.totalTimeMicroseconds, ← sum_elapsed, ← counter]
  -- A counter that has grown by a positive sum has not decreased.
  refine ⟨And.left, fun adds => ⟨adds, fun fits => ?_⟩⟩
  rw [Int.emod_eq_of_lt (by omega) fits] at adds
  omega

/-- An operation of one microsecond across a second takes nearly 2^64 microseconds. -/
theorem second_boundary_wraps :
    ¬ ∀ (server final : Server) (msgs : List MessageT), Serving server msgs final →
      server.stats.totalTimeMicroseconds = 0 →
      (∀ timing ∈ timings server msgs, 0 ≤ elapsed timing) →
      TimeAddsUp server final (timings server msgs) := by
  -- The clock goes from 0.999999 seconds to 1.000000 seconds.
  intro addsUp
  let server : Server := ⟨⟨0, 1, [⟨0, []⟩], rfl⟩, ⟨0, 0, 0⟩, [⟨0, 999999⟩, ⟨1, 0⟩]⟩
  let final : Server := ⟨⟨0, 1, [⟨0, []⟩], rfl⟩, ⟨1, 18446744073708551617, 0⟩, []⟩
  have ran : invoke (none : Option (Successor Unit)) (some { opcode := opSize })
      { server with table := server.table } () [] =
      .ok (((0, { opcode := opSize + 1, cType := ctResult }, final), ()), []) := rfl
  have run : Serving server [{ opcode := opSize }] final := .next ran (.done final)
  have total := (addsUp server final _ run rfl (by decide)).1
  exact absurd total (by decide +kernel)

/-- Two operations, each within one second, add up. -/
theorem total_time_adds_up_iff_two :
    let server : Server := ⟨⟨0, 1, [⟨0, []⟩], rfl⟩, ⟨0, 0, 0⟩,
      [⟨0, 100⟩, ⟨0, 250⟩, ⟨3, 70⟩, ⟨3, 120⟩]⟩
    ∃ final, Serving server [{ opcode := opSize }, { opcode := opSize }] final ∧
      final.stats.totalTimeMicroseconds = 200 ∧
      TimeAddsUp server final [(⟨0, 100⟩, ⟨0, 250⟩), (⟨3, 70⟩, ⟨3, 120⟩)] := by
  -- Both requests can be followed, and neither begins in one second and ends in another.
  intro server
  let middle : Server := ⟨⟨0, 1, [⟨0, []⟩], rfl⟩, ⟨1, 150, 0⟩, [⟨3, 70⟩, ⟨3, 120⟩]⟩
  let final : Server := ⟨⟨0, 1, [⟨0, []⟩], rfl⟩, ⟨2, 200, 0⟩, []⟩
  have first : invoke (none : Option (Successor Unit)) (some { opcode := opSize })
      { server with table := server.table } () [] =
      .ok (((0, { opcode := opSize + 1, cType := ctResult }, middle), ()), []) := rfl
  have second : invoke (none : Option (Successor Unit)) (some { opcode := opSize })
      { middle with table := middle.table } () [] =
      .ok (((0, { opcode := opSize + 1, cType := ctResult }, final), ()), []) := rfl
  have last : Serving middle [{ opcode := opSize }] final := .next second (.done final)
  have run : Serving server [{ opcode := opSize }, { opcode := opSize }] final := .next first last
  exact ⟨final, run, rfl, (total_time_adds_up_iff run (by decide) (by decide)).mpr (by decide)⟩

end Time

end ChainTable
