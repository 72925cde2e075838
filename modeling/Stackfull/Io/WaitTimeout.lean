import Mathlib.Algebra.Group.Int.Defs
import Mathlib.Algebra.Group.Nat.Defs
import Mathlib.Data.Int.Basic
import Mathlib.Tactic.Common

/-!
# The timeout of the timekeeper's wait

`Worker::sleepIdle` (`Worker.cpp`) turns the earliest of the pending deadlines into nanoseconds,
and `wait` of `EpollPoller` and of `PollPoller` turns these into the argument of `epoll_wait` and
`poll`. The words are the ones of the code: signed 64 bits up to the cast, signed 32 bits after it.

`keeps_deadlines_iff` says for which deadlines the argument does what the wait was asked for. The
cast keeps the remainder of the milliseconds modulo `2 ^ 32`, so from `2 ^ 31` milliseconds on
(about 25 days) a wait for a deadline has no end, or ends long before the deadline.
-/

set_option autoImplicit false
set_option relaxedAutoImplicit false
set_option linter.dupNamespace false

namespace Stackfull.Io

/-! ### The conversions -/

/-- `kNoDeadline`. -/
def kNoDeadline : Int64 := Int64.maxValue

/-- Nanoseconds in a millisecond. -/
def kMillisecond : Int64 := 1000000

/-- What both pollers compute of the timeout of `wait`. -/
def millisOf (timeout : Int64) : Int32 :=
  if 0 ≤ timeout then
    let ms := timeout / kMillisecond
    (ms + if ms * kMillisecond < timeout then 1 else 0).toInt32
  else -1

/-- The third argument of `epoll_wait` in `EpollPoller::wait`. -/
def EpollPoller.millis (timeout : Int64) : Int32 := millisOf timeout

/-- The third argument of `poll` in `PollPoller::wait`. -/
def PollPoller.millis (timeout : Int64) : Int32 := millisOf timeout

/-- The earlier of two deadlines. -/
def earlier (mine earliest : Int64) : Int64 := if mine < earliest then mine else earliest

/-- `SchedulerCore::nextDeadline` over the earliest deadlines of the timer queues. -/
def nextDeadline (queues : List Int64) : Option Int64 :=
  let earliest := queues.foldl (fun earliest mine ↦ earlier mine earliest) kNoDeadline
  if earliest = kNoDeadline then none else some earliest

/-- What `sleepIdle` reads. The steady clock counts from the start of the machine. -/
structure Look where
  queues : List Int64
  rampUpDeadline : Int64
  now : Int64
  stopping : Bool
  started : 0 ≤ now

namespace Look

/-- `wakeAt` of `sleepIdle`. -/
def wakeAt (look : Look) : Int64 :=
  earlier look.rampUpDeadline ((nextDeadline look.queues).getD kNoDeadline)

/-- `timeout` of `sleepIdle`, as it is passed to `Driver::wait`. -/
def timeout (look : Look) : Int64 :=
  let timeout :=
    if look.wakeAt ≠ kNoDeadline then
      if look.now < look.wakeAt then look.wakeAt - look.now else 0
    else -1
  if look.stopping ∧ (timeout < 0 ∨ kMillisecond < timeout) then kMillisecond else timeout

/-- Everything that may wake the timekeeper by its timeout. -/
def deadlines (look : Look) : List Int64 := look.rampUpDeadline :: look.queues

end Look

/-! ### What a wait was asked for -/

/-- Nanoseconds rounded up to milliseconds. -/
def roundedUp (nanoseconds : ℤ) : ℤ := (nanoseconds + 999999) / 1000000

/-- The argument asks for what the timeout asks for: no end when there is none, else all of the
timeout or as much of it as there is room for. -/
def Asks (timeout : Int64) (millis : Int32) : Prop :=
  (millis < 0 ↔ timeout < 0) ∧
    (0 ≤ timeout → roundedUp timeout.toInt ≤ millis.toInt ∨ millis = Int32.maxValue)

instance (timeout : Int64) (millis : Int32) : Decidable (Asks timeout millis) :=
  inferInstanceAs (Decidable (_ ∧ _))

/-- A distance in nanoseconds of which the cast leaves enough. -/
def Fits (distance : ℤ) : Prop :=
  distance ≤ (2 ^ 31 - 1) * 1000000 ∨ roundedUp distance % 2 ^ 32 = 2 ^ 31 - 1

/-- The earliest of the deadlines is so near that its distance survives the cast, or there is no
deadline, or the sleep is a short one because the scheduler stops. -/
def Look.Near (look : Look) : Prop :=
  look.stopping = true ∨ ∃ d ∈ look.deadlines, (∀ e ∈ look.deadlines, d ≤ e) ∧
    (d = kNoDeadline ∨ Fits (d.toInt - look.now.toInt))

/-- Rounding up adds less than a millisecond. -/
theorem roundedUp_bounds (ns : ℤ) : ns ≤ roundedUp ns * 1000000 ∧
    roundedUp ns * 1000000 < ns + 1000000 := by
  rw [roundedUp]
  omega

/-! ### The argument of the kernel's call -/

theorem toInt_kMillisecond : kMillisecond.toInt = 1000000 := rfl

/-- The quotient and the comparison round up. -/
theorem toInt_millisOf {timeout : Int64} (h : 0 ≤ timeout) :
    (millisOf timeout).toInt = (roundedUp timeout.toInt).bmod (2 ^ 32) := by
  have hnonneg : 0 ≤ timeout.toInt := Int64.le_iff_toInt_le.mp h
  have hlt := timeout.toInt_lt
  have hdiv : (timeout / kMillisecond).toInt = timeout.toInt / 1000000 := by
    rw [Int64.toInt_div_of_ne_right _ _ (by decide), toInt_kMillisecond,
      Int.tdiv_eq_ediv_of_nonneg hnonneg]
  have hmul : (timeout / kMillisecond * kMillisecond).toInt = timeout.toInt / 1000000 * 1000000 := by
    rw [Int64.toInt_mul, hdiv, toInt_kMillisecond]
    exact Int.bmod_eq_of_le (by omega) (by omega)
  rw [millisOf, if_pos h, Int64.toInt_toInt32, Int64.toInt_add, hdiv]
  by_cases hlow : timeout / kMillisecond * kMillisecond < timeout
  · rw [if_pos hlow]
    have hless := Int64.lt_iff_toInt_lt.mp hlow
    rw [hmul] at hless
    have hround : roundedUp timeout.toInt = timeout.toInt / 1000000 + 1 := by
      rw [roundedUp]
      omega
    rw [Int64.toInt_one, ← hround,
      Int.bmod_eq_of_le (n := roundedUp timeout.toInt) (m := 2 ^ 64) (by omega) (by omega)]
  · rw [if_neg hlow]
    have hless := mt Int64.lt_iff_toInt_lt.mpr hlow
    rw [hmul] at hless
    have hround : roundedUp timeout.toInt = timeout.toInt / 1000000 := by
      rw [roundedUp]
      omega
    rw [Int64.toInt_zero, Int.add_zero, ← hround,
      Int.bmod_eq_of_le (n := roundedUp timeout.toInt) (m := 2 ^ 64) (by omega) (by omega)]

/-- A 32-bit register that is read back signed holds a count, or its own largest value in place of
a greater count, exactly when the count is small or comes round to that value. -/
theorem bmod_ge_iff {c : ℤ} (hc : 0 ≤ c) :
    (0 ≤ c.bmod (2 ^ 32) ∧ (c ≤ c.bmod (2 ^ 32) ∨ c.bmod (2 ^ 32) = 2 ^ 31 - 1)) ↔
      c ≤ 2 ^ 31 - 1 ∨ c % 2 ^ 32 = 2 ^ 31 - 1 := by
  rw [Int.bmod_def]
  split <;> omega

/-- The argument asks for a finite timeout exactly when the cast leaves enough of it. -/
theorem asks_millisOf_iff {timeout : Int64} (h : 0 ≤ timeout) :
    Asks timeout (millisOf timeout) ↔ Fits timeout.toInt := by
  have hnonneg : 0 ≤ timeout.toInt := Int64.le_iff_toInt_le.mp h
  have hbounds := roundedUp_bounds timeout.toInt
  have hmillis : (millisOf timeout < 0 ↔ timeout < 0) ↔ 0 ≤ (millisOf timeout).toInt := by
    rw [Int32.lt_iff_toInt_lt, Int64.lt_iff_toInt_lt, Int32.toInt_zero, Int64.toInt_zero]
    omega
  have hmax : millisOf timeout = Int32.maxValue ↔ (millisOf timeout).toInt = 2 ^ 31 - 1 := by
    rw [← Int32.toInt_inj, Int32.toInt_maxValue]
  have hcast := bmod_ge_iff (c := roundedUp timeout.toInt) (by omega)
  rw [← toInt_millisOf h] at hcast
  rw [Asks, hmillis, hmax, Fits]
  constructor
  · intro hasks
    have := hcast.mp ⟨hasks.1, hasks.2 h⟩
    omega
  · intro hfits
    have := hcast.mpr (by omega)
    exact ⟨this.1, fun _ ↦ this.2⟩

/-- A wait without a timeout is passed on as one. -/
theorem asks_millisOf_forever : Asks (-1) (millisOf (-1)) :=
  ⟨by decide, fun h ↦ absurd h (by decide)⟩

/-! ### The deadline that is waited for -/

theorem earlier_le_left (a b : Int64) : earlier a b ≤ a := by
  rw [earlier]
  split
  · exact Int64.le_refl a
  · exact Int64.not_lt.mp ‹_›

theorem earlier_le_right (a b : Int64) : earlier a b ≤ b := by
  rw [earlier]
  split
  · exact Int64.le_of_lt ‹_›
  · exact Int64.le_refl b

theorem earlier_eq_or (a b : Int64) : earlier a b = a ∨ earlier a b = b := by
  rw [earlier]
  split
  · exact .inl rfl
  · exact .inr rfl

/-- The loop over the queues finds one of the deadlines, and no other is before it. -/
theorem foldl_earlier (queues : List Int64) (start : Int64) :
    let least := queues.foldl (fun earliest mine ↦ earlier mine earliest) start
    least ∈ start :: queues ∧ ∀ e ∈ start :: queues, least ≤ e := by
  induction queues generalizing start with
  | nil => exact ⟨List.mem_singleton_self start, fun e he ↦ by
      rw [List.mem_singleton.mp he]
      exact Int64.le_refl start⟩
  | cons mine queues ih =>
    obtain ⟨hmem, hle⟩ := ih (earlier mine start)
    have hfirst := hle _ List.mem_cons_self
    refine ⟨?_, ?_⟩
    · rcases List.mem_cons.mp hmem with heq | hmem
      · rw [List.foldl_cons, heq]
        rcases earlier_eq_or mine start with h | h <;> rw [h] <;> simp
      · exact List.mem_cons_of_mem _ (List.mem_cons_of_mem _ hmem)
    · intro e he
      rcases List.mem_cons.mp he with rfl | he
      · exact Int64.le_trans hfirst (earlier_le_right mine e)
      rcases List.mem_cons.mp he with rfl | he
      · exact Int64.le_trans hfirst (earlier_le_left e start)
      · exact hle e (List.mem_cons_of_mem _ he)

theorem le_kNoDeadline (d : Int64) : d ≤ kNoDeadline := by
  have := d.toInt_lt
  rw [Int64.le_iff_toInt_le, kNoDeadline, Int64.toInt_maxValue]
  omega

theorem getD_nextDeadline (queues : List Int64) : (nextDeadline queues).getD kNoDeadline =
    queues.foldl (fun earliest mine ↦ earlier mine earliest) kNoDeadline := by
  rw [nextDeadline]
  split
  · exact Eq.symm ‹_›
  · rfl

namespace Look

/-- No deadline is before `wakeAt`. -/
theorem wakeAt_le (look : Look) {e : Int64} (he : e ∈ look.deadlines) : look.wakeAt ≤ e := by
  obtain ⟨-, hle⟩ := foldl_earlier look.queues kNoDeadline
  rw [wakeAt, getD_nextDeadline]
  rcases List.mem_cons.mp he with rfl | he
  · exact earlier_le_left _ _
  · exact Int64.le_trans (earlier_le_right _ _) (hle e (List.mem_cons_of_mem _ he))

/-- `wakeAt` is a deadline, or there is none. -/
theorem wakeAt_mem (look : Look) : look.wakeAt ∈ look.deadlines ∨ look.wakeAt = kNoDeadline := by
  obtain ⟨hmem, -⟩ := foldl_earlier look.queues kNoDeadline
  rw [wakeAt, getD_nextDeadline]
  rcases earlier_eq_or look.rampUpDeadline
    (look.queues.foldl (fun earliest mine ↦ earlier mine earliest) kNoDeadline) with h | h
  · rw [h]
    exact .inl List.mem_cons_self
  rw [h]
  rcases List.mem_cons.mp hmem with h | h
  · exact .inr h
  · exact .inl (List.mem_cons_of_mem _ h)

/-- `wakeAt` is the earliest deadline. -/
theorem wakeAt_eq_iff (look : Look) (d : Int64) :
    look.wakeAt = d ↔ d ∈ look.deadlines ∧ ∀ e ∈ look.deadlines, d ≤ e := by
  constructor
  · rintro rfl
    refine ⟨?_, fun e ↦ look.wakeAt_le⟩
    rcases look.wakeAt_mem with h | h
    · exact h
    · have hle := look.wakeAt_le List.mem_cons_self
      rw [h] at hle
      rw [h, Int64.le_antisymm hle (le_kNoDeadline _)]
      exact List.mem_cons_self
  · rintro ⟨hmem, hle⟩
    have hless := look.wakeAt_le hmem
    rcases look.wakeAt_mem with h | h
    · exact Int64.le_antisymm hless (hle _ h)
    · exact Int64.le_antisymm hless (h ▸ le_kNoDeadline d)

/-- The condition is about `wakeAt`. -/
theorem near_iff (look : Look) : look.Near ↔ look.stopping = true ∨ look.wakeAt = kNoDeadline ∨
    Fits (look.wakeAt.toInt - look.now.toInt) := by
  rw [Near]
  refine or_congr_right ⟨?_, ?_⟩
  · rintro ⟨d, hmem, hle, h⟩
    rwa [(look.wakeAt_eq_iff d).mpr ⟨hmem, hle⟩]
  · intro h
    obtain ⟨hmem, hle⟩ := (look.wakeAt_eq_iff look.wakeAt).mp rfl
    exact ⟨_, hmem, hle, h⟩

/-- The distance of the earliest deadline, which two instants of the clock cannot overflow. -/
theorem toInt_distance (look : Look) (h : look.now < look.wakeAt) :
    (look.wakeAt - look.now).toInt = look.wakeAt.toInt - look.now.toInt :=
  Int64.toInt_sub_of_le _ _ look.started (Int64.le_of_lt h)

/-- When the scheduler stops, the timeout is a millisecond at most, and never infinite. -/
theorem timeout_of_stopping (look : Look) (h : look.stopping = true) :
    0 ≤ look.timeout ∧ look.timeout ≤ kMillisecond := by
  simp only [timeout]
  generalize (if look.wakeAt ≠ kNoDeadline then
    if look.now < look.wakeAt then look.wakeAt - look.now else 0 else -1) = wanted
  split
  · exact ⟨by decide, Int64.le_refl _⟩
  · rename_i hshort
    have hin := not_or.mp (not_and.mp hshort h)
    exact ⟨Int64.not_lt.mp hin.1, Int64.not_lt.mp hin.2⟩

/-- Else it is the distance of the earliest deadline. -/
theorem timeout_of_running (look : Look) (h : look.stopping = false) :
    look.timeout = if look.wakeAt ≠ kNoDeadline then
      if look.now < look.wakeAt then look.wakeAt - look.now else 0 else -1 := by
  simp [timeout, h]

/-- The timeout asks for an infinite wait only when nothing is to be waited for. -/
theorem timeout_neg_iff (look : Look) :
    look.timeout < 0 ↔ look.stopping = false ∧ look.wakeAt = kNoDeadline := by
  cases hstop : look.stopping with
  | true =>
    have h := (look.timeout_of_stopping hstop).1
    simpa using h
  | false =>
    rw [look.timeout_of_running hstop]
    split
    · rename_i hne
      refine iff_of_false (fun hneg ↦ ?_) (fun h ↦ hne h.2)
      split at hneg
      · rename_i hlt
        have hless := Int64.lt_iff_toInt_lt.mp hlt
        rw [Int64.lt_iff_toInt_lt, look.toInt_distance hlt, Int64.toInt_zero] at hneg
        omega
      · exact absurd hneg (by decide)
    · exact iff_of_true (by decide) ⟨rfl, not_not.mp ‹_›⟩

theorem fits_of_le {distance : ℤ} (h : distance ≤ 1000000) : Fits distance :=
  .inl (by omega)

/-- The timeout survives the cast exactly when the deadline is near. -/
theorem fits_timeout_iff (look : Look) (h : 0 ≤ look.timeout) :
    Fits look.timeout.toInt ↔ look.Near := by
  have hfinite := mt look.timeout_neg_iff.mpr (Int64.not_lt.mpr h)
  rw [near_iff]
  cases hstop : look.stopping with
  | true =>
    have hle := Int64.le_iff_toInt_le.mp (look.timeout_of_stopping hstop).2
    rw [toInt_kMillisecond] at hle
    exact iff_of_true (fits_of_le hle) (.inl rfl)
  | false =>
    have hne : look.wakeAt ≠ kNoDeadline := fun heq ↦ hfinite ⟨hstop, heq⟩
    rw [look.timeout_of_running hstop, if_pos hne]
    split
    · rename_i hlt
      rw [look.toInt_distance hlt]
      simp [hne]
    · rename_i hle
      have hless := Int64.le_iff_toInt_le.mp (Int64.not_lt.mp hle)
      refine iff_of_true (fits_of_le (by rw [Int64.toInt_zero]; omega)) (.inr (.inr ?_))
      exact fits_of_le (by omega)

/-- **What the pollers pass to the kernel asks for what the worker asked for exactly when the
earliest deadline is near.** -/
theorem keeps_deadlines_iff (look : Look) :
    (Asks look.timeout (EpollPoller.millis look.timeout) ∧
      Asks look.timeout (PollPoller.millis look.timeout)) ↔ look.Near := by
  rw [EpollPoller.millis, PollPoller.millis, and_self_iff]
  by_cases h : look.timeout < 0
  · obtain ⟨hstop, hnone⟩ := look.timeout_neg_iff.mp h
    have hforever : look.timeout = -1 := by
      rw [look.timeout_of_running hstop, if_neg (not_not.mpr hnone)]
    rw [hforever]
    exact iff_of_true asks_millisOf_forever (look.near_iff.mpr (.inr (.inl hnone)))
  · rw [asks_millisOf_iff (Int64.not_lt.mp h), look.fits_timeout_iff (Int64.not_lt.mp h)]

/-- A sleep for a near deadline that is not cut off at the largest argument reaches the deadline. -/
theorem reaches_wakeAt (look : Look) (hnear : look.Near) (hrun : look.stopping = false)
    (hsome : look.wakeAt ≠ kNoDeadline) :
    look.wakeAt.toInt ≤ look.now.toInt + (EpollPoller.millis look.timeout).toInt * 1000000 ∨
      EpollPoller.millis look.timeout = Int32.maxValue := by
  have hfinite : 0 ≤ look.timeout :=
    Int64.not_lt.mp fun h ↦ hsome (look.timeout_neg_iff.mp h).2
  have hasks := ((asks_millisOf_iff hfinite).mpr ((look.fits_timeout_iff hfinite).mpr hnear)).2
  refine (hasks hfinite).imp_left fun hlong ↦ ?_
  have hround := (roundedUp_bounds look.timeout.toInt).1
  have hless : look.wakeAt.toInt - look.now.toInt ≤ look.timeout.toInt := by
    rw [look.timeout_of_running hrun, if_pos hsome]
    split
    · rename_i hlt
      exact Int.le_of_eq (look.toInt_distance hlt).symm
    · rename_i hle
      have := Int64.le_iff_toInt_le.mp (Int64.not_lt.mp hle)
      rw [Int64.toInt_zero]
      omega
  change _ ≤ _ + (millisOf look.timeout).toInt * 1000000
  omega

/-- A deadline `2 ^ 31` milliseconds away is waited for without an end, and one that is `2 ^ 32`
milliseconds away is not waited for at all. -/
theorem far_deadlines_lost :
    let now : Int64 := 1000000000
    let hang : Look := ⟨[now + 2147483648000000], kNoDeadline, now, false, by decide⟩
    let spin : Look := ⟨[now + 4294967296000000], kNoDeadline, now, false, by decide⟩
    (hang.timeout = 2147483648000000 ∧ EpollPoller.millis hang.timeout < 0 ∧
      ¬ Asks hang.timeout (EpollPoller.millis hang.timeout) ∧
      ¬ Asks hang.timeout (PollPoller.millis hang.timeout)) ∧
    spin.timeout = 4294967296000000 ∧ EpollPoller.millis spin.timeout = 0 ∧
      ¬ Asks spin.timeout (EpollPoller.millis spin.timeout) ∧
      ¬ Asks spin.timeout (PollPoller.millis spin.timeout) := by
  decide

end Look

end Stackfull.Io
