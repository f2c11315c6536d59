import BrkKernel.Mm.FileRead

/-!
# Sleeping for a time

`sys_nanosleep` and `sys_clock_nanosleep` of `kern/systime.c` over `timekeeper_nanosleep`. The time
that is asked for becomes a number of nanoseconds, which is added to the clock in signed 64-bit
arithmetic. The clock itself is a natural number that never goes back; the code sees it through
`s64`.

A relative sleep is too short on some clock exactly when the sum of the clock and the time leaves
the range, and an absolute one also when the clock that is read again can come so far that its sum
with the time left does: `sleep_long_iff`.
-/

set_option autoImplicit false

namespace BrkKernel.Kern

open Mm

/-! ## The calls -/

/-- `struct timespec`. -/
structure Timespec where
  sec : Int
  nsec : Int

/-- `NS_PER_SEC`. -/
def nsPerSec : Int := 1000000000

/-- The test both calls make. -/
def Timespec.Valid (ts : Timespec) : Prop := 0 ≤ ts.sec ∧ 0 ≤ ts.nsec ∧ ts.nsec < nsPerSec

instance (ts : Timespec) : Decidable ts.Valid := inferInstanceAs (Decidable (_ ∧ _))

/-- The nanoseconds of `ts`, in no machine word. -/
def Timespec.ns (ts : Timespec) : Int := ts.sec * nsPerSec + ts.nsec

/-- `ktime_from_timespec`. -/
def ktimeFromTimespec (ts : Timespec) : Int := s64 (s64 (ts.sec * nsPerSec) + ts.nsec)

/-- `ktime_to_timespec`. -/
def ktimeToTimespec (t : Int) : Timespec := ⟨t.tdiv nsPerSec, t.tmod nsPerSec⟩

/-- What a call meets at its `n`-th read of the clock: the time since boot, `wall_offset_ns`, and
whether the task was killed before that read. -/
structure Clock where
  mono : Nat → Nat
  offset : Nat → Int
  killed : Nat → Bool
  mono_le : ∀ {n k}, n ≤ k → mono n ≤ mono k
  offset_le : ∀ {n k}, n ≤ k → offset n ≤ offset k

/-- `(s64)timekeeper_mono_ns()`. -/
def Clock.monoNs (c : Clock) (n : Nat) : Int := s64 (c.mono n)

/-- `timekeeper_real`. -/
def Clock.real (c : Clock) (n : Nat) : Int := s64 (c.monoNs n + c.offset n)

/-- The loop of `timekeeper_nanosleep`: the time that is left if the task was killed, and the number
of the last read. -/
def sleepLoop (c : Clock) (deadline : Int) : Nat → Nat → Option (Option Int × Nat)
  | 0, _ => none
  | fuel + 1, n =>
    if c.killed n then some (some (max (s64 (deadline - c.monoNs n)) 0), n)
    else if deadline ≤ c.monoNs n then some (none, n)
    else sleepLoop c deadline fuel (n + 1)

/-- `timekeeper_nanosleep`, whose first read of the clock is the `n`-th. -/
def timekeeperNanosleep (c : Clock) (dur : Int) (fuel n : Nat) : Option (Option Int × Nat) :=
  sleepLoop c (s64 (c.monoNs n + dur)) fuel (n + 1)

/-- How a call ends: its result, what it stores at `urem`, and its last read of the clock. -/
structure SleepEnd where
  ret : Except Errno Unit
  rem : Option Timespec
  last : Nat

/-- After the sleep. `urem` is `none` for a null pointer, and else whether it can be written. -/
def storeRem (urem : Option Bool) : Option Int × Nat → SleepEnd
  | (none, n) => ⟨.ok (), none, n⟩
  | (some left, n) =>
    if urem = some true then ⟨.error .eintr, some (ktimeToTimespec left), n⟩
    else ⟨.error (if urem = none then .eintr else .efault), none, n⟩

/-- `sys_nanosleep`; `req` is what `copy_from_user` gives. -/
def sysNanosleep (c : Clock) (req : Option Timespec) (urem : Option Bool) (fuel : Nat) :
    Option SleepEnd :=
  match req with
  | none => some ⟨.error .efault, none, 0⟩
  | some ts =>
    if ¬ts.Valid then some ⟨.error .einval, none, 0⟩
    else (timekeeperNanosleep c (ktimeFromTimespec ts) fuel 0).map (storeRem urem)

/-- `CLOCK_REALTIME`. -/
def clockRealtime : Int := 0

/-- `CLOCK_MONOTONIC`. -/
def clockMonotonic : Int := 1

/-- `CLOCK_BOOTTIME`. -/
def clockBoottime : Int := 7

/-- `TIMER_ABSTIME`, the lowest bit. -/
def timerAbstime : Int := 1

/-- `sys_clock_nanosleep`. -/
def sysClockNanosleep (c : Clock) (clockid flags : Int) (req : Option Timespec)
    (urem : Option Bool) (fuel : Nat) : Option SleepEnd :=
  -- `flags & ~TIMER_ABSTIME`
  if flags ≠ 0 ∧ flags ≠ timerAbstime then some ⟨.error .einval, none, 0⟩
  else if clockid ≠ clockRealtime ∧ clockid ≠ clockMonotonic ∧ clockid ≠ clockBoottime then
    some ⟨.error .einval, none, 0⟩
  else match req with
  | none => some ⟨.error .efault, none, 0⟩
  | some ts =>
    if ¬ts.Valid then some ⟨.error .einval, none, 0⟩
    else if flags = timerAbstime then
      let now := if clockid = clockRealtime then c.real 0 else c.monoNs 0
      let duration := s64 (ktimeFromTimespec ts - now)
      if duration ≤ 0 then some ⟨.ok (), none, 0⟩
      else (timekeeperNanosleep c duration fuel 1).map (storeRem none)
    else (timekeeperNanosleep c (ktimeFromTimespec ts) fuel 0).map (storeRem urem)

/-! ## What a sleep of `timekeeper_nanosleep` is worth -/

theorem s64_of_mem {x : Int} (hle : -2 ^ 63 ≤ x) (hlt : x < 2 ^ 63) : s64 x = x := by
  unfold s64
  omega

theorem s64_mem (x : Int) : -2 ^ 63 ≤ s64 x ∧ s64 x < 2 ^ 63 := by
  unfold s64
  omega

/-- Above the range a value only gets smaller. -/
theorem s64_le {x : Int} (hle : -2 ^ 63 ≤ x) : s64 x ≤ x := by
  unfold s64
  omega

theorem s64_add_s64 (x y : Int) : s64 (x + s64 y) = s64 (x + y) := by
  rw [add_comm, s64_s64_add, add_comm]

theorem Timespec.Valid.ns_nonneg {ts : Timespec} (hts : ts.Valid) : 0 ≤ ts.ns :=
  Int.add_nonneg (Int.mul_nonneg hts.1 (by decide)) hts.2.1

theorem ktimeFromTimespec_eq (ts : Timespec) : ktimeFromTimespec ts = s64 ts.ns :=
  s64_s64_add _

theorem Clock.monoNs_add (c : Clock) {n e : Nat} {m : Nat} (h : c.mono n = m + e) :
    c.monoNs n = s64 (s64 m + e) := by
  rw [s64_s64_add, monoNs, h]
  push_cast
  rfl

section Loop

variable {c : Clock} {deadline t : Int} {fuel n k : Nat}

/-- A loop that ends by itself ends with a reading at or after the deadline. -/
theorem sleepLoop_spec (h : sleepLoop c deadline fuel n = some (none, k)) :
    n ≤ k ∧ deadline ≤ c.monoNs k := by
  induction fuel generalizing n with
  | zero => cases h
  | succ fuel ih =>
    rw [sleepLoop] at h
    split at h
    · cases h
    split at h
    case isTrue hd =>
      cases h
      exact ⟨le_rfl, hd⟩
    case isFalse =>
      obtain ⟨hk, hd⟩ := ih h
      exact ⟨by omega, hd⟩

theorem timekeeperNanosleep_s64 (t : Int) :
    timekeeperNanosleep c (s64 t) fuel n = timekeeperNanosleep c t fuel n := by
  rw [timekeeperNanosleep, timekeeperNanosleep, s64_add_s64]

/-- If the deadline is in the range, the clock does not get there in less than `t`. -/
theorem timekeeperNanosleep_long (ht : 0 ≤ t) (hlt : c.monoNs n + t < 2 ^ 63)
    (h : timekeeperNanosleep c t fuel n = some (none, k)) : c.mono n + t ≤ c.mono k := by
  obtain ⟨hk, hd⟩ := sleepLoop_spec h
  obtain ⟨e, he⟩ := Nat.le.dest (c.mono_le (Nat.le_of_succ_le hk))
  have hn : -2 ^ 63 ≤ c.monoNs n := (s64_mem _).1
  have hle : c.monoNs k ≤ c.monoNs n + e := by
    rw [c.monoNs_add he.symm]
    exact s64_le (by rw [← Clock.monoNs]; omega)
  rw [s64_of_mem (by omega) hlt] at hd
  omega

/-- The clock that reads `m`, then `m + a`, and then always `m + a + b`. -/
def Clock.jump (m a b : Nat) (off : Int) : Clock where
  mono n := m + (if 1 ≤ n then a else 0) + (if 2 ≤ n then b else 0)
  offset _ := off
  killed _ := false
  mono_le := by
    intro i j h
    split <;> split <;> split <;> split <;> omega
  offset_le _ := le_rfl

theorem Clock.jump_monoNs (m a b : Nat) (off : Int) : (jump m a b off).monoNs 0 = s64 m ∧
    (jump m a b off).monoNs 1 = s64 (s64 m + a) ∧
    (jump m a b off).monoNs 2 = s64 (s64 m + a + b) := by
  simp [jump, monoNs, add_assoc, s64_s64_add]

/-- With that clock a sleep ends with the read after its first if the deadline is there. -/
theorem Clock.jump_sleep {m a b : Nat} {off : Int}
    (h : s64 ((jump m a b off).monoNs n + t) ≤ (jump m a b off).monoNs (n + 1)) :
    timekeeperNanosleep (jump m a b off) t 1 n = some (none, n + 1) := by
  rw [timekeeperNanosleep, sleepLoop, if_neg (by simp [jump]), if_pos h]

/-- Where the sum wraps, the clock gets there in less than `d`. -/
theorem exists_short {x d : Int} (hx : -2 ^ 63 ≤ x) (hlt : x < 2 ^ 63) (hd : 0 < d)
    (h : s64 (x + t) < x + d) : ∃ b : Nat, (b : Int) < d ∧ s64 (x + t) ≤ s64 (x + b) := by
  obtain ⟨hge, hlt'⟩ := s64_mem (x + t)
  rcases le_total (s64 (x + t)) x with hle | hle
  · refine ⟨0, hd, ?_⟩
    rw [Nat.cast_zero, add_zero, s64_of_mem hx hlt]
    exact hle
  · refine ⟨(s64 (x + t) - x).toNat, by omega, ?_⟩
    rw [Int.toNat_of_nonneg (by omega), add_sub_cancel, s64_of_mem hge hlt']

end Loop

/-! ## Which sleeps are long enough -/

/-- The time of the clock `clockid` at the `n`-th read. -/
def Clock.time (c : Clock) (clockid : Int) (n : Nat) : Int :=
  c.mono n + if clockid = clockRealtime then c.offset n else 0

theorem Clock.time_le (c : Clock) {n k : Nat} (hnk : n ≤ k) (clockid : Int) :
    c.time clockid n + (c.mono k - c.mono n) ≤ c.time clockid k := by
  have := c.offset_le hnk
  unfold time
  split <;> omega

/-- At the `n`-th read the time that was asked for has come, or has passed since the first read,
which no call makes before it is entered. -/
def Clock.Slept (c : Clock) (clockid flags : Int) (ts : Timespec) (n : Nat) : Prop :=
  if flags = timerAbstime then ts.ns ≤ c.time clockid n else c.mono 0 + ts.ns ≤ c.mono n

/-- With `m` and `off` on the clock at the first read no sum wraps, whenever the clock is read
again. -/
def SleepFits (m : Nat) (off clockid flags : Int) (ts : Timespec) : Prop :=
  if flags = timerAbstime then
    let left := ts.ns - (m + if clockid = clockRealtime then off else 0)
    left ≤ 0 ∨ left < 2 ^ 63 ∧ s64 m + 2 * left ≤ 2 ^ 63
  else s64 m + ts.ns < 2 ^ 63

/-- On every clock that shows `m` and `off` at first, `call` returns `0` only once `slept`. -/
def NeverEarly (m : Nat) (off : Int) (call : Clock → Option Bool → Nat → Option SleepEnd)
    (slept : Clock → Nat → Prop) : Prop :=
  ∀ c urem fuel r, c.mono 0 = m → c.offset 0 = off → call c urem fuel = some r → r.ret = .ok () →
    slept c r.last

section Fits

variable {c : Clock} {ts : Timespec} {clockid flags : Int} {urem : Option Bool} {fuel m : Nat}
  {off left : Int} {r : SleepEnd}

/-- The clocks `sys_clock_nanosleep` knows. -/
def ClockKnown (clockid : Int) : Prop :=
  clockid = clockRealtime ∨ clockid = clockMonotonic ∨ clockid = clockBoottime

theorem ClockKnown.not_unknown (hid : ClockKnown clockid) :
    ¬(clockid ≠ clockRealtime ∧ clockid ≠ clockMonotonic ∧ clockid ≠ clockBoottime) := by
  unfold ClockKnown at hid
  tauto

theorem map_storeRem_ok {x : Option (Option Int × Nat)} (h : x.map (storeRem urem) = some r)
    (hr : r.ret = .ok ()) : x = some (none, r.last) := by
  obtain ⟨y, rfl, rfl⟩ := Option.map_eq_some_iff.1 h
  rcases y with ⟨_ | left, n⟩
  · rfl
  · rw [storeRem] at hr
    split at hr <;> cases hr

section

variable (hts : ts.Valid)

include hts

theorem sysClockNanosleep_relative (hid : ClockKnown clockid) :
    sysClockNanosleep c clockid 0 (some ts) = sysNanosleep c (some ts) := by
  funext urem fuel
  simp [sysClockNanosleep, sysNanosleep, if_neg hid.not_unknown, hts, timerAbstime]

theorem sysNanosleep_valid :
    sysNanosleep c (some ts) urem fuel =
      (timekeeperNanosleep c ts.ns fuel 0).map (storeRem urem) := by
  simp [sysNanosleep, hts, ktimeFromTimespec_eq, timekeeperNanosleep_s64]

/-- An absolute sleep is a relative one for the time that is left. -/
theorem sysClockNanosleep_absolute (hid : ClockKnown clockid) :
    sysClockNanosleep c clockid timerAbstime (some ts) urem fuel =
      if s64 (ts.ns - c.time clockid 0) ≤ 0 then some ⟨.ok (), none, 0⟩
      else (timekeeperNanosleep c (ts.ns - c.time clockid 0) fuel 1).map (storeRem none) := by
  have hnow : (if clockid = clockRealtime then c.real 0 else c.monoNs 0) =
      s64 (c.time clockid 0) := by
    split <;> simp [Clock.time, Clock.real, Clock.monoNs, s64_s64_add, *]
  have hdur : s64 (s64 ts.ns - s64 (c.time clockid 0)) = s64 (ts.ns - c.time clockid 0) := by
    unfold s64
    omega
  simp [sysClockNanosleep, if_neg hid.not_unknown, hts, hnow, hdur, ktimeFromTimespec_eq,
    timekeeperNanosleep_s64]

/-- A relative sleep: for a time that does not fit there is a clock that ends it early. -/
theorem relative_iff :
    NeverEarly m off (sysNanosleep · (some ts)) (·.Slept clockid 0 ts) ↔
      SleepFits m off clockid 0 ts := by
  have hrel : (0 : Int) ≠ timerAbstime := by decide
  simp only [NeverEarly, Clock.Slept, SleepFits, if_neg hrel, sysNanosleep_valid hts]
  constructor
  · intro h
    by_contra hnot
    obtain ⟨hge, hlt⟩ := s64_mem m
    have hwrap : s64 (s64 m + ts.ns) < s64 m + ts.ns := lt_of_lt_of_le (s64_mem _).2 (by omega)
    obtain ⟨a, ha, hd⟩ := exists_short hge hlt (by omega : 0 < ts.ns) hwrap
    obtain ⟨h0, h1, -⟩ := Clock.jump_monoNs m a 0 off
    have hk := h (.jump m a 0 off) none 1 ⟨.ok (), none, 1⟩ rfl rfl
      (by rw [Clock.jump_sleep (by rw [h0, h1]; exact hd)]; rfl) rfl
    simp [Clock.jump] at hk
    omega
  · rintro hlt c urem fuel r rfl - hr hret
    exact timekeeperNanosleep_long hts.ns_nonneg hlt (map_storeRem_ok hr hret)

end

/-- How far the clock has to come for its sum with the time left to wrap. -/
theorem exists_jump (hpos : 0 < left) (hdur : 0 < s64 left)
    (hnot : ¬(left < 2 ^ 63 ∧ s64 m + 2 * left ≤ 2 ^ 63)) :
    ∃ a : Nat, (a : Int) < left ∧ s64 m + a < 2 ^ 63 ∧
      s64 (s64 m + a + left) < s64 m + a + (left - a) := by
  obtain ⟨hge, hlt⟩ := s64_mem m
  rcases le_or_gt (2 ^ 63) (s64 m + left) with hsum | hsum
  · have := (s64_mem (s64 m + (0 : Nat) + left)).2
    exact ⟨0, by simpa using hpos, by simpa using hlt, by omega⟩
  -- the least reading whose sum with `left` is out of the range
  have hsmall : left < 2 ^ 63 := by
    by_contra hbig
    unfold s64 at hdur hsum hge hlt
    omega
  refine ⟨(2 ^ 63 - left - s64 m).toNat, by omega, by omega, ?_⟩
  have hmin : s64 (2 ^ 63) = -2 ^ 63 := rfl
  rw [Int.toNat_of_nonneg (by omega), add_sub_cancel, sub_add_cancel, hmin]
  omega

/-- Either the clock has passed the time before it is read again, or no sum wraps. -/
theorem absolute_long {k : Nat}
    (hfits : left ≤ 0 ∨ left < 2 ^ 63 ∧ s64 (c.mono 0) + 2 * left ≤ 2 ^ 63)
    (h : timekeeperNanosleep c left fuel 1 = some (none, k)) : c.mono 0 + left ≤ c.mono k := by
  obtain ⟨e, he⟩ := Nat.le.dest (c.mono_le (by omega : 0 ≤ 1))
  have hge : -2 ^ 63 ≤ s64 (c.mono 0) := (s64_mem _).1
  rcases le_or_gt left e with hle | hgt
  · have := c.mono_le (Nat.le_of_succ_le (sleepLoop_spec h).1)
    omega
  · have hread : c.monoNs 1 ≤ s64 (c.mono 0) + e := by
      rw [c.monoNs_add he.symm]
      exact s64_le (by omega)
    have := timekeeperNanosleep_long (by omega) (by omega) h
    omega

/-- An absolute sleep, for `left` at the first read: where it does not fit, the clock that ends it
early jumps before the second read. -/
theorem absolute_iff (hts : ts.Valid) (hid : ClockKnown clockid) :
    NeverEarly m off (sysClockNanosleep · clockid timerAbstime (some ts))
      (·.Slept clockid timerAbstime ts) ↔ SleepFits m off clockid timerAbstime ts := by
  simp only [NeverEarly, Clock.Slept, SleepFits, if_pos, sysClockNanosleep_absolute hts hid]
  constructor
  · intro h
    by_contra! hnot
    obtain ⟨hpos, hnot⟩ := hnot
    set left := ts.ns - (m + if clockid = clockRealtime then off else 0) with hleft
    have htime : ∀ a b, ts.ns - (Clock.jump m a b off).time clockid 0 = left := by
      simp [Clock.jump, Clock.time, hleft]
    rcases le_or_gt (s64 left) 0 with hdur | hdur
    · have hk := h (.jump m 0 0 off) none 0 ⟨.ok (), none, 0⟩ rfl rfl
        (by rw [htime, if_pos hdur]) rfl
      have := htime 0 0
      dsimp only at hk
      omega
    obtain ⟨a, ha, hlt, hwrap⟩ := exists_jump (m := m) hpos hdur (by omega)
    have hge : -2 ^ 63 ≤ s64 m := (s64_mem _).1
    obtain ⟨b, hb, hd⟩ := exists_short (by omega) hlt (by omega : 0 < left - a) hwrap
    obtain ⟨-, h1, h2⟩ := Clock.jump_monoNs m a b off
    rw [s64_of_mem (by omega) hlt] at h1
    have hk := h (.jump m a b off) none 1 ⟨.ok (), none, 2⟩ rfl rfl (by
      rw [htime, if_neg (by omega), Clock.jump_sleep (by rw [h1, h2]; exact hd)]
      rfl) rfl
    simp [Clock.jump, Clock.time] at hk
    omega
  · rintro hfits c urem fuel r rfl rfl hr hret
    change ts.ns - c.time clockid 0 ≤ 0 ∨ ts.ns - c.time clockid 0 < 2 ^ 63 ∧ _ at hfits
    split at hr
    case isTrue hdur =>
      cases hr
      change ts.ns ≤ c.time clockid 0
      rcases hfits with hle | ⟨hlt, -⟩
      · exact Int.le_of_sub_nonpos hle
      · by_contra! hpos
        rw [s64_of_mem (by omega) hlt] at hdur
        omega
    case isFalse =>
      have hk := absolute_long hfits (map_storeRem_ok hr hret)
      have := c.time_le (Nat.zero_le r.last) clockid
      omega

end Fits

/-- Whatever the two calls accept, they never return `0` early if and only if the time that is
asked for fits. -/
theorem sleep_long_iff (ts : Timespec) (hts : ts.Valid) (m : Nat) (off clockid flags : Int)
    (hid : ClockKnown clockid) (hflags : flags = 0 ∨ flags = timerAbstime) :
    (NeverEarly m off (sysNanosleep · (some ts)) (·.Slept clockid 0 ts) ↔
      SleepFits m off clockid 0 ts) ∧
    (NeverEarly m off (sysClockNanosleep · clockid flags (some ts)) (·.Slept clockid flags ts) ↔
      SleepFits m off clockid flags ts) := by
  refine ⟨relative_iff hts, ?_⟩
  rcases hflags with rfl | rfl
  · simp only [sysClockNanosleep_relative hts hid]
    exact relative_iff hts
  · exact absolute_iff hts hid

/-- A second, five nanoseconds after boot. -/
theorem sleep_long_second :
    NeverEarly 5 0 (sysNanosleep · (some ⟨1, 0⟩)) (·.Slept clockMonotonic 0 ⟨1, 0⟩) :=
  (sleep_long_iff ⟨1, 0⟩ (by decide) 5 0 clockMonotonic 0 (.inr (.inl rfl)) (.inl rfl)).1.2
    (show (1000000005 : Int) < 2 ^ 63 by decide)

/-- A sleep of 9223372037 seconds, some 292 years, is over after a nanosecond. -/
theorem sleep_wraps : (⟨9223372037, 0⟩ : Timespec).Valid ∧
    sysNanosleep (.jump 1 1 0 0) (some ⟨9223372037, 0⟩) none 1 = some ⟨.ok (), none, 1⟩ ∧
    (Clock.jump 1 1 0 0).mono 1 = (Clock.jump 1 1 0 0).mono 0 + 1 :=
  ⟨by decide, rfl, rfl⟩

end BrkKernel.Kern
