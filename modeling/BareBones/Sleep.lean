-- `syscall_sleep`: a loop of yields until enough seconds went by on a clock that
-- starts again at midnight. It tells elapsed seconds apart only within one day.
import Mathlib.Data.List.Basic

namespace bare_bones.syscalls

/-- `getTime`: hours, minutes and seconds of the clock, `now` seconds after some
midnight. -/
def getTime (now : Nat) : Nat × Nat × Nat := (now / 3600 % 24, now / 60 % 60, now % 60)

/-- The time of day, three hours behind the clock. -/
def syscall_seconds (now : Nat) : UInt32 :=
  let (h, m, s) := getTime now
  UInt32.ofNat (s + m * 60 + ((h + 24 - 3) % 24) * 3600)

/-- The test of the loop. The sums are those of `uint32_t`. -/
def stillSleeps (start s : UInt32) (now : Nat) : Bool :=
  (syscall_seconds now + 86400 - start) % 86400 < s

/-- The loop, with the clock at each poll. Gives the index of the poll that it
stops at, or `none` when it still sleeps after all of them. -/
def sleepLoop (start s : UInt32) : List Nat → Option Nat
  | [] => none
  | now :: polls =>
    if stillSleeps start s now then (sleepLoop start s polls).map (· + 1) else some 0

/-- `syscall_sleep` called `start` seconds after some midnight. For 0 seconds it
returns before the first poll. -/
def syscall_sleep (s : UInt32) (start : Nat) (polls : List Nat) : Option Nat :=
  if s = 0 then some 0 else sleepLoop (syscall_seconds start) s polls

/-! ## The clock -/

theorem syscall_seconds_toNat (now : Nat) :
    (syscall_seconds now).toNat = (now + 75600) % 86400 := by
  have hsum : now % 60 + now / 60 % 60 * 60 + ((now / 3600 % 24 + 24 - 3) % 24) * 3600 =
      (now + 75600) % 86400 := by omega
  have hlt : (now + 75600) % 86400 < 2 ^ 32 :=
    Nat.lt_trans (Nat.mod_lt _ (by decide)) (by decide)
  simp only [syscall_seconds, getTime, hsum]
  exact UInt32.toNat_ofNat_of_lt' hlt

/-- What the test compares is the time since the start, less whole days. -/
theorem elapsed_toNat {start now : Nat} (h : start ≤ now) :
    ((syscall_seconds now + 86400 - syscall_seconds start) % 86400).toNat =
      (now - start) % 86400 := by
  have hstart := syscall_seconds_toNat start
  have hnow := syscall_seconds_toNat now
  have hday : (86400 : UInt32).toNat = 86400 := rfl
  rw [UInt32.toNat_mod, UInt32.toNat_sub, UInt32.toNat_add, hstart, hnow, hday]
  omega

theorem stillSleeps_iff {start now : Nat} (h : start ≤ now) (s : UInt32) :
    stillSleeps (syscall_seconds start) s now = true ↔ (now - start) % 86400 < s.toNat := by
  rw [stillSleeps, decide_eq_true_iff, UInt32.lt_iff_toNat_lt, elapsed_toNat h]

/-! ## The loop -/

theorem sleepLoop_eq (start s : UInt32) (polls : List Nat) :
    sleepLoop start s polls = polls.findIdx? (fun now => ¬ stillSleeps start s now) := by
  induction polls with
  | nil => rfl
  | cons now polls ih =>
    rw [sleepLoop, List.findIdx?_cons, ih]
    cases stillSleeps start s now <;> simp

/-- Each poll made fewer than `s` seconds after the start finds the loop asleep,
and the first one made `s` seconds after it or later ends it. -/
structure HonoursSleep (s : UInt32) (start : Nat) (polls : List Nat) : Prop where
  keeps : ∀ i t, polls[i]? = some t → t < start + s.toNat → syscall_sleep s start polls ≠ some i
  stops : ∀ i, polls.findIdx? (fun t => start + s.toNat ≤ t) = some i →
    syscall_sleep s start polls = some i

/-- The first poll made `s` seconds after the start, or later, comes while the time
of day still shows that many seconds. -/
def wakesInTime (s : UInt32) (start : Nat) (polls : List Nat) : Prop :=
  ∀ t ∈ polls.find? (fun t => start + s.toNat ≤ t), s.toNat ≤ (t - start) % 86400

instance (s : UInt32) (start : Nat) (polls : List Nat) :
    Decidable (wakesInTime s start polls) :=
  inferInstanceAs (Decidable (∀ t ∈ polls.find? _, s.toNat ≤ (t - start) % 86400))

/-- The loop stops at the first poll that shows `s` seconds less whole days. -/
theorem syscall_sleep_some {s : UInt32} {start : Nat} {polls : List Nat} (hs : s ≠ 0)
    (h : ∀ t ∈ polls, start ≤ t) (i : Nat) :
    syscall_sleep s start polls = some i ↔ ∃ hi : i < polls.length,
      s.toNat ≤ (polls[i] - start) % 86400 ∧
        ∀ j (hj : j < i), (polls[j] - start) % 86400 < s.toNat := by
  have hawake : ∀ t ∈ polls, (decide (¬ stillSleeps (syscall_seconds start) s t = true) = true ↔
      s.toNat ≤ (t - start) % 86400) := by
    intro t ht
    rw [decide_eq_true_iff, stillSleeps_iff (h t ht), Nat.not_lt]
  rw [syscall_sleep, if_neg hs, sleepLoop_eq, List.findIdx?_eq_some_iff_getElem]
  apply exists_congr
  intro hi
  rw [hawake _ (List.getElem_mem hi)]
  apply and_congr_right
  intro _
  apply forall₂_congr
  intro j hj
  rw [hawake _ (List.getElem_mem (Nat.lt_trans hj hi)), Nat.not_le]

/-- What is seen within the first day is seen in time. -/
theorem wakesInTime_of_polled {s : UInt32} {start : Nat} {polls : List Nat}
    (hpolled : ∀ t ∈ polls.find? (fun t => start + s.toNat ≤ t), t < start + 86400) :
    wakesInTime s start polls := by
  intro t ht
  have hlate : start + s.toNat ≤ t := by
    simpa using List.find?_some (Option.mem_def.mp ht)
  have := hpolled t ht
  rw [Nat.mod_eq_of_lt (by omega)]
  omega

/-- `syscall_sleep` honours its argument exactly when the first poll made late enough
shows it. -/
theorem sleep_honours_iff (s : UInt32) (start : Nat) (polls : List Nat)
    (hlater : ∀ t ∈ polls, start ≤ t) :
    HonoursSleep s start polls ↔ wakesInTime s start polls := by
  by_cases hs : s = 0
  · subst hs
    refine ⟨fun _ t _ => Nat.zero_le _, fun _ => ⟨fun i t hi ht => ?_, fun i hi => ?_⟩⟩
    · have := hlater t (List.mem_of_getElem? hi)
      simp at ht
      omega
    · cases polls with
      | nil => simp at hi
      | cons t polls =>
        have hstart : start ≤ t := hlater t List.mem_cons_self
        simpa [List.findIdx?_cons, hstart, syscall_sleep] using hi
  · constructor
    · intro hhonours t ht
      obtain ⟨hlate, i, hi, rfl, hearly⟩ :=
        List.find?_eq_some_iff_getElem.mp (Option.mem_def.mp ht)
      have hstop := hhonours.stops i
        (List.findIdx?_eq_some_iff_getElem.mpr ⟨hi, hlate, fun j hj => by simpa using hearly j hj⟩)
      obtain ⟨_, hshown, _⟩ := (syscall_sleep_some hs hlater i).mp hstop
      exact hshown
    · intro hwakes
      refine ⟨fun i t hi ht hstop => ?_, fun i hfirst => ?_⟩
      · obtain ⟨hlen, hshown, _⟩ := (syscall_sleep_some hs hlater i).mp hstop
        obtain rfl : polls[i] = t := by simpa [hlen] using hi
        have := Nat.mod_le (polls[i] - start) 86400
        have := hlater _ (List.getElem_mem hlen)
        omega
      · obtain ⟨hlen, hlate, hearly⟩ := List.findIdx?_eq_some_iff_getElem.mp hfirst
        have hfind : polls.find? (fun t => start + s.toNat ≤ t) = some polls[i] :=
          List.find?_eq_some_iff_getElem.mpr
            ⟨hlate, i, hlen, rfl, fun j hj => by simpa using hearly j hj⟩
        refine (syscall_sleep_some hs hlater i).mpr ⟨hlen, hwakes _ hfind, fun j hj => ?_⟩
        have := Nat.mod_le (polls[j] - start) 86400
        have := hlater _ (List.getElem_mem (Nat.lt_trans hj hlen))
        have := hearly j hj
        simp only [decide_eq_true_eq] at this
        omega

theorem sleep_honours_two_seconds_over_midnight :
    HonoursSleep 2 86399 [86399, 86400, 86401] :=
  (sleep_honours_iff 2 86399 [86399, 86400, 86401] (by simp)).mpr
    (wakesInTime_of_polled (by decide))

/-- A whole day is never over: the poll made 86 400 seconds after the start shows 0. -/
theorem sleep_of_a_day_never_ends : ¬ HonoursSleep 86400 0 [1, 86399, 86400] := by
  intro hhonours
  have hstop : syscall_sleep 86400 0 [1, 86399, 86400] = some 2 := hhonours.stops 2 (by decide)
  simp [syscall_sleep, sleepLoop, stillSleeps, syscall_seconds, getTime] at hstop

end bare_bones.syscalls
