import Dylaris.Schedule.Civil
import Mathlib.Data.Int.LeastGreatest

/-!
# The search returns the earliest run

`nextWallClockRun` walks the calendar days from the start's own, and on each it takes the earliest run
after the start, `isLeast_of_dayRun`.  It returns what the first day with such a run gives.  That is the
earliest run of all when the runs of the days come in the order of the days, and they do except around
midnight: a gap shortly before midnight moves a run into the next day, where a run of that day may be
earlier still.  The search then returns the later of the two and skips the other
(`not_nextWallClockRun_earliest`).  `InOrder` leaves such schedules out.
-/

set_option autoImplicit false

namespace Dylaris.Schedule

open Calendar List Option

variable {s : SpecSchedule} {z : CivilZone} {now day t : Int}

/-- A run of the schedule for a day. -/
def RunOn (s : SpecSchedule) (z : CivilZone) (day t : Int) : Prop :=
  s.matchesDay day = true ∧ ∃ h mi, h < 24 ∧ s.hour.testBit h = true ∧ mi < 60 ∧
    s.minute.testBit mi = true ∧ Resolves z (naive day h mi) s.everyHour t

/-- Where a gap moves runs of a day past midnight, the earliest of them is not later than any run of the
next day. -/
def InOrder (s : SpecSchedule) (z : CivilZone) : Prop :=
  ∀ day t, RunOn s z day t → z.date t = day + 1 →
    ∃ t₁, RunOn s z day t₁ ∧ z.date t₁ = day + 1 ∧ ∀ t', RunOn s z (day + 1) t' → t₁ ≤ t'

variable {h mi i : Nat}

theorem naive_div (hh : h < 24) (hmi : mi < 60) : naive day h mi / 86400 = day := by
  rw [naive]
  omega

theorem RunOn.date (h : RunOn s z day t) : z.date t = day ∨ z.date t = day + 1 := by
  obtain ⟨-, h, mi, hh, -, hmi, -, ht⟩ := h
  exact ht.date (naive_div hh hmi)

/-! ## One day -/

theorem mem_times_of {startH : Nat} (hstart : startH ≤ h) (hh : h < 24)
    (hhour : s.hour.testBit h = true) (hmi : mi < 60) (hminute : s.minute.testBit mi = true) :
    (h, mi) ∈ s.times startH := by
  refine mem_flatMap.mpr ⟨h, ?_, mem_map.mpr ⟨mi, ?_, rfl⟩⟩
  · rw [mem_filter, mem_range, Bool.and_eq_true, decide_eq_true_eq]
    exact ⟨hh, hstart, hhour⟩
  · rw [mem_filter, mem_range]
    exact ⟨hmi, hminute⟩

/-- The times of day are in order. -/
theorem pairwise_times (s : SpecSchedule) (startH : Nat) (day : Int) :
    (s.times startH).Pairwise fun p q ↦ naive day p.1 p.2 < naive day q.1 q.2 := by
  rw [SpecSchedule.times, pairwise_flatMap]
  constructor
  · intro h _
    rw [pairwise_map]
    refine (pairwise_lt_range.filter _).imp fun hlt ↦ ?_
    simp only [naive]
    omega
  · refine (pairwise_lt_range.filter _).imp fun hlt p hp q hq ↦ ?_
    obtain ⟨mi, hmi, rfl⟩ := mem_map.mp hp
    obtain ⟨mi', -, rfl⟩ := mem_map.mp hq
    have hmi := mem_range.mp (mem_filter.mp hmi).1
    simp only [naive]
    omega

/-- On a day without a change a run is its wall time under the day's offset. -/
theorem run_iff_of_steady
    (heq : z.offset (day * 86400 - 129600) = z.offset (day * 86400 + 216000))
    (hday : s.matchesDay day = true) :
    RunOn s z day t ↔ ∃ p ∈ s.times 0, naive day p.1 p.2 - z.offset (day * 86400 - 129600) = t := by
  have hinst : ∀ h mi, h < 24 → mi < 60 →
      (Resolves z (naive day h mi) s.everyHour t ↔
        naive day h mi - z.offset (day * 86400 - 129600) = t) := by
    intro h mi hh hmi
    have hsteady : ∀ u, naive day h mi - 129600 ≤ u → u ≤ naive day h mi + 129600 →
        z.offset u = z.offset (day * 86400 - 129600) := by
      intro u hlo hhi
      rw [naive] at hlo hhi
      exact z.steady _ u _ (by omega) (by omega) (by omega) heq
    have hmin : naive day h mi % 60 = 0 := by
      rw [naive]
      omega
    rw [← mem_wallInstants_iff hmin, wallInstants_of_steady _ hmin hsteady, mem_singleton, eq_comm]
  constructor
  · rintro ⟨-, h, mi, hh, hhour, hmi, hminute, ht⟩
    exact ⟨(h, mi), mem_times_of (Nat.zero_le _) hh hhour hmi hminute, (hinst h mi hh hmi).mp ht⟩
  · rintro ⟨p, hp, ht⟩
    obtain ⟨hh, hhour, hmi, hminute⟩ := SpecSchedule.mem_times hp
    exact ⟨hday, p.1, p.2, hh, hhour, hmi, hminute, (hinst p.1 p.2 hh hmi).mpr ht⟩

theorem run_iff_mem (hday : s.matchesDay day = true) :
    RunOn s z day t ↔
      t ∈ (s.times 0).flatMap fun p ↦ wallInstants z.toZone (naive day p.1 p.2) s.everyHour := by
  have hmin : ∀ h mi : Nat, naive day h mi % 60 = 0 := by
    intro h mi
    rw [naive]
    omega
  rw [mem_flatMap]
  constructor
  · rintro ⟨-, h, mi, hh, hhour, hmi, hminute, ht⟩
    exact ⟨(h, mi), mem_times_of (Nat.zero_le _) hh hhour hmi hminute,
      (mem_wallInstants_iff (hmin h mi)).mpr ht⟩
  · rintro ⟨p, hp, ht⟩
    obtain ⟨hh, hhour, hmi, hminute⟩ := SpecSchedule.mem_times hp
    exact ⟨hday, p.1, p.2, hh, hhour, hmi, hminute, (mem_wallInstants_iff (hmin _ _)).mp ht⟩

/-- The times that the short way leaves out on the first day are over. -/
theorem le_of_lt_hour (hmi : mi < 60) {o : Int} (ho : z.offset now = o)
    (hlt : h < (z.wallClock now % 86400 / 3600).toNat) : naive (z.date now) h mi - o ≤ now := by
  rw [CivilZone.date, naive]
  rw [CivilZone.wallClock, ho] at hlt ⊢
  omega

/-- What the short way looks through are the runs of the day that are not over. -/
theorem run_iff_mem_of_steady (hday : s.matchesDay (z.date now + i) = true)
    (heq : z.offset ((z.date now + i) * 86400 - 129600) = z.offset ((z.date now + i) * 86400 + 216000))
    (hlt : now < t) : RunOn s z (z.date now + i) t ↔
      t ∈ (s.times (if i = 0 then (z.wallClock now % 86400 / 3600).toNat else 0)).map fun p ↦
        naive (z.date now + i) p.1 p.2 - z.offset ((z.date now + i) * 86400 - 129600) := by
  rw [run_iff_of_steady heq hday, List.mem_map]
  constructor
  · rintro ⟨p, hp, rfl⟩
    obtain ⟨hh, hhour, hmi, hminute⟩ := SpecSchedule.mem_times hp
    refine ⟨p, mem_times_of ?_ hh hhour hmi hminute, rfl⟩
    split
    · by_contra hearly
      have hfirst : z.date now + i = z.date now := by omega
      rw [hfirst] at heq hlt
      have hbound := z.within now
      have hdate : z.date now = (now + z.offset now) / 86400 := rfl
      have hoffset : z.offset now = z.offset (z.date now * 86400 - 129600) :=
        z.steady _ now _ (by omega) (by omega) (by omega) heq
      have hover := le_of_lt_hour hmi hoffset (not_le.mp hearly)
      omega
    · exact Nat.zero_le _
  · rintro ⟨p, hp, rfl⟩
    obtain ⟨hh, hhour, hmi, hminute⟩ := SpecSchedule.mem_times hp
    exact ⟨p, mem_times_of (Nat.zero_le _) hh hhour hmi hminute, rfl⟩

/-- In a list in order the first that is after the start is the earliest. -/
theorem isLeast_of_find? {l : List Int} (hl : l.Pairwise (· < ·)) (h : l.find? (now < ·) = some t) :
    IsLeast {t | t ∈ l ∧ now < t} t := by
  obtain ⟨hlt, pre, post, rfl, hpre⟩ := find?_eq_some_iff_append.mp h
  refine ⟨⟨by simp, of_decide_eq_true hlt⟩, fun u ⟨hu, hlt'⟩ ↦ ?_⟩
  rcases mem_append.mp hu with hu | hu
  · have hover := hpre u hu
    simp only [Bool.not_eq_true', decide_eq_false_iff_not] at hover
    exact (hover hlt').elim
  · rcases mem_cons.mp hu with rfl | hu
    · exact le_refl _
    · exact (rel_of_pairwise_cons (pairwise_append.mp hl).2.1 hu).le

/-- **On a day the search takes the earliest run after the start.** -/
theorem isLeast_of_dayRun (h : dayRun s z.toZone now i = some t) :
    IsLeast {t | RunOn s z (z.date now + i) t ∧ now < t} t := by
  simp only [dayRun] at h
  split at h
  · rename_i hday
    split at h
    · rename_i heq
      have hsorted := pairwise_times s (if i = 0 then (z.wallClock now % 86400 / 3600).toNat else 0)
        (z.date now + i)
      obtain ⟨⟨hmem, hlt⟩, hleast⟩ := isLeast_of_find? (pairwise_map.mpr (hsorted.imp fun hpq ↦
        Int.sub_lt_sub_right hpq (z.offset ((z.date now + i) * 86400 - 129600)))) h
      refine ⟨⟨(run_iff_mem_of_steady hday heq hlt).mpr hmem, hlt⟩, fun u hu ↦ ?_⟩
      exact hleast ⟨(run_iff_mem_of_steady hday heq hu.2).mp hu.1, hu.2⟩
    · obtain ⟨hmem, hmin⟩ := min?_eq_some_iff.mp h
      obtain ⟨hmem, hlt⟩ := mem_filter.mp hmem
      refine ⟨⟨(run_iff_mem hday).mpr hmem, of_decide_eq_true hlt⟩, fun u hu ↦ ?_⟩
      exact hmin u (mem_filter.mpr ⟨(run_iff_mem hday).mp hu.1, decide_eq_true hu.2⟩)
  · cases h

/-- A day on which it finds none has none left. -/
theorem le_of_dayRun_eq_none (h : dayRun s z.toZone now i = none)
    (ht : RunOn s z (z.date now + i) t) : t ≤ now := by
  by_contra hlt
  have hlt := not_le.mp hlt
  have hday := ht.1
  simp only [dayRun] at h
  rw [if_pos (by exact hday)] at h
  split at h
  · rename_i heq
    have hnone := find?_eq_none.mp h t ((run_iff_mem_of_steady hday heq hlt).mp ht)
    exact hnone (decide_eq_true hlt)
  · rw [changeDayRun, min?_eq_none_iff, filter_eq_nil_iff] at h
    exact h t ((run_iff_mem hday).mp ht) (decide_eq_true hlt)

/-! ## All days -/

/-- The runs after the start, for the days the search goes through. -/
def Ahead (s : SpecSchedule) (z : CivilZone) (now : Int) : Set Int :=
  {t | now < t ∧ ∃ i : Nat, i ≤ 5 * 366 ∧ RunOn s z (z.date now + i) t}

/-- The earliest run of a day is not later than any of a later day. -/
theorem InOrder.le_of_lt {t' day' : Int} (horder : InOrder s z) (hnow : z.date now ≤ day)
    (ht : IsLeast {t | RunOn s z day t ∧ now < t} t) (hday : day < day') (ht' : RunOn s z day' t') :
    t ≤ t' := by
  obtain ⟨⟨hrun, -⟩, hleast⟩ := ht
  by_cases hdate : z.date t < z.date t'
  · exact (z.lt_of_date_lt hdate).le
  · -- Both are on the day after `day`, and the run that is moved there is not after the start alone.
    have hmoved : z.date t = day + 1 ∧ day' = day + 1 := by
      rcases hrun.date with h | h <;> rcases ht'.date with h' | h' <;> omega
    obtain ⟨t₁, hrun₁, hdate₁, hle⟩ := horder day t hrun hmoved.1
    have hafter : now < t₁ := z.lt_of_date_lt (by omega)
    exact (hleast ⟨hrun₁, hafter⟩).trans (hle t' (hmoved.2 ▸ ht'))

/-- The search takes the first day that has a run left. -/
theorem exists_dayRun {z : Zone} (h : nextWallClockRun s z now = some t) :
    ∃ i ≤ 5 * 366, dayRun s z now i = some t ∧ ∀ j < i, dayRun s z now j = none := by
  obtain ⟨pre, i, post, hrange, hi, hpre⟩ := findSome?_eq_some_iff.mp h
  have hmem : i ∈ List.range (5 * 366 + 1) := by simp [hrange]
  refine ⟨i, Nat.lt_succ_iff.mp (mem_range.mp hmem), hi, fun j hj ↦ hpre j ?_⟩
  have hmem : j ∈ pre ++ i :: post := hrange ▸ mem_range.mpr (hj.trans (mem_range.mp hmem))
  have hsorted := pairwise_append.mp (hrange ▸ pairwise_lt_range (n := 5 * 366 + 1))
  rcases mem_append.mp hmem with hmem | hmem
  · exact hmem
  · rcases mem_cons.mp hmem with rfl | hmem
    · exact (Nat.lt_irrefl _ hj).elim
    · exact (Nat.lt_asymm hj (rel_of_pairwise_cons hsorted.2.1 hmem)).elim

theorem isLeast_of_nextWallClockRun (horder : InOrder s z)
    (h : nextWallClockRun s z.toZone now = some t) : IsLeast (Ahead s z now) t := by
  obtain ⟨i, hle, hi, hbefore⟩ := exists_dayRun h
  have hleast := isLeast_of_dayRun hi
  refine ⟨⟨hleast.1.2, i, hle, hleast.1.1⟩, ?_⟩
  rintro u ⟨hu, j, hj, hrun⟩
  rcases Nat.lt_trichotomy j i with hlt | rfl | hlt
  · -- The days before have none left.
    exact absurd (le_of_dayRun_eq_none (hbefore j hlt) hrun) (not_le.mpr hu)
  · exact hleast.2 ⟨hrun, hu⟩
  · exact horder.le_of_lt (by omega) hleast (by omega) hrun

theorem ahead_eq_empty (h : nextWallClockRun s z.toZone now = none) : Ahead s z now = ∅ := by
  rw [Set.eq_empty_iff_forall_notMem]
  rintro t ⟨hlt, i, hi, hrun⟩
  have hnone := findSome?_eq_none_iff.mp h i (mem_range.mpr (by omega))
  have hover := le_of_dayRun_eq_none hnone hrun
  omega

/-- The earliest run after the start, of the first day that has one. -/
def FirstRun (s : SpecSchedule) (z : CivilZone) (now t : Int) : Prop :=
  ∃ i : Nat, i ≤ 5 * 366 ∧ IsLeast {t | RunOn s z (z.date now + i) t ∧ now < t} t ∧
    ∀ j : Nat, j < i → ∀ u, RunOn s z (z.date now + j) u → u ≤ now

theorem FirstRun.unique {t' : Int} (h : FirstRun s z now t) (h' : FirstRun s z now t') : t = t' := by
  obtain ⟨i, -, hi, hbefore⟩ := h
  obtain ⟨j, -, hj, hbefore'⟩ := h'
  rcases Nat.lt_trichotomy i j with hlt | rfl | hlt
  · exact absurd hi.1.2 (not_lt.mpr (hbefore' i hlt t hi.1.1))
  · exact hi.unique hj
  · exact absurd hj.1.2 (not_lt.mpr (hbefore j hlt t' hj.1.1))

/-- **What the search returns**, in terms of the runs of the days. -/
theorem nextWallClockRun_eq_some_iff :
    nextWallClockRun s z.toZone now = some t ↔ FirstRun s z now t := by
  have hfound : ∀ t, nextWallClockRun s z.toZone now = some t → FirstRun s z now t := by
    intro t h
    obtain ⟨i, hi, hrun, hbefore⟩ := exists_dayRun h
    exact ⟨i, hi, isLeast_of_dayRun hrun, fun j hj u hu ↦ le_of_dayRun_eq_none (hbefore j hj) hu⟩
  refine ⟨hfound t, fun h ↦ ?_⟩
  cases hrun : nextWallClockRun s z.toZone now with
  | some t' => rw [(hfound t' hrun).unique h]
  | none =>
    obtain ⟨i, hi, hleast, -⟩ := h
    exact absurd (show t ∈ Ahead s z now from ⟨hleast.1.2, i, hi, hleast.1.1⟩)
      (by simp [ahead_eq_empty hrun])

theorem nextWallClockRun_of_isLeast (horder : InOrder s z) (ht : IsLeast (Ahead s z now) t) :
    nextWallClockRun s z.toZone now = some t := by
  cases hrun : nextWallClockRun s z.toZone now with
  | some t' => rw [(isLeast_of_nextWallClockRun horder hrun).unique ht]
  | none =>
    rw [ahead_eq_empty hrun] at ht
    exact ht.1.elim

/-! ## One time of day -/

/-- The schedule is daily, at one time. -/
structure Daily (s : SpecSchedule) (h mi : Nat) : Prop where
  everyDay : ∀ day, s.matchesDay day = true
  hour : ∀ k, k < 24 → (s.hour.testBit k = true ↔ k = h)
  minute : ∀ k, k < 60 → (s.minute.testBit k = true ↔ k = mi)
  hour_lt : h < 24
  minute_lt : mi < 60

variable {h mi : Nat}

theorem Daily.run_iff (hs : Daily s h mi) :
    RunOn s z day t ↔ t ∈ wallInstants z.toZone (naive day h mi) false := by
  have hmin : naive day h mi % 60 = 0 := by
    rw [naive]
    omega
  have hevery : s.everyHour = false := by
    rw [SpecSchedule.everyHour, List.all_eq_false]
    refine ⟨if h = 0 then 1 else 0, List.mem_range.mpr (by split <;> omega), ?_⟩
    rw [hs.hour _ (by split <;> omega)]
    split <;> omega
  rw [mem_wallInstants_iff hmin, RunOn, hevery]
  constructor
  · rintro ⟨-, h', mi', hh, hhour, hmi, hminute, ht⟩
    rw [hs.hour h' hh] at hhour
    rw [hs.minute mi' hmi] at hminute
    subst hhour hminute
    exact ht
  · intro ht
    exact ⟨hs.everyDay day, h, mi, hs.hour_lt, (hs.hour h hs.hour_lt).mpr rfl, hs.minute_lt,
      (hs.minute mi hs.minute_lt).mpr rfl, ht⟩

/-- Taken once, a wall time is one instant. -/
theorem wallInstants_false (z : Zone) (wall : Int) : ∃ t, wallInstants z wall false = [t] := by
  rw [wallInstants]
  split <;> exact ⟨_, rfl⟩

/-- **The runs of a daily schedule**: one for each day, in the order of the days.  Two are one instant
only where the zone leaves the earlier day out. -/
theorem Daily.exists_runs (hs : Daily s h mi) (z : CivilZone) :
    ∃ f : Int → Int, (∀ day t, RunOn s z day t ↔ t = f day) ∧
      ∀ day, f day < f (day + 1) ∨ f day = f (day + 1) ∧ ∀ u, z.date u ≠ day := by
  choose f hf using fun day ↦ wallInstants_false z.toZone (naive day h mi)
  refine ⟨f, fun day t ↦ by rw [hs.run_iff, hf, mem_singleton], fun day ↦ ?_⟩
  have hmin : ∀ day, naive day h mi % 60 = 0 := by
    intro day
    rw [naive]
    omega
  have hres : ∀ day, Resolves z (naive day h mi) false (f day) := by
    intro day
    rw [← mem_wallInstants_iff (hmin day), hf, mem_singleton]
  have hnext : naive (day + 1) h mi = naive day h mi + 86400 := by
    rw [naive, naive]
    omega
  have hlt := (hres day).lt_next_day (hnext ▸ hres (day + 1))
  rwa [naive_div hs.hour_lt hs.minute_lt] at hlt

theorem Daily.inOrder (hs : Daily s h mi) (z : CivilZone) : InOrder s z := by
  obtain ⟨f, hf, hlt⟩ := hs.exists_runs z
  intro day t ht hdate
  refine ⟨t, ht, hdate, fun t' ht' ↦ ?_⟩
  rw [hf] at ht ht'
  rcases hlt day with h | ⟨h, -⟩ <;> omega

/-- After a run of a daily schedule comes that of the next day. -/
theorem Daily.nextWallClockRun_run (hs : Daily s h mi) {f : Int → Int}
    (hf : ∀ day t, RunOn s z day t ↔ t = f day) (hmono : ∀ {a b}, a ≤ b → f a ≤ f b)
    (hlt : f day < f (day + 1)) :
    nextWallClockRun s z.toZone (f day) = some (f (day + 1)) := by
  have hdate := ((hf day _).mpr rfl).date
  refine nextWallClockRun_of_isLeast (hs.inOrder z)
    ⟨⟨hlt, (day + 1 - z.date (f day)).toNat, by omega, ?_⟩, ?_⟩
  · rw [hf]
    congr 1
    omega
  · rintro t ⟨hafter, i, -, hrun⟩
    rw [hf] at hrun
    rw [hrun] at hafter ⊢
    apply hmono
    by_contra hearly
    have := hmono (show z.date (f day) + i ≤ day by omega)
    omega

/-- The last instant before the zone shows a later date than `day`. -/
theorem exists_last_instant (z : CivilZone) (ht : day < z.date t) :
    ∃ now, z.date now ≤ day ∧ day - 2 ≤ z.date now ∧ ∀ u, z.date u ≤ day → u ≤ now := by
  have hfirst : z.date (day * 86400 - 50400) ≤ day ∧ day - 2 ≤ z.date (day * 86400 - 50400) := by
    have hbound := z.within (day * 86400 - 50400)
    rw [CivilZone.date, CivilZone.wallClock]
    omega
  obtain ⟨now, hnow, hlast⟩ := Int.exists_greatest_of_bdd (P := fun u ↦ z.date u ≤ day)
    ⟨t, fun u hu ↦ (z.lt_of_date_lt (hu.trans_lt ht)).le⟩ ⟨_, hfirst.1⟩
  refine ⟨now, hnow, ?_, hlast⟩
  by_contra hearly
  have hlt := z.lt_of_date_lt (show z.date now < z.date (day * 86400 - 50400) by omega)
  exact absurd (hlast _ hfirst.1) (not_le.mpr hlt)

/-- From the last instant of a day the search comes to the moved runs of that day first, so they have to
come first. -/
theorem InOrder.of_earliest
    (h : ∀ now t, nextWallClockRun s z.toZone now = some t → IsLeast (Ahead s z now) t) :
    InOrder s z := by
  intro day t ht hdate
  obtain ⟨now, hnow, hnear, hlast⟩ := exists_last_instant z (show day < z.date t by omega)
  have hafter : ∀ u, day < z.date u → now < u := fun u hu ↦ z.lt_of_date_lt (by omega)
  have hday : z.date now + ((day - z.date now).toNat : Int) = day := by omega
  have hahead : t ∈ Ahead s z now :=
    ⟨hafter t (by omega), (day - z.date now).toNat, by omega, by rwa [hday]⟩
  cases hfound : nextWallClockRun s z.toZone now with
  | none => exact absurd hahead (by simp [ahead_eq_empty hfound])
  | some r =>
    obtain ⟨i, hi, hrun, hbefore⟩ := exists_dayRun hfound
    obtain ⟨⟨hr, hlt⟩, -⟩ := isLeast_of_dayRun hrun
    have hrday : day < z.date r := by
      by_contra hle
      exact absurd (hlast r (not_lt.mp hle)) (not_le.mpr hlt)
    -- The run found is one of `day`: earlier days have none left, and `day` has one.
    obtain rfl : i = (day - z.date now).toNat := by
      rcases Nat.lt_trichotomy i (day - z.date now).toNat with hlt | heq | hlt
      · have := hr.date
        omega
      · exact heq
      · have := le_of_dayRun_eq_none (hbefore _ hlt) (by rwa [hday])
        exact absurd (hafter t (by omega)) (not_lt.mpr this)
    rw [hday] at hr
    refine ⟨r, hr, hr.date.resolve_left (by omega), fun t' ht' ↦ (h now r hfound).2 ?_⟩
    have := ht'.date
    refine ⟨hafter t' (by omega), (day - z.date now).toNat + 1, by omega, ?_⟩
    rwa [show z.date now + (((day - z.date now).toNat + 1 : Nat) : Int) = day + 1 by omega]

/-- **Wall-clock schedules neither skip nor repeat**, exactly where no gap moves the runs of a day behind
runs of the next: the search returns the earliest run after the start, whatever the start; and a daily
schedule has one run for each calendar day, each found from the one before. -/
theorem nextWallClockRun_earliest (s : SpecSchedule) (z : CivilZone) :
    ((∀ now t, nextWallClockRun s z.toZone now = some t ↔ IsLeast (Ahead s z now) t) ∧
    ∀ h mi, Daily s h mi → ∃ f : Int → Int, (∀ day t, RunOn s z day t ↔ t = f day) ∧
      ∀ day, (f day < f (day + 1) ∧ nextWallClockRun s z.toZone (f day) = some (f (day + 1))) ∨
        (f day = f (day + 1) ∧ ∀ u, z.date u ≠ day)) ↔ InOrder s z := by
  refine ⟨fun h ↦ .of_earliest fun now t ↦ (h.1 now t).mp, fun horder ↦ ⟨fun now t ↦
    ⟨isLeast_of_nextWallClockRun horder, nextWallClockRun_of_isLeast horder⟩, fun h mi hs ↦ ?_⟩⟩
  obtain ⟨f, hf, hlt⟩ := hs.exists_runs z
  have hmono : Monotone f := monotone_int_of_le_succ fun day ↦ by
    rcases hlt day with h | ⟨h, -⟩ <;> omega
  refine ⟨f, hf, fun day ↦ ?_⟩
  rcases hlt day with h | h
  · exact .inl ⟨h, hs.nextWallClockRun_run hf (hmono ·) h⟩
  · exact .inr h

/-- A zone with one change ever. -/
def changing (c o₁ o₂ : Int) (h₁ : o₁ % 60 = 0 ∧ -50400 ≤ o₁ ∧ o₁ ≤ 50400)
    (h₂ : o₂ % 60 = 0 ∧ -50400 ≤ o₂ ∧ o₂ ≤ 50400)
    (hin : (c + min o₁ o₂) / 86400 = (c + max o₁ o₂ - 1) / 86400) : CivilZone where
  offset t := if t < c then o₁ else o₂
  bound t := by split <;> omega
  steady a t b _ _ _ h := by
    split at h <;> split at h <;> split <;> first | rfl | omega
  whole t := by split <;> omega
  within t := by split <;> omega
  once _ := ⟨c, o₁, o₂, fun _ _ _ ↦ rfl⟩
  inside c' h := by
    have hcc : c' = c := by
      split at h <;> split at h <;> omega
    subst hcc
    rw [if_pos (by omega), if_neg (by omega)]
    exact hin

/-- A cron line of five fields, the last three stars. -/
def everyDay (minute hour : Nat) : SpecSchedule :=
  ⟨minute, hour, 2 ^ 63 + (2 ^ 32 - 2), 2 ^ 63 + (2 ^ 13 - 2), 2 ^ 63 + (2 ^ 7 - 1)⟩

theorem everyDay_matchesDay (minute hour : Nat) (day : Int) :
    (everyDay minute hour).matchesDay day = true := by
  have hmonth : ∀ k, k ≤ 12 → 1 ≤ k → (2 ^ 63 + (2 ^ 13 - 2)).testBit k = true := by decide
  have hdom : ∀ k, k ≤ 31 → 1 ≤ k → (2 ^ 63 + (2 ^ 32 - 2)).testBit k = true := by decide
  have hdow : ∀ k, k < 7 → (2 ^ 63 + (2 ^ 7 - 1)).testBit k = true := by decide
  have hm := month_mem day
  have hd := dayOfMonth_mem day
  simp only [SpecSchedule.matchesDay, SpecSchedule.cronDayMatches, everyDay, hmonth _ hm.2 hm.1,
    hdom _ hd.2 hd.1, hdow _ (weekday_lt day), Bool.and_self, Bool.or_self, ite_self]

/-- Daily at half past two. -/
def halfPastTwo : SpecSchedule := everyDay (2 ^ 30) (2 ^ 2)

theorem halfPastTwo_daily : Daily halfPastTwo 2 30 :=
  ⟨everyDay_matchesDay _ _, by decide, by decide, by decide, by decide⟩

/-- At two in the morning the clock is put forward by an hour. -/
def spring : CivilZone := changing 3600 3600 7200 (by decide) (by decide) (by decide)

/-- At half past two on the day of the change it is half past three. -/
theorem nextWallClockRun_earliest_spring : IsLeast (Ahead halfPastTwo spring 0) 5400 ∧
    spring.wallClock 5400 = 3 * 3600 + 30 * 60 :=
  ⟨(((nextWallClockRun_earliest halfPastTwo spring).mpr (halfPastTwo_daily.inOrder spring)).1 0 5400).mp
    (by decide +kernel), by decide⟩

/-- Ten past ten in the evening is followed by twenty to twelve. -/
def leap : CivilZone := changing 79800 0 5400 (by decide) (by decide) (by decide)

/-- Twenty past midnight and twenty past eleven in the evening. -/
def twiceADay : SpecSchedule := everyDay (2 ^ 20) (2 ^ 0 + 2 ^ 23)

/-- The run of 23:20 is moved to 00:50 of the next day, and hides the one of 00:20. -/
theorem not_nextWallClockRun_earliest :
    nextWallClockRun twiceADay leap.toZone 79799 = some 84000 ∧
    82200 ∈ Ahead twiceADay leap 79799 ∧ leap.wallClock 82200 = 86400 + 20 * 60 := by
  refine ⟨by decide +kernel, ⟨by decide, 1, by decide, ?_⟩, by decide⟩
  refine ⟨everyDay_matchesDay _ _ _, 0, 20, by decide, by decide, by decide, by decide, ?_⟩
  rw [← mem_wallInstants_iff (by decide)]
  decide +kernel

end Dylaris.Schedule
