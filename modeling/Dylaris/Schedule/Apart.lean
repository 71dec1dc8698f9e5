import Dylaris.Schedule.Earliest

/-!
# Runs an hour apart

A backup schedule has one minute of the hour, so two of its wall times are whole hours apart, and so
are their instants while the offset stays, and when it changes by whole hours.  When it changes by a
part of an hour, as on Lord Howe Island, an instant before the change and one after it can be closer
than an hour.  `Apart` is the schedules and zones for which they are not, change by change, and
`RunOn.add_hour_le` is that then no two runs are.
-/

set_option autoImplicit false

namespace Dylaris.Schedule

/-- The fields of the schedule match the wall time. -/
def MatchesWall (s : SpecSchedule) (wall : Int) : Prop :=
  ∃ day h mi, s.matchesDay day = true ∧ h < 24 ∧ s.hour.testBit h = true ∧ mi < 60 ∧
    s.minute.testBit mi = true ∧ wall = naive day h mi

/-- No change by a part of an hour brings two wall times of the schedule closer than an hour.  When the
clock is put forward by `k` hours and a part, these are wall times on either side of the end of the gap
that are `k` or `k + 1` hours apart; when it is put back, and the schedule matches every hour, a wall time
at the end of the overlap and the one `k` hours before it, shown again. -/
def Apart (s : SpecSchedule) (z : CivilZone) : Prop :=
  ∀ c, (z.offset c - z.offset (c - 1)) % 3600 ≠ 0 →
    (∀ wall k, MatchesWall s wall → MatchesWall s (wall + 3600 * k) →
      k = (z.offset c - z.offset (c - 1)) / 3600 ∨ k = (z.offset c - z.offset (c - 1)) / 3600 + 1 →
      z.offset (c - 1) < z.offset c → ¬(wall < c + z.offset c ∧ c + z.offset c ≤ wall + 3600 * k)) ∧
    (∀ wall k, MatchesWall s wall → MatchesWall s (wall - 3600 * k) →
      k = (z.offset (c - 1) - z.offset c) / 3600 → z.offset c < z.offset (c - 1) →
      s.everyHour = true → ¬(c + z.offset c + 3600 * k ≤ wall ∧ wall < c + z.offset (c - 1)))

variable {s : SpecSchedule} {z : CivilZone} {wall wall' t t' : Int}

/-- One value in the minute field. -/
def OneMinute (s : SpecSchedule) : Prop :=
  ∀ mi mi', mi < 60 → mi' < 60 → s.minute.testBit mi = true → s.minute.testBit mi' = true → mi = mi'

theorem MatchesWall.hours (hone : OneMinute s) (h : MatchesWall s wall) (h' : MatchesWall s wall') :
    ∃ k, wall' = wall + 3600 * k := by
  obtain ⟨day, hr, mi, -, -, -, hmi, hminute, rfl⟩ := h
  obtain ⟨day', hr', mi', -, -, -, hmi', hminute', rfl⟩ := h'
  obtain rfl := hone mi mi' hmi hmi' hminute hminute'
  refine ⟨(day' - day) * 24 + hr' - hr, ?_⟩
  rw [naive, naive]
  omega

/-- Two instants that the clock shows the wall times at, on either side of a change. -/
theorem Apart.of_shown {k c : Int} (hapart : Apart s z) (hw : MatchesWall s wall)
    (hw' : MatchesWall s (wall + 3600 * k)) (hchange : z.offset (c - 1) ≠ z.offset c) (htc : t < c)
    (hct : c ≤ t') (ht : z.wallClock t = wall) (ht' : z.wallClock t' = wall + 3600 * k)
    (hfirst : s.everyHour = true ∨ ∀ u, z.wallClock u = wall + 3600 * k → t' ≤ u) :
    t + 3600 ≤ t' := by
  by_contra hnear
  have hbefore := z.offset_eq_before_change hchange (t := t) (by omega) htc
  have hafter := z.offset_eq_of_change hchange (t := t') hct (by omega)
  simp only [CivilZone.wallClock] at ht ht' hfirst
  have hpart : (z.offset c - z.offset (c - 1)) % 3600 ≠ 0 := by omega
  obtain ⟨hforward, hback⟩ := hapart c hpart
  by_cases hsign : z.offset (c - 1) < z.offset c
  · exact hforward wall k hw hw' (by omega) hsign (by omega)
  have hk : -k = (z.offset (c - 1) - z.offset c) / 3600 := by omega
  have hw'' : MatchesWall s (wall - 3600 * -k) := by
    have hwall : wall - 3600 * -k = wall + 3600 * k := by omega
    rwa [hwall]
  refine hback wall (-k) hw hw'' hk (by omega) (hfirst.resolve_right fun hfirst ↦ ?_) (by omega)
  -- The clock has shown the second wall time before, under the first offset.
  have hb := z.within (c - 1)
  have hb' := z.within c
  have hearlier := z.offset_eq_before_change hchange (t := t + 3600 * k) (by omega) (by omega)
  have := hfirst (t + 3600 * k) (by omega)
  omega

/-- An instant that a skipped wall time is moved to, and one that the clock shows the other at. -/
theorem Apart.of_skipped {k c : Int} (hapart : Apart s z) (hw : MatchesWall s wall)
    (hw' : MatchesWall s (wall + 3600 * k)) (hskip : Skips z c wall) (ht : t = wall - z.offset (c - 1))
    (ht' : z.wallClock t' = wall + 3600 * k) (hne : t ≠ t') : t + 3600 ≤ t' ∨ t' + 3600 ≤ t := by
  by_contra hnear
  obtain ⟨hlo, hhi⟩ := hskip
  have hchange : z.offset (c - 1) ≠ z.offset c := by omega
  have hb := z.within (c - 1)
  have hb' := z.within c
  rw [CivilZone.wallClock] at ht'
  rcases lt_or_ge t' c with htc | hct
  · have hbefore := z.offset_eq_before_change hchange (t := t') (by omega) htc
    omega
  · have hafter := z.offset_eq_of_change hchange (t := t') hct (by omega)
    have hpart : (z.offset c - z.offset (c - 1)) % 3600 ≠ 0 := by omega
    exact (hapart c hpart).1 wall k hw hw' (by omega) (by omega) (by omega)

/-- The clock changes between two instants at which its offsets differ. -/
theorem CivilZone.exists_change_between (z : CivilZone) (hlt : t < t') (hnear : t' - t ≤ 345600)
    (hne : z.offset t ≠ z.offset t') :
    ∃ c, t < c ∧ c ≤ t' ∧ z.offset (c - 1) ≠ z.offset c := by
  obtain ⟨c, htc, hct, hz⟩ := z.exists_change hlt hnear
  refine ⟨c, htc, hct, ?_⟩
  rw [hz (c - 1) (by omega) (by omega), hz c (by omega) hct, if_pos (by omega), if_neg (by omega)]
  exact hne

/-- **Runs are an hour apart.** -/
theorem Resolves.add_hour_le (hone : OneMinute s) (hapart : Apart s z) (hw : MatchesWall s wall)
    (hw' : MatchesWall s wall') (h : Resolves z wall s.everyHour t)
    (h' : Resolves z wall' s.everyHour t') (hlt : t < t') : t + 3600 ≤ t' := by
  obtain ⟨k, rfl⟩ := hw.hours hone hw'
  rcases h with ⟨ht, -⟩ | ⟨-, c, hskip, ht⟩
  · rcases h' with ⟨ht', hfirst⟩ | ⟨-, c, hskip, ht'⟩
    · by_contra hnear
      have hne : z.offset t ≠ z.offset t' := by
        simp only [CivilZone.wallClock] at ht ht'
        omega
      obtain ⟨c, htc, hct, hchange⟩ := z.exists_change_between hlt (by omega) hne
      exact hnear (hapart.of_shown hw hw' hchange htc hct ht ht' hfirst)
    · have hback : wall = wall + 3600 * k + 3600 * -k := by omega
      have hmoved : t' = wall + 3600 * k - z.offset (c - 1) := by omega
      rw [hback] at hw ht
      have := hapart.of_skipped hw' hw hskip hmoved ht (by omega)
      omega
  · rcases h' with ⟨ht', -⟩ | ⟨-, c', hskip', ht'⟩
    · have hmoved : t = wall - z.offset (c - 1) := by omega
      have := hapart.of_skipped hw hw' hskip hmoved ht' (by omega)
      omega
    · -- Two gaps so close are one.
      obtain ⟨hlo, hhi⟩ := hskip
      obtain ⟨hlo', hhi'⟩ := hskip'
      have hb := z.within (c - 1)
      have hb' := z.within c
      have hc := z.within (c' - 1)
      have hc' := z.within c'
      by_contra hnear
      have hchange : z.offset (c - 1) ≠ z.offset c := by omega
      have hchange' : z.offset (c' - 1) ≠ z.offset c' := by omega
      have hcc := z.change_unique hchange hchange' (by omega) (by omega)
      subst hcc
      omega

theorem RunOn.add_hour_le {day day' : Int} (hone : OneMinute s) (hapart : Apart s z)
    (h : RunOn s z day t) (h' : RunOn s z day' t') (hlt : t < t') : t + 3600 ≤ t' := by
  obtain ⟨hday, hr, mi, hh, hhour, hmi, hminute, ht⟩ := h
  obtain ⟨hday', hr', mi', hh', hhour', hmi', hminute', ht'⟩ := h'
  exact Resolves.add_hour_le hone hapart ⟨day, hr, mi, hday, hh, hhour, hmi, hminute, rfl⟩
    ⟨day', hr', mi', hday', hh', hhour', hmi', hminute', rfl⟩ ht ht' hlt

/-! ## The converse -/

theorem MatchesWall.exists_run (hw : MatchesWall s wall) (h : Resolves z wall s.everyHour t) :
    ∃ day, RunOn s z day t := by
  obtain ⟨day, hr, mi, hday, hh, hhour, hmi, hminute, rfl⟩ := hw
  exact ⟨day, hday, hr, mi, hh, hhour, hmi, hminute, h⟩

/-- When the clock is put forward, every wall time around the change is shown at most once. -/
theorem wallClock_inj_of_forward {c u : Int} (hforward : z.offset (c - 1) < z.offset c)
    (hnear : c - 172800 ≤ t ∧ t ≤ c + 172800) (hu : z.wallClock u = z.wallClock t) : u = t := by
  have hbt := z.within t
  have hbu := z.within u
  simp only [CivilZone.wallClock] at hu
  have hoffset : ∀ v, c - 345600 ≤ v → v ≤ c + 345599 →
      z.offset v = if v < c then z.offset (c - 1) else z.offset c := by
    intro v hlo hhi
    split
    · exact z.offset_eq_before_change hforward.ne hlo (by omega)
    · exact z.offset_eq_of_change hforward.ne (by omega) hhi
  have ht := hoffset t (by omega) (by omega)
  have hu' := hoffset u (by omega) (by omega)
  split at ht <;> split at hu' <;> omega

/-- Wall times on either side of the end of a gap: the first is before the change or in the gap, and the
second after it. -/
theorem exists_runs_of_forward {c k : Int} (hforward : z.offset (c - 1) < z.offset c)
    (hk : k = (z.offset c - z.offset (c - 1)) / 3600 ∨ k = (z.offset c - z.offset (c - 1)) / 3600 + 1)
    (hw : MatchesWall s wall) (hw' : MatchesWall s (wall + 3600 * k))
    (hlt : wall < c + z.offset c) (hle : c + z.offset c ≤ wall + 3600 * k) :
    (∃ day, RunOn s z day (wall - z.offset (c - 1))) ∧
      ∃ day, RunOn s z day (wall + 3600 * k - z.offset c) := by
  have hb := z.within (c - 1)
  have hb' := z.within c
  constructor
  · refine hw.exists_run ?_
    by_cases hskip : c + z.offset (c - 1) ≤ wall
    · have hno : ∀ u, z.wallClock u ≠ wall := by
        intro u hu
        have hbu := z.within u
        rw [CivilZone.wallClock] at hu
        rcases lt_or_ge u c with huc | hcu
        · have := z.offset_eq_before_change hforward.ne (t := u) (by omega) huc
          omega
        · have := z.offset_eq_of_change hforward.ne (t := u) hcu (by omega)
          omega
      exact .inr ⟨hno, c, ⟨hskip, hlt⟩, by omega⟩
    · have hoffset := z.offset_eq_before_change hforward.ne (t := wall - z.offset (c - 1)) (by omega)
        (by omega)
      have hshown : z.wallClock (wall - z.offset (c - 1)) = wall := by
        rw [CivilZone.wallClock, hoffset]
        omega
      refine .inl ⟨hshown, .inr fun u hu ↦ (wallClock_inj_of_forward hforward ?_ ?_).ge⟩
      · omega
      · rw [hu, hshown]
  · refine hw'.exists_run ?_
    have hoffset := z.offset_eq_of_change hforward.ne (t := wall + 3600 * k - z.offset c) (by omega)
      (by omega)
    have hshown : z.wallClock (wall + 3600 * k - z.offset c) = wall + 3600 * k := by
      rw [CivilZone.wallClock, hoffset]
      omega
    refine .inl ⟨hshown, .inr fun u hu ↦ (wallClock_inj_of_forward hforward ?_ ?_).ge⟩
    · omega
    · rw [hu, hshown]

/-- A wall time at the end of an overlap, and an earlier one that is shown again after it. -/
theorem exists_runs_of_back {c k : Int} (hback : z.offset c < z.offset (c - 1))
    (hk : k = (z.offset (c - 1) - z.offset c) / 3600) (hevery : s.everyHour = true)
    (hw : MatchesWall s wall) (hw' : MatchesWall s (wall - 3600 * k))
    (hle : c + z.offset c + 3600 * k ≤ wall) (hlt : wall < c + z.offset (c - 1)) :
    (∃ day, RunOn s z day (wall - z.offset (c - 1))) ∧
      ∃ day, RunOn s z day (wall - 3600 * k - z.offset c) := by
  have hb := z.within (c - 1)
  have hb' := z.within c
  have hbefore := z.offset_eq_before_change hback.ne' (t := wall - z.offset (c - 1)) (by omega) (by omega)
  have hafter := z.offset_eq_of_change hback.ne' (t := wall - 3600 * k - z.offset c) (by omega) (by omega)
  refine ⟨hw.exists_run (.inl ⟨?_, .inl hevery⟩), hw'.exists_run (.inl ⟨?_, .inl hevery⟩)⟩
  · rw [CivilZone.wallClock, hbefore]
    omega
  · rw [CivilZone.wallClock, hafter]
    omega

theorem Apart.of_add_hour_le
    (h : ∀ day day' t t', RunOn s z day t → RunOn s z day' t' → t < t' → t + 3600 ≤ t') :
    Apart s z := by
  intro c hpart
  have hnear : ∀ t t', (∃ day, RunOn s z day t) → (∃ day, RunOn s z day t') → t ≠ t' →
      t + 3600 ≤ t' ∨ t' + 3600 ≤ t := by
    rintro t t' ⟨day, ht⟩ ⟨day', ht'⟩ hne
    rcases lt_or_gt_of_ne hne with hlt | hlt
    · exact .inl (h day day' t t' ht ht' hlt)
    · exact .inr (h day' day t' t ht' ht hlt)
  constructor
  · rintro wall k hw hw' hk hforward ⟨hlt, hle⟩
    obtain ⟨hrun, hrun'⟩ := exists_runs_of_forward hforward hk hw hw' hlt hle
    have := hnear _ _ hrun hrun' (by omega)
    omega
  · rintro wall k hw hw' hk hback hevery ⟨hle, hlt⟩
    obtain ⟨hrun, hrun'⟩ := exists_runs_of_back hback hk hevery hw hw' hle hlt
    have := hnear _ _ hrun hrun' (by omega)
    omega

end Dylaris.Schedule
