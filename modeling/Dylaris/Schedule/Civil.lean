import Dylaris.Schedule.NextRun
import Mathlib.Order.Bounds.Basic

/-!
# Wall times and instants

What a wall time means in a zone, said without the two candidates of `wallInstants`: the instants at
which the zone's clock shows it; only the first of them unless the schedule matches every hour; and for
a time that the clock never shows, the instant at which it shows the time moved forward by the gap.
`wallInstants` computes this (`mem_wallInstants_iff`).

The zones are those of the civil world: whole-minute offsets within fourteen hours of UTC, at most one
change in four days, and what a change skips or repeats lies inside one calendar day.  In such a zone
the date never goes back, `CivilZone.date_le_date`, and a run is on its own day or, when a gap near
midnight has moved it, on the next: `Resolves.date`.
-/

set_option autoImplicit false

namespace Dylaris.Schedule

/-- A zone of the civil world. -/
structure CivilZone extends Zone where
  whole : ∀ t, offset t % 60 = 0
  within : ∀ t, -50400 ≤ offset t ∧ offset t ≤ 50400
  /-- The offset is piecewise constant, with at most one change in any 96 hours. -/
  once : ∀ a, ∃ c o₁ o₂, ∀ t, a ≤ t → t ≤ a + 345600 →
    offset t = if t < c then o₁ else o₂
  /-- The gap or the overlap of a change lies inside one local calendar day. -/
  inside : ∀ c, offset (c - 1) ≠ offset c →
    (c + min (offset (c - 1)) (offset c)) / 86400 = (c + max (offset (c - 1)) (offset c) - 1) / 86400

namespace CivilZone

variable (z : CivilZone)

/-- What the zone's clock shows. -/
def wallClock (t : Int) : Int := t + z.offset t

/-- The local calendar day. -/
def date (t : Int) : Int := z.wallClock t / 86400

/-- In at most four days there is one change at most, between the offsets at their ends. -/
theorem exists_change {a b : Int} (hab : a < b) (hlen : b - a ≤ 345600) :
    ∃ c, a < c ∧ c ≤ b ∧
      ∀ t, a ≤ t → t ≤ b → z.offset t = if t < c then z.offset a else z.offset b := by
  obtain ⟨c, o₁, o₂, hc⟩ := z.once a
  have ha := hc a (by omega) (by omega)
  have hb := hc b (by omega) (by omega)
  by_cases hin : a < c ∧ c ≤ b
  · rw [if_pos hin.1] at ha
    rw [if_neg (by omega)] at hb
    exact ⟨c, hin.1, hin.2, fun t hat htb ↦ by rw [hc t hat (by omega), ha, hb]⟩
  · -- The change is outside, and the offset is the same throughout.
    refine ⟨b, hab, le_refl b, fun t hat htb ↦ ?_⟩
    have ht := hc t hat (by omega)
    split at ha <;> split at hb <;> split at ht <;> split <;> omega

/-- After a change the offset stays for four days. -/
theorem offset_eq_of_change {c t : Int} (h : z.offset (c - 1) ≠ z.offset c) (hct : c ≤ t)
    (ht : t ≤ c + 345599) : z.offset t = z.offset c := by
  obtain ⟨c', hc, -, hz⟩ := z.exists_change (a := c - 1) (b := c + 345599) (by omega) (by omega)
  have hfirst := hz c (by omega) (by omega)
  split at hfirst
  · exact (h hfirst.symm).elim
  · rw [hz t (by omega) ht, if_neg (by omega), hfirst]

/-- And before it the offset has been for as long. -/
theorem offset_eq_before_change {c t : Int} (h : z.offset (c - 1) ≠ z.offset c)
    (ht : c - 345600 ≤ t) (htc : t < c) : z.offset t = z.offset (c - 1) := by
  obtain ⟨c', -, hc, hz⟩ := z.exists_change (a := c - 345600) (b := c) (by omega) (by omega)
  have hlast := hz (c - 1) (by omega) (by omega)
  split at hlast
  · rw [hz t ht (by omega), if_pos (by omega), hlast]
  · exact (h hlast).elim

theorem change_unique {c c' : Int} (h : z.offset (c - 1) ≠ z.offset c)
    (h' : z.offset (c' - 1) ≠ z.offset c') (hlo : c - 345599 ≤ c') (hhi : c' ≤ c + 345599) :
    c = c' := by
  rcases lt_trichotomy c c' with hlt | heq | hlt
  · rw [z.offset_eq_of_change h (t := c' - 1) (by omega) (by omega),
      z.offset_eq_of_change h (t := c') (by omega) (by omega)] at h'
    exact (h' rfl).elim
  · exact heq
  · rw [z.offset_eq_of_change h' (t := c - 1) (by omega) (by omega),
      z.offset_eq_of_change h' (t := c) (by omega) (by omega)] at h
    exact (h rfl).elim

/-- The date never goes back: an overlap is inside one day. -/
theorem date_le_date_succ (t : Int) : z.date t ≤ z.date (t + 1) := by
  have hin := z.inside (t + 1)
  rw [Int.add_sub_cancel] at hin
  simp only [date, wallClock]
  by_cases heq : z.offset t = z.offset (t + 1)
  · omega
  have hin := hin heq
  by_cases hlt : z.offset t < z.offset (t + 1)
  · omega
  · rw [min_eq_right (by omega), max_eq_left (by omega)] at hin
    have hday : t + 1 + z.offset t - 1 = t + z.offset t := by omega
    rw [hday] at hin
    exact hin.ge

theorem date_le_date {t t' : Int} (h : t ≤ t') : z.date t ≤ z.date t' := by
  induction t', h using Int.leInduction with
  | base => exact le_refl _
  | succ t' _ ih => exact ih.trans (z.date_le_date_succ t')

theorem lt_of_date_lt {t t' : Int} (h : z.date t < z.date t') : t < t' := by
  by_contra hle
  have := z.date_le_date (not_lt.mp hle)
  omega

end CivilZone

variable {z : CivilZone} {wall t : Int} {both : Bool}

/-- What a change skips: the wall times from `c + offset (c - 1)` until `c + offset c`. -/
def Skips (z : CivilZone) (c wall : Int) : Prop :=
  c + z.offset (c - 1) ≤ wall ∧ wall < c + z.offset c

/-- The gap is inside one day. -/
theorem Skips.inside {c : Int} (h : Skips z c wall) :
    (c + z.offset (c - 1)) / 86400 = (c + z.offset c - 1) / 86400 := by
  obtain ⟨hlo, hhi⟩ := h
  have hin := z.inside c (by omega)
  rwa [min_eq_left (by omega), max_eq_right (by omega)] at hin

/-- The wall time is to be taken at the instant: the clock shows it there, and, unless `both`, did not
show it before; or it is skipped, and is moved forward by the gap. -/
def Resolves (z : CivilZone) (wall : Int) (both : Bool) (t : Int) : Prop :=
  (z.wallClock t = wall ∧ (both = true ∨ ∀ t', z.wallClock t' = wall → t ≤ t')) ∨
  ((∀ t', z.wallClock t' ≠ wall) ∧
    ∃ c, Skips z c wall ∧ t = wall + (z.offset c - z.offset (c - 1)) - z.offset c)

/-! ## The three cases -/

theorem resolves_iff_of_shown_once {a : Int} (h : ∀ t, z.wallClock t = wall ↔ t = a) :
    Resolves z wall both t ↔ t = a := by
  constructor
  · rintro (⟨ht, -⟩ | ⟨hno, -⟩)
    · exact (h t).mp ht
    · exact (hno a ((h a).mpr rfl)).elim
  · rintro rfl
    exact .inl ⟨(h t).mpr rfl, .inr fun t' ht' ↦ ((h t').mp ht').ge⟩

theorem resolves_iff_of_shown_twice {a b : Int} (hab : a < b)
    (h : ∀ t, z.wallClock t = wall ↔ t = a ∨ t = b) :
    Resolves z wall both t ↔ t = a ∨ both = true ∧ t = b := by
  constructor
  · rintro (⟨ht, hfirst⟩ | ⟨hno, -⟩)
    · rcases (h t).mp ht with rfl | rfl
      · exact .inl rfl
      · rcases hfirst with hboth | hfirst
        · exact .inr ⟨hboth, rfl⟩
        · have := hfirst a ((h a).mpr (.inl rfl))
          omega
    · exact (hno a ((h a).mpr (.inl rfl))).elim
  · rintro (rfl | ⟨hboth, rfl⟩)
    · refine .inl ⟨(h t).mpr (.inl rfl), .inr fun t' ht' ↦ ?_⟩
      rcases (h t').mp ht' with rfl | rfl <;> omega
    · exact .inl ⟨(h t).mpr (.inr rfl), .inl hboth⟩

theorem resolves_iff_of_skipped {c : Int} (hno : ∀ t, z.wallClock t ≠ wall) (hc : Skips z c wall)
    (huniq : ∀ c', Skips z c' wall → c' = c) :
    Resolves z wall both t ↔ t = wall - z.offset (c - 1) := by
  constructor
  · rintro (⟨ht, -⟩ | ⟨-, c', hc', ht⟩)
    · exact (hno t ht).elim
    · rw [huniq c' hc'] at ht
      omega
  · intro ht
    exact .inr ⟨hno, c, hc, by omega⟩

/-! ## The two candidates -/

section Candidates

-- The change around the wall time, if there is one, and the offsets on either side.
variable {c before after : Int}
  (hbefore : z.offset (wall - 129600) = before) (hafter : z.offset (wall + 129600) = after)
  (hc : wall - 129600 < c) (hc' : c ≤ wall + 129600)
  (hz : ∀ t, wall - 129600 ≤ t → t ≤ wall + 129600 →
    z.offset t = if t < c then before else after)

include hz in
/-- The clock shows a wall time at one of the two candidates of `wallInstants`, if at all. -/
theorem wallClock_eq_iff :
    z.wallClock t = wall ↔
      t = wall - before ∧ z.offset t = before ∨ t = wall - after ∧ z.offset t = after := by
  have hbound := z.within t
  rw [CivilZone.wallClock]
  constructor
  · intro h
    have ht := hz t (by omega) (by omega)
    split at ht
    · exact .inl ⟨by omega, ht⟩
    · exact .inr ⟨by omega, ht⟩
  · rintro (⟨h, h'⟩ | ⟨h, h'⟩) <;> omega

include hbefore hafter hc hc' hz in
/-- A wall time that neither candidate shows is in the gap of the change. -/
theorem skips_of_not_shown (h₁ : z.offset (wall - before) ≠ before)
    (h₂ : z.offset (wall - after) ≠ after) :
    Skips z c wall ∧ z.offset (c - 1) = before ∧ ∀ c', Skips z c' wall → c' = c := by
  have hbound₁ := hbefore ▸ z.within (wall - 129600)
  have hbound₂ := hafter ▸ z.within (wall + 129600)
  have hz₁ := hz (wall - before) (by omega) (by omega)
  have hz₂ := hz (wall - after) (by omega) (by omega)
  have hlast := hz (c - 1) (by omega) (by omega)
  have hfirst := hz c (by omega) (by omega)
  rw [if_pos (by omega)] at hlast
  rw [if_neg (by omega)] at hfirst
  have hle : c ≤ wall - before := by
    by_contra hlt
    rw [if_pos (by omega)] at hz₁
    exact h₁ hz₁
  have hlt : wall - after < c := by
    by_contra hle
    rw [if_neg (by omega)] at hz₂
    exact h₂ hz₂
  refine ⟨⟨by omega, by omega⟩, hlast, fun c' hskip ↦ ?_⟩
  -- The offset changes at `c'` as well, and there is one change.
  obtain ⟨hlo, hhi⟩ := hskip
  have hb := z.within (c' - 1)
  have hb' := z.within c'
  have hlast' := hz (c' - 1) (by omega) (by omega)
  have hfirst' := hz c' (by omega) (by omega)
  split at hlast' <;> split at hfirst' <;> omega

end Candidates

theorem occurs_iff (hmin : wall % 60 = 0) {o : Int} (ho : o % 60 = 0) :
    occurs z.toZone wall (wall - o) = true ↔ z.offset (wall - o) = o := by
  have hwhole := z.whole (wall - o)
  rw [occurs, decide_eq_true_eq]
  omega

/-- **`wallInstants` resolves a wall time as it says.** -/
theorem mem_wallInstants_iff (hmin : wall % 60 = 0) :
    t ∈ wallInstants z.toZone wall both ↔ Resolves z wall both t := by
  obtain ⟨c, hc, hc', hz⟩ := z.exists_change (a := wall - 129600) (b := wall + 129600) (by omega)
    (by omega)
  have hocc₁ := occurs_iff (z := z) hmin (z.whole (wall - 129600))
  have hocc₂ := occurs_iff (z := z) hmin (z.whole (wall + 129600))
  simp only [wallInstants]
  generalize hbefore : z.offset (wall - 129600) = before at *
  generalize hafter : z.offset (wall + 129600) = after at *
  have hclock : ∀ t, z.wallClock t = wall ↔
      t = wall - before ∧ z.offset t = before ∨ t = wall - after ∧ z.offset t = after :=
    fun t ↦ wallClock_eq_iff hz
  by_cases h₁ : z.offset (wall - before) = before
  · have honce : before = after ∨ z.offset (wall - after) ≠ after →
        ∀ t, z.wallClock t = wall ↔ t = wall - before := by
      intro h t
      rw [hclock]
      constructor
      · rintro (⟨ht, -⟩ | ⟨ht, ht'⟩)
        · exact ht
        · rw [ht] at ht'
          rw [h.resolve_right (not_not.mpr ht'), ht]
      · exact fun ht ↦ .inl ⟨ht, ht ▸ h₁⟩
    rw [hocc₁.mpr h₁]
    by_cases h₂ : before ≠ after ∧ z.offset (wall - after) = after
    · -- Both candidates show it.
      have htwice : ∀ t, z.wallClock t = wall ↔
          t = min (wall - before) (wall - after) ∨ t = max (wall - before) (wall - after) := by
        intro t
        rw [hclock]
        constructor
        · omega
        · intro ht
          have ht' : t = wall - before ∨ t = wall - after := by omega
          exact ht'.imp (fun h ↦ ⟨h, h ▸ h₁⟩) (fun h ↦ ⟨h, h ▸ h₂.2⟩)
      have hsecond : (occurs z.toZone wall (wall - after) &&
          decide (wall - after ≠ wall - before)) = true := by
        rw [hocc₂.mpr h₂.2, Bool.true_and, decide_eq_true_eq]
        omega
      rw [hsecond, resolves_iff_of_shown_twice (by omega) htwice]
      cases both <;> simp
    · have h₂ : before = after ∨ z.offset (wall - after) ≠ after := by
        rcases not_and_or.mp h₂ with h | h
        · exact .inl (not_not.mp h)
        · exact .inr h
      have hsecond : (occurs z.toZone wall (wall - after) &&
          decide (wall - after ≠ wall - before)) = false := by
        rw [Bool.and_eq_false_iff, decide_eq_false_iff_not]
        rcases h₂ with h | h
        · exact .inr (by omega)
        · exact .inl (Bool.eq_false_iff.mpr (mt hocc₂.mp h))
      rw [hsecond, resolves_iff_of_shown_once (honce h₂)]
      exact List.mem_singleton
  · rw [Bool.eq_false_iff.mpr (mt hocc₁.mp h₁)]
    by_cases h₂ : z.offset (wall - after) = after
    · have hne : before ≠ after := by
        rintro rfl
        exact h₁ h₂
      have hsecond : (occurs z.toZone wall (wall - after) &&
          decide (wall - after ≠ wall - before)) = true := by
        rw [hocc₂.mpr h₂, Bool.true_and, decide_eq_true_eq]
        omega
      have honce : ∀ t, z.wallClock t = wall ↔ t = wall - after := by
        intro t
        rw [hclock]
        constructor
        · rintro (⟨ht, ht'⟩ | ⟨ht, -⟩)
          · exact (h₁ (ht ▸ ht')).elim
          · exact ht
        · exact fun ht ↦ .inr ⟨ht, ht ▸ h₂⟩
      rw [hsecond, resolves_iff_of_shown_once honce]
      exact List.mem_singleton
    · have hno : ∀ t, z.wallClock t ≠ wall := by
        intro t ht
        rcases (hclock t).mp ht with ⟨ht, ht'⟩ | ⟨ht, ht'⟩
        · exact h₁ (ht ▸ ht')
        · exact h₂ (ht ▸ ht')
      obtain ⟨hskip, hlast, huniq⟩ := skips_of_not_shown hbefore hafter hc hc' hz h₁ h₂
      rw [Bool.eq_false_iff.mpr (mt hocc₂.mp h₂), Bool.false_and,
        resolves_iff_of_skipped hno hskip huniq, hlast]
      exact List.mem_singleton

/-! ## The day of a run -/

/-- At the instant a skipped wall time is moved to, the clock shows it moved forward by the gap. -/
theorem offset_of_skips {c : Int} (h : Skips z c wall) :
    z.offset (wall - z.offset (c - 1)) = z.offset c := by
  obtain ⟨hlo, hhi⟩ := h
  have hbound := z.within (c - 1)
  have hbound' := z.within c
  exact z.offset_eq_of_change (by omega) (by omega) (by omega)

/-- **A run is on its own day**, or on the next, where a gap has moved it past midnight. -/
theorem Resolves.date {day : Int} (h : Resolves z wall both t) (hday : wall / 86400 = day) :
    z.date t = day ∨ z.date t = day + 1 := by
  rw [CivilZone.date]
  rcases h with ⟨ht, -⟩ | ⟨-, c, hskip, ht⟩
  · exact .inl (ht ▸ hday)
  · have hoffset := offset_of_skips hskip
    have hin := hskip.inside
    obtain ⟨hlo, hhi⟩ := hskip
    have ht' : t = wall - z.offset (c - 1) := by omega
    rw [CivilZone.wallClock, ht', hoffset]
    omega

/-- The same time of the next day is later.  A gap of a whole day makes the two one instant, and then
the day is none of the zone's. -/
theorem Resolves.lt_next_day {t' : Int} (h : Resolves z wall both t)
    (h' : Resolves z (wall + 86400) both t') :
    t < t' ∨ t = t' ∧ ∀ u, z.date u ≠ wall / 86400 := by
  have hdate := h.date rfl
  have hdate' := h'.date rfl
  by_cases hlt : z.date t < z.date t'
  · exact .inl (z.lt_of_date_lt hlt)
  -- So the run of the first day has been moved to the second, and that of the second is there.
  have hmoved : z.date t = wall / 86400 + 1 ∧ z.date t' = wall / 86400 + 1 := by omega
  rcases h with ⟨ht, -⟩ | ⟨-, c, hskip, ht⟩
  · have : z.date t = wall / 86400 := by rw [CivilZone.date, ht]
    omega
  have hin := hskip.inside
  obtain ⟨hlo, hhi⟩ := hskip
  have hchange : z.offset (c - 1) ≠ z.offset c := by omega
  have hbound' := z.within c
  have hbound'' := z.within t'
  have hlast : z.date (c - 1) < z.date t' := by
    have : z.date (c - 1) = (c - 1 + z.offset (c - 1)) / 86400 := rfl
    omega
  have hafter := z.lt_of_date_lt hlast
  rcases h' with ⟨ht', -⟩ | ⟨-, c', ⟨hlo', hhi'⟩, ht'⟩
  · rw [CivilZone.wallClock] at ht'
    have hoffset := z.offset_eq_of_change hchange (t := t') (by omega) (by omega)
    by_cases hgap : z.offset c - z.offset (c - 1) < 86400
    · exact .inl (by omega)
    refine .inr ⟨by omega, fun u hu ↦ ?_⟩
    -- The clock jumps over the whole day.
    rcases lt_or_ge u c with huc | huc
    · have := z.date_le_date (show u ≤ c - 1 by omega)
      have : z.date (c - 1) = (c - 1 + z.offset (c - 1)) / 86400 := rfl
      omega
    · have := z.date_le_date huc
      have : z.date c = (c + z.offset c) / 86400 := rfl
      omega
  · have hb := z.within (c' - 1)
    have hb' := z.within c'
    have hchange' : z.offset (c' - 1) ≠ z.offset c' := by omega
    have hcc := z.change_unique hchange hchange' (by omega) (by omega)
    subst hcc
    omega

end Dylaris.Schedule
