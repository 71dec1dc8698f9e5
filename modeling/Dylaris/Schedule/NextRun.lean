import Dylaris.Library.Calendar
import Mathlib.Data.List.Basic
import Mathlib.Algebra.GroupWithZero.Nat
import Mathlib.Algebra.Order.Group.Int

/-!
# The next run of a schedule

A scheduled task has a cron line and a time zone, and its next run is found by walking calendar days
on the wall clock of the zone.  Instants are seconds; the parser of cron lines and the zone database
are parameters, `Env`.

A wall time is turned into instants by `wallInstants`: shifted by the gap where a change of the
offset skips it, the earlier of two where the change repeats it — or both, for a schedule that
matches every hour.  `SpecSchedule.Planned` is what that makes of a schedule: the instants of the
wall times its fields match.  `nextWallClockRun` searches five years of days, and on a day without a
change takes a shorter way, `wallInstants_of_steady`; whatever it returns is a planned time after
the start, `nextWallClockRun_spec`.

It may return nothing, as for the thirtieth of February.  The backup scheduler takes that for an
answer; `computeNextRunIn` drops it and returns Go's zero time.
-/

set_option autoImplicit false

namespace Dylaris.Schedule

open Calendar List

/-- A time zone: the offset from UTC at each instant.  Its offset changes at most once in four days,
as the short way of `nextWallClockRun` takes for granted. -/
structure Zone where
  offset : Int → Int
  bound : ∀ t, -86400 ≤ offset t ∧ offset t ≤ 86400
  steady : ∀ a t b, a ≤ t → t ≤ b → b - a ≤ 345600 → offset a = offset b → offset t = offset a

/-- UTC. -/
def utc : Zone := ⟨fun _ ↦ 0, fun _ ↦ by decide, fun _ _ _ _ _ _ _ ↦ rfl⟩

/-- robfig's `SpecSchedule`: a bit set for each field, with bit 63 for a field written as a star. -/
structure SpecSchedule where
  minute : Nat
  hour : Nat
  dom : Nat
  month : Nat
  dow : Nat
deriving DecidableEq, Repr

/-- `cronStarBit`. -/
def cronStarBit : Nat := 63

namespace SpecSchedule

variable (s : SpecSchedule)

/-- `cronDayMatches`: either day field as a star makes both bind, otherwise one is enough. -/
def cronDayMatches (day : Int) : Bool :=
  let dom := s.dom.testBit (dayOfMonth day)
  let dow := s.dow.testBit (weekday day)
  if s.dom.testBit cronStarBit || s.dow.testBit cronStarBit then dom && dow else dom || dow

/-- The day has runs. -/
def matchesDay (day : Int) : Bool := s.month.testBit (Calendar.month day) && s.cronDayMatches day

/-- The schedule matches every hour of the day. -/
def everyHour : Bool := (List.range 24).all s.hour.testBit

/-- The times of day, from an hour on. -/
def times (startH : Nat) : List (Nat × Nat) :=
  ((List.range 24).filter fun h ↦ startH ≤ h && s.hour.testBit h).flatMap fun h ↦
    ((List.range 60).filter s.minute.testBit).map fun mi ↦ (h, mi)

theorem mem_times {s : SpecSchedule} {startH : Nat} {p : Nat × Nat} (h : p ∈ s.times startH) :
    p.1 < 24 ∧ s.hour.testBit p.1 = true ∧ p.2 < 60 ∧ s.minute.testBit p.2 = true := by
  obtain ⟨hr, hhr, hp⟩ := mem_flatMap.mp h
  obtain ⟨mi, hmi, rfl⟩ := mem_map.mp hp
  rw [mem_filter, mem_range, Bool.and_eq_true] at hhr
  rw [mem_filter, mem_range] at hmi
  exact ⟨hhr.1, hhr.2.2, hmi⟩

end SpecSchedule

/-- A wall time as the instant it would be in UTC. -/
def naive (day : Int) (h mi : Nat) : Int := day * 86400 + h * 3600 + mi * 60

/-- The clock of the zone shows the wall time at the instant. -/
def occurs (z : Zone) (wall t : Int) : Bool := (t + z.offset t) / 60 * 60 = wall

/-- `wallInstants`.  The two candidates come from the offsets on either side of any change on that
day. -/
def wallInstants (z : Zone) (wall : Int) (both : Bool) : List Int :=
  let t₁ := wall - z.offset (wall - 129600)
  let t₂ := wall - z.offset (wall + 129600)
  match occurs z wall t₁, occurs z wall t₂ && t₂ ≠ t₁ with
  | true, true => if both then [min t₁ t₂, max t₁ t₂] else [min t₁ t₂]
  | true, false => [t₁]
  | false, true => [t₂]
  | false, false => [t₁]

/-- An instant of a wall time the schedule matches. -/
def SpecSchedule.Planned (s : SpecSchedule) (z : Zone) (t : Int) : Prop :=
  ∃ day h mi, s.matchesDay day = true ∧ h < 24 ∧ s.hour.testBit h = true ∧ mi < 60 ∧
    s.minute.testBit mi = true ∧ t ∈ wallInstants z (naive day h mi) s.everyHour

/-- On a day without a change the order of the wall times is the order of the instants, so the first
that is after `now` is the answer. -/
def steadyDayRun (s : SpecSchedule) (z : Zone) (now day : Int) (startH : Nat) : Option Int :=
  ((s.times startH).map fun p ↦ naive day p.1 p.2 - z.offset (day * 86400 - 129600)).find? (now < ·)

/-- On a day with one it is the minimum, not the first: a run shifted out of a gap can land after a
later wall time. -/
def changeDayRun (s : SpecSchedule) (z : Zone) (now day : Int) : Option Int :=
  (((s.times 0).flatMap fun p ↦ wallInstants z (naive day p.1 p.2) s.everyHour).filter
    (now < ·)).min?

/-- The first run after `now` on the `i`-th day from it. -/
def dayRun (s : SpecSchedule) (z : Zone) (now : Int) (i : Nat) : Option Int :=
  let wall := now + z.offset now
  let day := wall / 86400 + i
  if s.matchesDay day then
    if z.offset (day * 86400 - 129600) = z.offset (day * 86400 + 216000) then
      steadyDayRun s z now day (if i = 0 then (wall % 86400 / 3600).toNat else 0)
    else changeDayRun s z now day
  else none

/-- `nextWallClockRun`. -/
def nextWallClockRun (s : SpecSchedule) (z : Zone) (now : Int) : Option Int :=
  (List.range (5 * 366 + 1)).findSome? (dayRun s z now)

/-! ## What the search finds -/

variable {z : Zone}

/-- Where the offset is the same on both sides of a wall time, it has the one instant. -/
theorem wallInstants_of_steady {wall o : Int} (both : Bool) (hmin : wall % 60 = 0)
    (ho : ∀ t, wall - 129600 ≤ t → t ≤ wall + 129600 → z.offset t = o) :
    wallInstants z wall both = [wall - o] := by
  have hbound := z.bound wall
  have hwall : z.offset wall = o := ho wall (by omega) (by omega)
  have hbefore : z.offset (wall - 129600) = o := ho _ (by omega) (by omega)
  have hafter : z.offset (wall + 129600) = o := ho _ (by omega) (by omega)
  have hoccurs : occurs z wall (wall - o) = true := by
    have hoff : z.offset (wall - o) = o := ho _ (by omega) (by omega)
    rw [occurs, hoff, decide_eq_true_eq]
    omega
  simp [wallInstants, hbefore, hafter, hoccurs]

variable {day : Int}

/-- A day without a change: the short way finds the instants of the wall times. -/
theorem mem_wallInstants_of_eq {h mi : Nat} (hh : h < 24) (hmi : mi < 60)
    (both : Bool) (heq : z.offset (day * 86400 - 129600) = z.offset (day * 86400 + 216000)) :
    naive day h mi - z.offset (day * 86400 - 129600) ∈ wallInstants z (naive day h mi) both := by
  have hsteady : ∀ t, naive day h mi - 129600 ≤ t → t ≤ naive day h mi + 129600 →
      z.offset t = z.offset (day * 86400 - 129600) := by
    intro t hlo hhi
    rw [naive] at hlo hhi
    exact z.steady _ t _ (by omega) (by omega) (by omega) heq
  rw [wallInstants_of_steady both (by rw [naive]; omega) hsteady]
  exact mem_singleton_self _

variable {now t : Int}

variable {s : SpecSchedule}

theorem steadyDayRun_spec {startH : Nat} (hday : s.matchesDay day = true)
    (heq : z.offset (day * 86400 - 129600) = z.offset (day * 86400 + 216000))
    (h : steadyDayRun s z now day startH = some t) : now < t ∧ s.Planned z t := by
  have hlt := find?_some h
  obtain ⟨p, hp, rfl⟩ := mem_map.mp (mem_of_find?_eq_some h)
  obtain ⟨hh, hhour, hmi, hminute⟩ := SpecSchedule.mem_times hp
  exact ⟨of_decide_eq_true hlt, day, p.1, p.2, hday, hh, hhour, hmi, hminute,
    mem_wallInstants_of_eq hh hmi _ heq⟩

theorem changeDayRun_spec (hday : s.matchesDay day = true) (h : changeDayRun s z now day = some t) :
    now < t ∧ s.Planned z t := by
  have hmem := min?_mem h
  rw [mem_filter, mem_flatMap] at hmem
  obtain ⟨⟨p, hp, ht⟩, hlt⟩ := hmem
  obtain ⟨hh, hhour, hmi, hminute⟩ := SpecSchedule.mem_times hp
  exact ⟨of_decide_eq_true hlt, day, p.1, p.2, hday, hh, hhour, hmi, hminute, ht⟩

/-- **What the search returns is a planned time, after the start.** -/
theorem nextWallClockRun_spec
    (h : nextWallClockRun s z now = some t) : now < t ∧ s.Planned z t := by
  obtain ⟨i, _, hi⟩ := exists_of_findSome?_eq_some h
  rw [dayRun] at hi
  split at hi
  · rename_i hday
    split at hi
    · rename_i heq
      exact steadyDayRun_spec hday heq hi
    · exact changeDayRun_spec hday hi
  · cases hi

/-! ## Cron lines -/

/-- What a cron line means: fields, or an interval in seconds (`@every`). -/
inductive Cron
  | spec (s : SpecSchedule)
  | every (delay : Int)
deriving DecidableEq, Repr

/-- The parser of cron lines and the zone database. -/
structure Env where
  parse : String → Option Cron
  zone : String → Option Zone

/-- Go's zero time, 0001-01-01. -/
def zeroTime : Int := -62135596800

/-- `taskZone`, and the default of `ComputeNextRunIn`. -/
def taskZone (tz : String) : String := if tz = "" then "UTC" else tz

/-- `unicode.IsSpace`. -/
def isSpace (c : Char) : Bool :=
  (9 ≤ c.toNat && c.toNat ≤ 13) || (0x2000 ≤ c.toNat && c.toNat ≤ 0x200A) ||
    [0x20, 0x85, 0xA0, 0x1680, 0x2028, 0x2029, 0x202F, 0x205F, 0x3000].contains c.toNat

/-- `strings.TrimSpace`. -/
def stringsTrimSpace (s : String) : String :=
  String.ofList ((s.toList.dropWhile isSpace).reverse.dropWhile isSpace).reverse

/-- `ComputeNextRunIn`. -/
def computeNextRunIn (env : Env) (cronExpr tz : String) (now : Int) : Except String Int :=
  match env.zone (taskZone tz) with
  | none => .error ("invalid time zone \"" ++ taskZone tz ++ "\"")
  | some z =>
    let spec := stringsTrimSpace cronExpr
    if spec = "" then .error "invalid cron: empty schedule"
    else if 128 < spec.utf8ByteSize then .error "invalid cron: longer than 128 characters"
    else if "TZ=".toList.isPrefixOf spec.toList || "CRON_TZ=".toList.isPrefixOf spec.toList then
      .error "invalid cron: set the time zone in its own field, not in the schedule"
    else match env.parse spec with
      | none => .error "invalid cron"
      | some (.every delay) =>
        if delay < 60 then .error "invalid cron: the shortest interval is 1m0s" else .ok (now + delay)
      -- the flag that says whether there is a next run is dropped
      | some (.spec s) => .ok ((nextWallClockRun s z now).getD zeroTime)

/-- A reading of the clock from which a next run of a schedule has been counted. -/
structure Counted where
  scheduleCron : String
  timezone : String
  start : Int
deriving DecidableEq, Repr

/-- An instant at which a cron line plans a run.  The runs of an interval are counted from the last, so it
plans one for an interval after each reading of the clock from which one was counted. -/
def Planned (env : Env) (counted : List Counted) (cronExpr tz : String) (t : Int) : Prop :=
  match env.zone (taskZone tz), env.parse (stringsTrimSpace cronExpr) with
  | some z, some (.spec s) => s.Planned z t
  | some _, some (.every delay) => ∃ start, ⟨cronExpr, taskZone tz, start⟩ ∈ counted ∧
      t = start + delay
  | _, _ => False

/-- The search for the next run finds one. -/
def Found (env : Env) (cronExpr tz : String) (now : Int) : Bool :=
  match env.zone (taskZone tz), env.parse (stringsTrimSpace cronExpr) with
  | some z, some (.spec s) => (nextWallClockRun s z now).isSome
  | some _, some (.every _) => true
  | _, _ => false

theorem Planned.mono {env : Env} {counted counted' : List Counted} {cronExpr tz : String}
    (h : Planned env counted cronExpr tz t) (hsub : counted ⊆ counted') :
    Planned env counted' cronExpr tz t := by
  rw [Planned] at h ⊢
  split at h
  · exact h
  · obtain ⟨start, hmem, ht⟩ := h
    exact ⟨start, hsub hmem, ht⟩
  · exact h

theorem computeNextRunIn_spec {env : Env} {counted : List Counted} {cronExpr tz : String} {next : Int}
    (h : computeNextRunIn env cronExpr tz now = .ok next)
    (hfound : Found env cronExpr tz now = true) (hcounted : ⟨cronExpr, taskZone tz, now⟩ ∈ counted) :
    now < next ∧ Planned env counted cronExpr tz next := by
  rw [Found] at hfound
  rw [Planned]
  rw [computeNextRunIn] at h
  split at h
  · cases h
  rename_i z hz
  dsimp only at h
  split at h
  · cases h
  split at h
  · cases h
  split at h
  · cases h
  split at h
  · cases h
  · rename_i delay hparse
    split at h
    · cases h
    · rename_i hshort
      rw [hz, hparse, ← Except.ok.inj h]
      exact ⟨by omega, now, hcounted, rfl⟩
  · rename_i s hparse
    rw [hz, hparse] at hfound ⊢
    obtain ⟨t, ht⟩ := Option.isSome_iff_exists.mp hfound
    rw [← Except.ok.inj h, ht]
    exact nextWallClockRun_spec ht

/-- Whether a cron line is accepted does not depend on when it is asked. -/
theorem computeNextRunIn_isOk {env : Env} {cronExpr tz : String} {next : Int}
    (h : computeNextRunIn env cronExpr tz now = .ok next) (now' : Int) :
    ∃ next', computeNextRunIn env cronExpr tz now' = .ok next' := by
  rw [computeNextRunIn] at h ⊢
  split at h
  · cases h
  dsimp only at h ⊢
  split at h
  · cases h
  rename_i hempty
  rw [if_neg hempty]
  split at h
  · cases h
  rename_i hlong
  rw [if_neg hlong]
  split at h
  · cases h
  rename_i hzone
  rw [if_neg hzone]
  split at h
  · cases h
  · split at h
    · cases h
    · rename_i hshort
      rw [if_neg hshort]
      exact ⟨_, rfl⟩
  · exact ⟨_, rfl⟩

/-! ## A schedule without a run -/

/-- `0 0 30 2 *`. -/
def februaryThirtieth : SpecSchedule := ⟨1, 1, 2 ^ 30, 2 ^ 2, 2 ^ 63 + 127⟩

open SpecSchedule in
theorem februaryThirtieth_not_matchesDay (day : Int) :
    februaryThirtieth.matchesDay day = false := by
  by_cases hmonth : Calendar.month day = 2
  · have hle := dayOfMonth_le_of_february hmonth
    have hdom : (2 ^ 30).testBit (dayOfMonth day) = false := by
      rw [Nat.testBit_two_pow]
      exact decide_eq_false (by omega)
    have hstar : februaryThirtieth.dow.testBit cronStarBit = true := by decide
    rw [matchesDay, cronDayMatches, hstar, Bool.or_true, if_pos rfl, februaryThirtieth, hdom,
      Bool.false_and, Bool.and_false]
  · have hbit : (2 ^ 2).testBit (Calendar.month day) = false := by
      rw [Nat.testBit_two_pow]
      exact decide_eq_false (Ne.symm hmonth)
    rw [matchesDay, februaryThirtieth, hbit, Bool.false_and]

theorem not_planned_februaryThirtieth (z : Zone) (t : Int) : ¬ februaryThirtieth.Planned z t := by
  rintro ⟨day, _, _, hday, _⟩
  rw [februaryThirtieth_not_matchesDay] at hday
  cases hday

end Dylaris.Schedule
