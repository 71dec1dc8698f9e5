import Dylaris.Schedule.Backup

/-!
# An accepted schedule runs

`checkBackupSchedule` tries the search once, from now, to refuse a schedule that never runs.
`accepted_schedule_runs` is what acceptance then gives: from every instant on there is a run, and runs
are at least an hour apart.  Three kinds of schedule get through without that, `not_accepted_schedule_runs`:

* The interval of `every <n>h` is computed in 64 bits.  2562048 hours are negative nanoseconds, and a
  schedule with a negative interval is accepted and never runs; a longer one may come out short.
* The 29th of February comes every four years, except around 2100, where it takes eight and the search
  gives up after five.
* Where a zone changes by half an hour, runs before and after the change are half an hour apart.

`Dependable` leaves these out.
-/

set_option autoImplicit false

namespace Dylaris.Schedule

open Text Calendar

variable {env : BackupEnv} {schedule tz : Text} {s : SpecSchedule} {z : CivilZone} {day t now : Int}

/-! ## The search finds a run -/

/-- A day that matches, and is no leap day, has its like within 372 days. -/
theorem exists_matchesDay (hstars : s.StarsFull) {day₀ : Int} (h : s.matchesDay day₀ = true)
    (hleap : ¬(month day₀ = 2 ∧ dayOfMonth day₀ = 29)) (day : Int) :
    ∃ k : Nat, k ≤ 372 ∧ s.matchesDay (day + k) = true := by
  have hle := dayOfYear_le day₀
  have hdoy : dayOfYear day₀ ≤ 364 := by
    have := mt dayOfYear_eq_365_iff.mp hleap
    omega
  obtain ⟨k, hk, hyear⟩ := exists_dayOfYear_eq day hdoy
  obtain ⟨hmonth, hdom⟩ := month_congr hyear
  obtain ⟨j, hj, hmonth', hdow⟩ := exists_month_weekday day day₀ (weekday_lt day₀)
  rw [SpecSchedule.matchesDay, Bool.and_eq_true] at h
  obtain ⟨hm, hd⟩ := h
  simp only [SpecSchedule.matchesDay, Bool.and_eq_true, SpecSchedule.cronDayMatches] at hd ⊢
  split at hd
  · -- A star binds both fields, and the starred one is full.
    rename_i hstar
    rw [Bool.and_eq_true] at hd
    rcases Bool.or_eq_true _ _ |>.mp hstar with hstar' | hstar'
    · have hfull := hstars.1 hstar' _ (dayOfMonth_mem (day + j)).2 (dayOfMonth_mem (day + j)).1
      exact ⟨j, hj, hmonth' ▸ hm, by rw [if_pos hstar, hfull, hdow, hd.2]; rfl⟩
    · have hfull := hstars.2 hstar' _ (weekday_lt (day + k))
      exact ⟨k, by omega, hmonth ▸ hm, by rw [if_pos hstar, hfull, hdom, hd.1]; rfl⟩
  · rename_i hstar
    rcases Bool.or_eq_true _ _ |>.mp hd with hd | hd
    · exact ⟨k, by omega, hmonth ▸ hm, by rw [if_neg hstar, hdom, hd, Bool.true_or]⟩
    · exact ⟨j, hj, hmonth' ▸ hm, by rw [if_neg hstar, hdow, hd, Bool.or_true]⟩

theorem exists_mem_wallInstants (z : Zone) (wall : Int) (both : Bool) :
    ∃ t, t ∈ wallInstants z wall both := by
  simp only [wallInstants]
  repeat' split
  all_goals exact ⟨_, List.mem_cons_self⟩

theorem exists_nextWallClockRun_of_ahead (h : (Ahead s z now).Nonempty) :
    ∃ t, nextWallClockRun s z.toZone now = some t := by
  rw [← Option.ne_none_iff_exists']
  intro hnone
  rw [ahead_eq_empty hnone] at h
  exact Set.not_nonempty_empty h

/-- A day that matches within the five years of the search has a run, which the search does not miss. -/
theorem exists_nextWallClockRun_of_matchesDay {k h mi : Nat} (hpos : 1 ≤ k) (hk : k ≤ 5 * 366)
    (hday : s.matchesDay (z.date now + k) = true) (hh : h < 24) (hhour : s.hour.testBit h = true)
    (hmi : mi < 60) (hminute : s.minute.testBit mi = true) :
    ∃ t, nextWallClockRun s z.toZone now = some t := by
  obtain ⟨t, ht⟩ := exists_mem_wallInstants z.toZone (naive (z.date now + k) h mi) s.everyHour
  have hmin : naive (z.date now + k) h mi % 60 = 0 := by
    rw [naive]
    omega
  have hrun : RunOn s z (z.date now + k) t :=
    ⟨hday, h, mi, hh, hhour, hmi, hminute, (mem_wallInstants_iff hmin).mp ht⟩
  have hafter : now < t := by
    refine z.lt_of_date_lt ?_
    rcases hrun.date with hdate | hdate <;> omega
  exact exists_nextWallClockRun_of_ahead ⟨t, hafter, k, hk, hrun⟩

/-- **There is always a next run.** -/
theorem exists_nextWallClockRun (hstars : s.StarsFull) {day₀ : Int} {h mi : Nat}
    (hday : s.matchesDay day₀ = true) (hleap : ¬(month day₀ = 2 ∧ dayOfMonth day₀ = 29))
    (hh : h < 24)
    (hhour : s.hour.testBit h = true) (hmi : mi < 60) (hminute : s.minute.testBit mi = true)
    (z : CivilZone) (now : Int) : ∃ t, nextWallClockRun s z.toZone now = some t := by
  obtain ⟨k, hk, hmatch⟩ := exists_matchesDay hstars hday hleap (z.date now + 1)
  have hday : z.date now + 1 + k = z.date now + ((1 + k : Nat) : Int) := by omega
  exact exists_nextWallClockRun_of_matchesDay (by omega) (by omega) (hday ▸ hmatch) hh hhour hmi hminute

/-- What the search returns is a run. -/
theorem run_of_nextWallClockRun (h : nextWallClockRun s z.toZone now = some t) :
    now < t ∧ ∃ day, RunOn s z day t := by
  obtain ⟨hlt, day, hr, mi, hday, hh, hhour, hmi, hminute, ht⟩ := nextWallClockRun_spec h
  have hmin : naive day hr mi % 60 = 0 := by
    rw [naive]
    omega
  exact ⟨hlt, day, hday, hr, mi, hh, hhour, hmi, hminute, (mem_wallInstants_iff hmin).mp ht⟩

/-! ## The scheduler -/

/-- The interval is an hour at least, in the 64 bits it is computed in; or the schedule matches a day
other than the 29th of February, and the zone brings no two of its runs closer than an hour. -/
def Dependable (env : BackupEnv) (schedule tz : Text) : Prop :=
  ∀ every spec, parseBackupSchedule env schedule true = .ok (every, spec) →
    match spec with
    | none => hourNs ≤ every
    | some s =>
      (∃ day, s.matchesDay day = true ∧ ¬(month day = 2 ∧ dayOfMonth day = 29)) ∧
      ∀ z, backupLocation env tz = some z → Apart s z

/-- The next run is after the start, and the one after it an hour later at least. -/
def RunsFrom (env : BackupEnv) (schedule tz : Text) (start : Int) : Prop :=
  ∃ next, computeBackupNextRun env schedule tz start = some next ∧ start < next ∧
    ∀ next', computeBackupNextRun env schedule tz next = some next' → next + hourNs ≤ next'

theorem computeBackupNextRun_every {every start : Int}
    (h : parseBackupSchedule env schedule true = .ok (every, none)) (hpos : 0 < every) :
    computeBackupNextRun env schedule tz start = some (start + every) := by
  rw [computeBackupNextRun, parseBackupSchedule_strict h]
  exact if_pos hpos

theorem computeBackupNextRun_wall {start : Int}
    (h : parseBackupSchedule env schedule true = .ok (0, some s))
    (hz : backupLocation env tz = some z) :
    computeBackupNextRun env schedule tz start =
      (nextWallClockRun s z.toZone (start / 1000000000)).map (· * 1000000000) := by
  rw [computeBackupNextRun, parseBackupSchedule_strict h]
  simp [hz]

theorem runsFrom_every {every : Int} (h : parseBackupSchedule env schedule true = .ok (every, none))
    (hhour : hourNs ≤ every) (start : Int) : RunsFrom env schedule tz start := by
  have hpos : 0 < every := by
    rw [hourNs] at hhour
    omega
  refine ⟨_, computeBackupNextRun_every h hpos, by omega, fun next' hnext ↦ ?_⟩
  rw [computeBackupNextRun_every h hpos] at hnext
  cases hnext
  omega

theorem runsFrom_wall (h : parseBackupSchedule env schedule true = .ok (0, some s))
    (hz : backupLocation env tz = some z) (hone : OneMinute s) (hapart : Apart s z)
    (hfound : ∀ now, ∃ t, nextWallClockRun s z.toZone now = some t) (start : Int) :
    RunsFrom env schedule tz start := by
  obtain ⟨t, ht⟩ := hfound (start / 1000000000)
  obtain ⟨hlt, day, hrun⟩ := run_of_nextWallClockRun ht
  refine ⟨t * 1000000000, ?_, by omega, fun next' hnext ↦ ?_⟩
  · rw [computeBackupNextRun_wall h hz, ht, Option.map_some]
  rw [computeBackupNextRun_wall h hz] at hnext
  obtain ⟨t', ht', rfl⟩ := Option.map_eq_some_iff.mp hnext
  obtain ⟨hlt', day', hrun'⟩ := run_of_nextWallClockRun ht'
  have hapart := hrun.add_hour_le hone hapart hrun' (by omega)
  rw [hourNs]
  omega

/-- The list of the next runs is as long as asked, and goes up by an hour at least. -/
theorem backupNextRuns_spec (h : ∀ start, RunsFrom env schedule tz start) (n : Nat) (start : Int) :
    (backupNextRuns env schedule tz n start).length = n ∧
      (backupNextRuns env schedule tz n start).IsChain fun a b ↦ a + hourNs ≤ b := by
  induction n generalizing start with
  | zero => exact ⟨rfl, .nil⟩
  | succ n ih =>
    obtain ⟨next, hnext, -, hfar⟩ := h start
    obtain ⟨hlen, hchain⟩ := ih next
    rw [backupNextRuns, hnext]
    refine ⟨congrArg (· + 1) hlen, ?_⟩
    cases n with
    | zero => exact .singleton _
    | succ n =>
      obtain ⟨next', hnext', -⟩ := h next
      dsimp only
      rw [backupNextRuns, hnext'] at hchain ⊢
      exact .cons_cons (hfar next' hnext') hchain

theorem parse_of_accepted (haccept : checkBackupSchedule env schedule tz now = .ok ()) :
    ∃ z every spec, backupLocation env tz = some z ∧
      parseBackupSchedule env schedule true = .ok (every, spec) := by
  rw [checkBackupSchedule] at haccept
  split at haccept
  · cases haccept
  rename_i z hz
  split at haccept
  · cases haccept
  rename_i every spec hparse
  exact ⟨z, every, spec, hz, hparse⟩

/-- The run that was found when the schedule was checked has an hour and a minute. -/
theorem exists_time_of_accepted (haccept : checkBackupSchedule env schedule tz now = .ok ())
    (hparse : parseBackupSchedule env schedule true = .ok (0, some s))
    (hz : backupLocation env tz = some z) : ∃ h mi, h < 24 ∧ s.hour.testBit h = true ∧ mi < 60 ∧
      s.minute.testBit mi = true := by
  have hsome : computeBackupNextRun env schedule tz now ≠ none := by
    intro hnone
    simp [checkBackupSchedule, hz, hparse, hnone] at haccept
  rw [computeBackupNextRun_wall hparse hz] at hsome
  obtain ⟨u, hu⟩ := Option.ne_none_iff_exists'.mp hsome
  obtain ⟨t, ht, -⟩ := Option.map_eq_some_iff.mp hu
  obtain ⟨-, -, -, h, mi, hh, hhour, hmi, hminute, -⟩ := run_of_nextWallClockRun ht
  exact ⟨h, mi, hh, hhour, hmi, hminute⟩

/-- From the end of 2096 on there is no 29th of February for longer than the search looks ahead. -/
theorem no_leapDay : ∀ j < 1840, ¬(month (46380 + (j : Nat)) = 2 ∧
    dayOfMonth (46380 + (j : Nat)) = 29) := by
  decide +kernel

theorem exists_other_day (z : CivilZone) (h : ∃ t, nextWallClockRun s z.toZone (46387 * 86400) = some t) :
    ∃ day, s.matchesDay day = true ∧ ¬(month day = 2 ∧ dayOfMonth day = 29) := by
  obtain ⟨t, ht⟩ := h
  obtain ⟨i, hi, hrun, -⟩ := exists_dayRun ht
  refine ⟨_, (isLeast_of_dayRun hrun).1.1.1, ?_⟩
  have hbound := z.within (46387 * 86400)
  have hdate : z.date (46387 * 86400) = (46387 * 86400 + z.offset (46387 * 86400)) / 86400 := rfl
  have hday : z.date (46387 * 86400) + i =
      46380 + (((z.date (46387 * 86400) - 46380).toNat + i : Nat) : Int) := by omega
  rw [hday]
  exact no_leapDay _ (by omega)

theorem hour_le_of_runs {every : Int} (hparse : parseBackupSchedule env schedule true = .ok (every, none))
    (hnext : ∃ next, computeBackupNextRun env schedule tz 0 = some next)
    (hchain : (backupNextRuns env schedule tz 2 0).IsChain fun a b ↦ a + hourNs ≤ b) :
    hourNs ≤ every := by
  by_cases hpos : 0 < every
  · simp only [backupNextRuns, computeBackupNextRun_every hparse hpos, List.isChain_cons_cons] at hchain
    omega
  · obtain ⟨next, hnext⟩ := hnext
    rw [computeBackupNextRun, parseBackupSchedule_strict hparse] at hnext
    simp [hpos] at hnext

/-- **An accepted schedule runs**, exactly if it is a dependable one: from every instant on it has a run,
which is after the instant; the runs it lists are at least an hour apart, and so are any two of its
wall-clock runs. -/
theorem accepted_schedule_runs (haccept : checkBackupSchedule env schedule tz now = .ok ()) :
    ((∀ start, ∃ next, computeBackupNextRun env schedule tz start = some next ∧ start < next) ∧
    (∀ n start, (backupNextRuns env schedule tz n start).length = n ∧
      (backupNextRuns env schedule tz n start).IsChain fun a b ↦ a + hourNs ≤ b) ∧
    ∀ every s z day day' t t', parseBackupSchedule env schedule true = .ok (every, some s) →
      backupLocation env tz = some z → RunOn s z day t → RunOn s z day' t' → t < t' →
        t + 3600 ≤ t') ↔
    Dependable env schedule tz := by
  obtain ⟨z, every, spec, hz, hparse⟩ := parse_of_accepted haccept
  constructor
  · rintro ⟨hnext, hchain, hwall⟩ every' spec' hparse'
    cases hparse.symm.trans hparse'
    cases spec with
    | none =>
      obtain ⟨next, hnext, -⟩ := hnext 0
      exact hour_le_of_runs hparse ⟨next, hnext⟩ (hchain 2 0).2
    | some s =>
      obtain ⟨rfl, -, -⟩ := parseBackupSchedule_spec hparse
      refine ⟨exists_other_day z ?_, fun z' hz' ↦ .of_add_hour_le fun day day' t t' hrun hrun' ↦
        hwall 0 s z' day day' t t' hparse hz' hrun hrun'⟩
      obtain ⟨next, hnext, -⟩ := hnext (46387 * 86400 * 1000000000)
      rw [computeBackupNextRun_wall hparse hz, Int.mul_ediv_cancel _ (by decide)] at hnext
      obtain ⟨t, ht, -⟩ := Option.map_eq_some_iff.mp hnext
      exact ⟨t, ht⟩
  intro hdep
  have hruns : ∀ start, RunsFrom env schedule tz start := by
    have hdep := hdep every spec hparse
    cases spec with
    | none => exact runsFrom_every hparse hdep
    | some s =>
      obtain ⟨rfl, hone, hstars⟩ := parseBackupSchedule_spec hparse
      obtain ⟨⟨day, hday, hleap⟩, hapart⟩ := hdep
      obtain ⟨h, mi, hh, hhour, hmi, hminute⟩ := exists_time_of_accepted haccept hparse hz
      exact runsFrom_wall hparse hz hone (hapart z hz)
        (exists_nextWallClockRun hstars hday hleap hh hhour hmi hminute z)
  refine ⟨fun start ↦ ?_, backupNextRuns_spec hruns, ?_⟩
  · obtain ⟨next, hnext, hlt, -⟩ := hruns start
    exact ⟨next, hnext, hlt⟩
  · intro every s z day day' t t' hparse hz hrun hrun' hlt
    obtain ⟨-, hone, -⟩ := parseBackupSchedule_spec hparse
    exact hrun.add_hour_le hone ((hdep every (some s) hparse).2 z hz) hrun' hlt

/-! ## Some schedules -/

/-- Midnight on the 29th of February. -/
def leapDay : SpecSchedule := ⟨1, 1, 2 ^ 29, 2 ^ 2, 2 ^ 63 + (2 ^ 7 - 1)⟩

/-- A quarter to every hour. -/
def quarterTo : SpecSchedule := everyDay (2 ^ 45) (2 ^ 63 + (2 ^ 24 - 1))

/-- At two in the morning the clock is put back by half an hour. -/
def lordHowe : CivilZone := changing (-32400) 39600 37800 (by decide) (by decide) (by decide)

def cronLines : List (Text × SpecSchedule) :=
  [(lit "30 2 * * *", halfPastTwo), (lit "0 0 29 2 *", leapDay), (lit "45 * * * *", quarterTo)]

/-- Three cron lines, and two zones. -/
def someEnv : BackupEnv where
  parseCron t := cronLines.lookup t
  starsFull t s h := by
    obtain ⟨pre, post, hlines, -⟩ := List.lookup_eq_some_iff.mp h
    have hmem : s ∈ cronLines.map Prod.snd := List.mem_map.mpr ⟨(t, s), by simp [hlines], rfl⟩
    have hall : ∀ s ∈ cronLines.map Prod.snd, s.StarsFull := by
      unfold SpecSchedule.StarsFull
      decide +kernel
    exact hall s hmem
  loadLocation tz :=
    if tz = lit "Europe/Berlin" then some spring
    else if tz = lit "Australia/Lord_Howe" then some lordHowe
    else none

theorem apart_spring (s : SpecSchedule) : Apart s spring := by
  intro c hpart
  refine absurd ?_ hpart
  simp only [spring, changing]
  split <;> split <;> omega

theorem someEnv_dependable : Dependable someEnv (lit "daily 02:30") (lit "Europe/Berlin") := by
  intro every spec hparse
  have hspec : parseBackupSchedule someEnv (lit "daily 02:30") true = .ok (0, some halfPastTwo) := by
    decide +kernel
  rw [hspec] at hparse
  cases hparse
  refine ⟨⟨0, everyDay_matchesDay _ _ _, by decide⟩, fun z hz ↦ ?_⟩
  have hzone : backupLocation someEnv (lit "Europe/Berlin") = some spring := by
    rw [backupLocation, if_neg (by decide +kernel), if_neg (by decide +kernel)]
    exact if_pos rfl
  rw [hzone] at hz
  cases hz
  exact apart_spring _

theorem accepted_schedule_runs_daily :
    checkBackupSchedule someEnv (lit "daily 02:30") (lit "Europe/Berlin") 0 = .ok () ∧
    ∀ start, ∃ next, computeBackupNextRun someEnv (lit "daily 02:30") (lit "Europe/Berlin") start =
      some next ∧ start < next := by
  have haccept : checkBackupSchedule someEnv (lit "daily 02:30") (lit "Europe/Berlin") 0 = .ok () := by
    decide +kernel
  exact ⟨haccept, ((accepted_schedule_runs haccept).mpr someEnv_dependable).1⟩

/-- Accepted schedules that never run, that stop in 2097, and that run twice within an hour. -/
theorem not_accepted_schedule_runs :
    (checkBackupSchedule someEnv (lit "every 2562048h") [] 0 = .ok () ∧
      ∀ start, computeBackupNextRun someEnv (lit "every 2562048h") [] start = none) ∧
    (checkBackupSchedule someEnv (lit "cron 0 0 29 2 *") [] (20772 * 24 * hourNs) = .ok () ∧
      computeBackupNextRun someEnv (lit "cron 0 0 29 2 *") [] (46387 * 24 * hourNs) = none) ∧
    checkBackupSchedule someEnv (lit "cron 45 * * * *") (lit "Australia/Lord_Howe") 0 = .ok () ∧
      backupNextRuns someEnv (lit "cron 45 * * * *") (lit "Australia/Lord_Howe") 2 (-10 * hourNs) =
        [-33300 * 1000000000, -31500 * 1000000000] := by
  refine ⟨⟨by decide +kernel, fun start ↦ ?_⟩, ⟨by decide +kernel, by decide +kernel⟩,
    by decide +kernel, by decide +kernel⟩
  have hparse : parseBackupSchedule someEnv (lit "every 2562048h") false =
      .ok (duration (2562048 * hourNs), none) := by decide +kernel
  rw [computeBackupNextRun, hparse]
  exact if_neg (by decide)

end Dylaris.Schedule
