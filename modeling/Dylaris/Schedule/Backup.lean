import Dylaris.Library.Text
import Dylaris.Schedule.Apart

/-!
# Backup schedules

`core/services/backup_schedule.go`.  A backup job has one string that says when it runs: an interval
counted from the previous run (`every 6h`), or wall-clock times in the job's zone (`daily 03:30`,
`weekly sun 04:00`, `every 6h from 12:00`, `cron …`), which become cron fields.  `checkBackupSchedule`
decides with the strict parser whether it may be stored; `computeBackupNextRun` reads what is stored, with
the parser as it was before.

Instants are nanoseconds here, and a `time.Duration` is 64 bits of them.  The search for wall-clock runs
works on whole seconds, so it looks from the second the start is in.  robfig's cron parser is a
parameter; that a star stands for every value is all that is asked of it.  The zones are those of
`CivilZone`.
-/

set_option autoImplicit false

namespace Dylaris.Schedule

open Text

/-- Why a schedule is refused. -/
inductive ScheduleError
  /-- `the schedule is longer than 128 characters` -/
  | tooLong
  /-- `BackupScheduleHelp` -/
  | help
  /-- `"every <n>h from HH:MM" needs n to be 1, 2, 3, 4, 6, 8, 12 or 24` -/
  | divisor
  /-- `invalid time %q: use 24-hour HH:MM, for example 03:30` -/
  | invalidTime (clock : Text)
  /-- `unknown weekday %q: use mon, tue, wed, thu, fri, sat or sun` -/
  | unknownWeekday (day : Text)
  /-- `a cron schedule has exactly five fields: minute hour day-of-month month day-of-week` -/
  | fiveFields
  /-- `set the time zone in its own field, not in the schedule` -/
  | zoneInSchedule
  /-- `invalid cron` -/
  | invalidCron
  /-- `a backup runs at most once an hour: give the minute field a single value, for example 0` -/
  | onceAnHour
  /-- `invalid time zone %q` -/
  | invalidZone (tz : Text)
  /-- `this schedule never runs` -/
  | neverRuns
deriving DecidableEq, Repr

/-- A star in a day field stands for every value. -/
def SpecSchedule.StarsFull (s : SpecSchedule) : Prop :=
  (s.dom.testBit cronStarBit = true → ∀ k, k ≤ 31 → 1 ≤ k → s.dom.testBit k = true) ∧
  (s.dow.testBit cronStarBit = true → ∀ k, k < 7 → s.dow.testBit k = true)

/-- The cron parser and the zone database. -/
structure BackupEnv where
  /-- `backupCronParser.Parse`. -/
  parseCron : Text → Option SpecSchedule
  starsFull : ∀ t s, parseCron t = some s → s.StarsFull
  /-- `time.LoadLocation`. -/
  loadLocation : Text → Option CivilZone

/-! ## The parser -/

/-- The arithmetic of a `time.Duration`. -/
def duration (ns : Int) : Int := ns.bmod (2 ^ 64)

/-- `time.Hour`. -/
def hourNs : Int := 3600000000000

/-- `SkipSpace` of a scan that a newline ends. -/
def skipSpace (t : Text) : Option Text :=
  let rest := trimLeft t
  if (t.take (t.length - rest.length)).contains 0x0A then none else some rest

/-- `fmt.Sscanf(s, "every %d%s", &n, &unit)`.  What follows the unit is not looked at. -/
def scanEvery (t : Text) : Option (Int × Text) :=
  if (lit "every").isPrefixOf t then
    let t := t.drop 5
    if t ≠ [] ∧ widthOf spaces t = 0 then none
    else
      (skipSpace t).bind fun t ↦
        let sign := (t.take 1).filter fun b ↦ b = 0x2B || b = 0x2D
        let digits := (t.drop sign.length).takeWhile isDigit
        (parseInt64 (sign ++ digits)).bind fun n ↦
          (skipSpace (t.drop (sign.length + digits.length))).bind fun t ↦
            (fields t).head?.map fun unit ↦ (n, unit)
  else none

/-- `legacyBackupEvery`. -/
def legacyBackupEvery (t : Text) : Except ScheduleError (Int × Option SpecSchedule) :=
  match scanEvery t with
  | none => .error .help
  | some (n, unit) =>
    if n ≤ 0 then .error .help
    else if unit = lit "h" then .ok (duration (n * hourNs), none)
    else if unit = lit "d" then .ok (duration (n * 24 * hourNs), none)
    else .error .help

/-- `parseBackupClock`: `time.Parse` takes an hour of one digit or two. -/
def parseBackupClock (clock : Text) : Except ScheduleError (Nat × Nat) :=
  let hour := clock.takeWhile isDigit
  let minute := clock.drop (hour.length + 1)
  if hour.length ∈ [1, 2] ∧ decimal hour < 24 ∧ clock[hour.length]? = some 0x3A ∧
      minute.length = 2 ∧ minute.all isDigit ∧ decimal minute < 60 then
    .ok (decimal hour, decimal minute)
  else .error (.invalidTime clock)

/-- `%d`. -/
def number (n : Nat) : Text := lit (toString n)

/-- `anchoredBackupSpec`. -/
def anchoredBackupSpec (every clock : Text) : Except ScheduleError Text :=
  match if (lit "h").isSuffixOf every then parseInt64 every.dropLast else none with
  | none => .error .divisor
  | some n =>
    if n ≤ 0 ∨ 24 % n ≠ 0 then .error .divisor
    else match parseBackupClock clock with
      | .error e => .error e
      | .ok (hh, mm) =>
        let hours := (List.range (24 / n.toNat)).map fun i ↦ number (hh % n.toNat + i * n.toNat)
        .ok (number mm ++ lit " " ++ (lit ",").intercalate hours ++ lit " * * *")

/-- `backupWeekdays`. -/
def backupWeekdays : List (Text × Nat) :=
  [(lit "sun", 0), (lit "mon", 1), (lit "tue", 2), (lit "wed", 3), (lit "thu", 4), (lit "fri", 5),
    (lit "sat", 6)]

/-- The end of `parseBackupSchedule`: the cron parser, and one value in the minute field. -/
def parseSpec (env : BackupEnv) (spec : Text) : Except ScheduleError (Int × Option SpecSchedule) :=
  match env.parseCron spec with
  | none => .error .invalidCron
  | some s =>
    if ((List.range cronStarBit).filter s.minute.testBit).length ≠ 1 then .error .onceAnHour
    else .ok (0, some s)

/-- `parseBackupSchedule`: an interval, or cron fields, or neither. -/
def parseBackupSchedule (env : BackupEnv) (schedule : Text) (strict : Bool) :
    Except ScheduleError (Int × Option SpecSchedule) :=
  let s := trimSpace schedule
  if s = [] ∨ s = lit "manual" then .ok (0, none)
  else if 128 < s.length then .error .tooLong
  else
    let f := fields s
    let kind := f.getD 0 []
    if kind = lit "every" ∧ f.length = 4 ∧ f.getD 2 [] = lit "from" then
      match anchoredBackupSpec (f.getD 1 []) (f.getD 3 []) with
      | .ok spec => parseSpec env spec
      | .error e => if strict then .error e else legacyBackupEvery s
    else if kind = lit "daily" ∧ f.length = 2 then
      match parseBackupClock (f.getD 1 []) with
      | .ok (hh, mm) => parseSpec env (number mm ++ lit " " ++ number hh ++ lit " * * *")
      | .error e => .error e
    else if kind = lit "weekly" ∧ f.length = 3 then
      match backupWeekdays.lookup (f.getD 1 []) with
      | none => .error (.unknownWeekday (f.getD 1 []))
      | some day =>
        match parseBackupClock (f.getD 2 []) with
        | .ok (hh, mm) =>
          parseSpec env (number mm ++ lit " " ++ number hh ++ lit " * * " ++ number day)
        | .error e => .error e
    else if kind = lit "cron" then
      if f.length ≠ 6 then .error .fiveFields
      else
        let spec := (lit " ").intercalate f.tail
        if spec.contains 0x3D then .error .zoneInSchedule else parseSpec env spec
    else if kind = lit "every" then
      if strict ∧ f.length ≠ 2 then .error .help else legacyBackupEvery s
    else .error .help

def CivilZone.utc : CivilZone where
  toZone := Schedule.utc
  whole _ := rfl
  within _ := by simp [Schedule.utc]
  once _ := ⟨0, 0, 0, fun _ _ _ ↦ by split <;> rfl⟩
  inside _ h := absurd rfl h

/-- `backupLocation`, with `ValidTimezone`. -/
def backupLocation (env : BackupEnv) (tz : Text) : Option CivilZone :=
  if tz = [] then some .utc
  else if tz = lit "Local" ∨ 64 < tz.length ∨ tz.any (lit " \t\r\n").contains then none
  else env.loadLocation tz

/-- `ComputeBackupNextRun`. -/
def computeBackupNextRun (env : BackupEnv) (schedule tz : Text) (start : Int) : Option Int :=
  match parseBackupSchedule env schedule false with
  | .error _ => none
  | .ok (every, spec) =>
    if 0 < every then some (start + every)
    else match spec, backupLocation env tz with
      | some s, some z =>
        (nextWallClockRun s z.toZone (start / 1000000000)).map (· * 1000000000)
      | _, _ => none

/-- `BackupNextRuns`. -/
def backupNextRuns (env : BackupEnv) (schedule tz : Text) : Nat → Int → List Int
  | 0, _ => []
  | n + 1, start =>
    match computeBackupNextRun env schedule tz start with
    | none => []
    | some next => next :: backupNextRuns env schedule tz n next

/-- `CheckBackupSchedule`. -/
def checkBackupSchedule (env : BackupEnv) (schedule tz : Text) (now : Int) :
    Except ScheduleError Unit :=
  match backupLocation env tz with
  | none => .error (.invalidZone tz)
  | some _ =>
    match parseBackupSchedule env schedule true with
    | .error e => .error e
    | .ok (every, spec) =>
      if every = 0 ∧ spec ≠ none ∧ computeBackupNextRun env schedule tz now = none then
        .error .neverRuns
      else .ok ()

/-! ## What the parser returns -/

variable {env : BackupEnv} {schedule tz : Text} {spec : Option SpecSchedule} {every : Int}

theorem legacyBackupEvery_spec {t : Text}
    (h : legacyBackupEvery t = .ok (every, spec)) : spec = none := by
  rw [legacyBackupEvery] at h
  split at h
  · cases h
  · repeat' split at h
    all_goals cases h <;> rfl

theorem parseSpec_spec {t : Text}
    (h : parseSpec env t = .ok (every, spec)) :
    ∃ s, spec = some s ∧ every = 0 ∧ OneMinute s ∧ s.StarsFull := by
  rw [parseSpec] at h
  split at h
  · cases h
  rename_i s hs
  split at h
  · cases h
  rename_i hone
  cases h
  refine ⟨s, rfl, rfl, ?_, env.starsFull t s hs⟩
  obtain ⟨m, hm⟩ := List.length_eq_one_iff.mp (not_not.mp hone)
  have hmem : ∀ k, k < 60 → s.minute.testBit k = true → k = m := by
    intro k hk hbit
    have : k ∈ (List.range cronStarBit).filter s.minute.testBit := by
      rw [List.mem_filter, List.mem_range, cronStarBit]
      exact ⟨by omega, hbit⟩
    rw [hm] at this
    exact List.mem_singleton.mp this
  intro k k' hk hk' hbit hbit'
  rw [hmem k hk hbit, hmem k' hk' hbit']

/-- A schedule that is no interval has one minute, and stars that are full. -/
theorem parseBackupSchedule_spec {strict : Bool} {s : SpecSchedule}
    (h : parseBackupSchedule env schedule strict = .ok (every, some s)) :
    every = 0 ∧ OneMinute s ∧ s.StarsFull := by
  have hspec : ∀ {t}, parseSpec env t = .ok (every, some s) →
      every = 0 ∧ OneMinute s ∧ s.StarsFull := by
    intro t h
    obtain ⟨s', hs, h⟩ := parseSpec_spec h
    cases hs
    exact h
  have hlegacy : ∀ {t}, legacyBackupEvery t ≠ .ok (every, some s) := by
    intro t h
    cases legacyBackupEvery_spec h
  simp only [parseBackupSchedule] at h
  repeat' split at h
  all_goals first
    | exact hspec h
    | exact (hlegacy h).elim
    | cases h

/-- What the strict parser accepts, the other reads alike. -/
theorem parseBackupSchedule_strict {r : Int × Option SpecSchedule}
    (h : parseBackupSchedule env schedule true = .ok r) :
    parseBackupSchedule env schedule false = .ok r := by
  simp only [parseBackupSchedule] at h ⊢
  by_cases hmanual : trimSpace schedule = [] ∨ trimSpace schedule = lit "manual"
  · rwa [if_pos hmanual] at h ⊢
  rw [if_neg hmanual] at h ⊢
  by_cases hlong : 128 < (trimSpace schedule).length
  · rwa [if_pos hlong] at h ⊢
  rw [if_neg hlong] at h ⊢
  generalize fields (trimSpace schedule) = f at *
  by_cases hfrom : f.getD 0 [] = lit "every" ∧ f.length = 4 ∧ f.getD 2 [] = lit "from"
  · rw [if_pos hfrom] at h ⊢
    cases hspec : anchoredBackupSpec (f.getD 1 []) (f.getD 3 []) with
    | ok spec =>
      rw [hspec] at h
      exact h
    | error e =>
      rw [hspec] at h
      cases h
  rw [if_neg hfrom] at h ⊢
  by_cases hdaily : f.getD 0 [] = lit "daily" ∧ f.length = 2
  · rwa [if_pos hdaily] at h ⊢
  rw [if_neg hdaily] at h ⊢
  by_cases hweekly : f.getD 0 [] = lit "weekly" ∧ f.length = 3
  · rwa [if_pos hweekly] at h ⊢
  rw [if_neg hweekly] at h ⊢
  by_cases hcron : f.getD 0 [] = lit "cron"
  · rwa [if_pos hcron] at h ⊢
  rw [if_neg hcron] at h ⊢
  by_cases hevery : f.getD 0 [] = lit "every"
  · rw [if_pos hevery] at h ⊢
    split at h
    · cases h
    · rwa [if_neg (by simp)]
  · rwa [if_neg hevery] at h ⊢

end Dylaris.Schedule
