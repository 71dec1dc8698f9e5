import Dylaris.Schedule.Accepted

/-!
# The scheduler's next run

`nextScheduledRun` of `core/services/backup_scheduler.go`: the run after the one that is due is counted
from the instant that one was planned for, so that the lateness of the scheduler's minute tick does not
add up.  It searches twice, from now and from the planned instant, and only the first search is checked
for having found nothing.

`nextScheduledRun_ahead` is what it returns where the searches can be relied on, `Timely`;
`not_nextScheduledRun_ahead` has an input for each way in which they cannot.
-/

set_option autoImplicit false

namespace Dylaris.Schedule

open Text

/-- `time.Time.Sub`, which saturates. -/
def sub (t u : Int) : Int := max (-2 ^ 63) (min (t - u) (2 ^ 63 - 1))

/-- The panic of `fromPlan.After(now)`. -/
inductive Panic
  | nilDereference
deriving DecidableEq

/-- `nextScheduledRun`. -/
def nextScheduledRun (env : BackupEnv) (schedule tz : Text) (planned : Option Int) (now : Int) :
    Except Panic (Option Int) :=
  match computeBackupNextRun env schedule tz now, planned with
  | none, _ => .ok none
  | some next, none => .ok (some next)
  | some next, some planned =>
    if planned = zeroTime * 1000000000 then .ok (some next)
    else if sub next now ≤ sub now planned then .ok (some next)
    else match computeBackupNextRun env schedule tz planned with
      | none => .error .nilDereference
      | some fromPlan => .ok (some (if now < fromPlan then fromPlan else next))

variable {env : BackupEnv} {schedule tz : Text} {s : SpecSchedule} {z : CivilZone}
  {now planned every t : Int}

/-! ## The two searches -/

/-- A run of yesterday that a gap has moved to after now is not the first after the planned instant, or
else it is the first after now too. -/
def Unmoved (s : SpecSchedule) (z : CivilZone) (planned now : Int) : Prop :=
  ∀ t, RunOn s z (z.date now - 1) t → now < t → FirstRun s z planned t → FirstRun s z now t

/-- **A search that starts later finds the same run**, unless it starts after that run, or on the day
after the run's own. -/
theorem FirstRun.eq_of_le (hle : planned ≤ now) (hmoved : Unmoved s z planned now)
    (h : FirstRun s z planned t) (hlt : now < t) {t' : Int} (h' : FirstRun s z now t') : t' = t := by
  have hfirst := h
  obtain ⟨i, -, ⟨⟨hrun, -⟩, hleast⟩, hbefore⟩ := h
  have hdate := z.date_le_date hle
  by_cases hday : z.date now ≤ z.date planned + i
  · have hfirst' := h'
    obtain ⟨j, -, ⟨⟨hrun', hlt'⟩, hleast'⟩, hbefore'⟩ := h'
    obtain ⟨k, hk⟩ := Int.eq_ofNat_of_zero_le (Int.sub_nonneg_of_le hday)
    have hk : z.date planned + i = z.date now + k := by omega
    rcases Nat.lt_trichotomy j k with hjk | rfl | hjk
    · -- A day before has nothing left after the planned instant, so nothing after now.
      obtain ⟨m, hm⟩ := Int.eq_ofNat_of_zero_le
        (Int.sub_nonneg_of_le (show z.date planned ≤ z.date now + j by omega))
      have hm : z.date now + j = z.date planned + m := by omega
      have := hbefore m (by omega) t' (hm ▸ hrun')
      omega
    · exact le_antisymm (hleast' ⟨hk ▸ hrun, hlt⟩) (hleast ⟨hk ▸ hrun', hle.trans_lt hlt'⟩)
    · exact absurd (hbefore' k hjk t (hk ▸ hrun)) (not_le.mpr hlt)
  · -- The day of the run is over, so it is yesterday.
    have hdate' := z.date_le_date hlt.le
    have hyesterday : z.date planned + i = z.date now - 1 := by
      rcases hrun.date with h | h <;> omega
    exact h'.unique (hmoved t (hyesterday ▸ hrun) hlt hfirst)

/-- A run is not further ahead than the days that are searched. -/
theorem FirstRun.lt_add (h : FirstRun s z now t) : t < now + 1834 * 86400 := by
  obtain ⟨i, hi, ⟨⟨hrun, -⟩, -⟩, -⟩ := h
  have hdate := hrun.date
  have hbound := z.within now
  have hbound' := z.within t
  simp only [CivilZone.date, CivilZone.wallClock] at hdate
  omega

/-! ## The next run -/

theorem every_lt_of_legacyBackupEvery {t : Text} {spec : Option SpecSchedule}
    (h : legacyBackupEvery t = .ok (every, spec)) : every < 2 ^ 63 := by
  have hlt : ∀ ns, duration ns < 2 ^ 63 := fun ns ↦ Int.bmod_lt (by decide)
  rw [legacyBackupEvery] at h
  repeat' split at h
  all_goals cases h <;> exact hlt _

/-- An interval is a `time.Duration`. -/
theorem every_lt_of_parseBackupSchedule
    (h : parseBackupSchedule env schedule true = .ok (every, none)) : every < 2 ^ 63 := by
  have hspec : ∀ {t}, parseSpec env t ≠ .ok (every, none) := by
    intro t h
    obtain ⟨s, hs, -⟩ := parseSpec_spec h
    cases hs
  simp only [parseBackupSchedule] at h
  repeat' split at h
  all_goals first
    | exact every_lt_of_legacyBackupEvery h
    | exact (hspec h).elim
    | cases h
  all_goals decide

theorem nextScheduledRun_every (h : parseBackupSchedule env schedule true = .ok (every, none))
    (hpos : 0 < every) (tz : Text) (planned now : Int) :
    nextScheduledRun env schedule tz (some planned) now =
      .ok (some (if planned ≠ zeroTime * 1000000000 ∧ now - planned < every then planned + every
        else now + every)) := by
  have hlt := every_lt_of_parseBackupSchedule h
  have hlate : sub (now + every) now ≤ sub now planned ↔ ¬ now - planned < every := by
    simp only [sub]
    omega
  simp only [nextScheduledRun, computeBackupNextRun_every h hpos, hlate]
  split
  · rename_i hzero
    rw [if_neg (fun hset ↦ hset.1 hzero)]
  rename_i hset
  split
  · rename_i hover
    rw [if_neg (fun hearly ↦ hover hearly.2)]
  · rename_i hearly
    rw [if_pos (by omega), if_pos ⟨hset, not_not.mp hearly⟩]

theorem computeBackupNextRun_wall_iff (h : parseBackupSchedule env schedule true = .ok (0, some s))
    (hz : backupLocation env tz = some z) (start : Int) {next : Int} :
    computeBackupNextRun env schedule tz start = some next ↔
      ∃ t, FirstRun s z (start / 1000000000) t ∧ t * 1000000000 = next := by
  rw [computeBackupNextRun_wall h hz, Option.map_eq_some_iff]
  simp only [nextWallClockRun_eq_some_iff]

/-- A wall-clock schedule has a run in the five years from now; and unless there is no planned instant, or
the lateness is no less than the way to that run, it has one in the five years from the planned instant,
and no run of yesterday gets in the way. -/
def TimelyWall (s : SpecSchedule) (z : CivilZone) (planned now : Int) : Prop :=
  ∃ t, FirstRun s z (now / 1000000000) t ∧
    (planned = zeroTime * 1000000000 ∨ t * 1000000000 - now ≤ now - planned ∨
      (Ahead s z (planned / 1000000000)).Nonempty ∧
        Unmoved s z (planned / 1000000000) (now / 1000000000))

theorem nextScheduledRun_wall_iff (h : parseBackupSchedule env schedule true = .ok (0, some s))
    (hz : backupLocation env tz = some z) (hle : planned ≤ now) {next : Int} :
    nextScheduledRun env schedule tz (some planned) now = .ok (some next) ∧
        computeBackupNextRun env schedule tz now = some next ↔
      (∃ t, FirstRun s z (now / 1000000000) t ∧ t * 1000000000 = next) ∧
        TimelyWall s z planned now := by
  rw [computeBackupNextRun_wall_iff h hz, and_comm]
  refine and_congr_right ?_
  rintro ⟨t, ht, rfl⟩
  have hfound := (computeBackupNextRun_wall_iff h hz now).mpr ⟨t, ht, rfl⟩
  have hlt := ht.lt_add
  have hlate : sub (t * 1000000000) now ≤ sub now planned ↔ t * 1000000000 - now ≤ now - planned := by
    simp only [sub]
    omega
  have htimely : TimelyWall s z planned now ↔
      (planned = zeroTime * 1000000000 ∨ t * 1000000000 - now ≤ now - planned ∨
        (Ahead s z (planned / 1000000000)).Nonempty ∧
          Unmoved s z (planned / 1000000000) (now / 1000000000)) :=
    ⟨fun ⟨t', ht', hplan⟩ ↦ ht'.unique ht ▸ hplan, fun hplan ↦ ⟨t, ht, hplan⟩⟩
  rw [htimely]
  simp only [nextScheduledRun, hfound, hlate]
  by_cases hset : planned = zeroTime * 1000000000
  · simp [hset]
  by_cases hover : t * 1000000000 - now ≤ now - planned
  · simp [hset, hover]
  simp only [hset, hover, if_false, false_or]
  cases hplan : computeBackupNextRun env schedule tz planned with
  | none =>
    refine iff_of_false (by simp) ?_
    rintro ⟨hahead, -⟩
    obtain ⟨f, hf⟩ := exists_nextWallClockRun_of_ahead hahead
    have := (computeBackupNextRun_wall_iff h hz planned).mpr ⟨f, nextWallClockRun_eq_some_iff.mp hf, rfl⟩
    rw [hplan] at this
    cases this
  | some fromPlan =>
    obtain ⟨f, hf, rfl⟩ := (computeBackupNextRun_wall_iff h hz planned).mp hplan
    have hahead : (Ahead s z (planned / 1000000000)).Nonempty := by
      obtain ⟨i, hi, hleast, -⟩ := hf
      exact ⟨f, hleast.1.2, i, hi, hleast.1.1⟩
    simp only [hahead, true_and, Except.ok.injEq, Option.some.injEq]
    constructor
    · -- The run that is found from the planned instant, if it is ahead, is the one found from now.
      intro heq u hrun hu hfirst
      obtain rfl := hfirst.unique hf
      rw [if_pos (by omega)] at heq
      obtain rfl : u = t := by omega
      exact ht
    · intro hmoved
      split
      · rw [hf.eq_of_le (by omega) hmoved (by omega) ht]
      · rfl

/-- The interval is positive in the 64 bits it is computed in, and one without a planned instant is not
asked to be counted from it. -/
def Timely (env : BackupEnv) (schedule tz : Text) (planned now : Int) : Prop :=
  ∀ every spec, parseBackupSchedule env schedule true = .ok (every, spec) →
    match spec with
    | none => 0 < every ∧ (planned = zeroTime * 1000000000 → now - planned < every → planned = now)
    | some s => ∀ z, backupLocation env tz = some z → TimelyWall s z planned now

/-- **The next planned run is there, and ahead**, exactly where the searches can be relied on.  It is the
planned instant and an interval, for an interval schedule that is not a whole interval late, and for a
wall-clock schedule the run that is next now. -/
theorem nextScheduledRun_ahead {checked : Int}
    (haccept : checkBackupSchedule env schedule tz checked = .ok ()) (hle : planned ≤ now) :
    (∃ next, nextScheduledRun env schedule tz (some planned) now = .ok (some next) ∧ now < next ∧
      (∀ every, parseBackupSchedule env schedule true = .ok (every, none) → now - planned < every →
        next = planned + every) ∧
      ∀ s, parseBackupSchedule env schedule true = .ok (0, some s) →
        computeBackupNextRun env schedule tz now = some next) ↔
    Timely env schedule tz planned now := by
  obtain ⟨z, every, spec, hz, hparse⟩ := parse_of_accepted haccept
  simp only [Timely, hparse, Except.ok.injEq, Prod.mk.injEq]
  cases spec with
  | none =>
    simp only [and_true, reduceCtorEq, and_false, false_imp_iff, implies_true]
    constructor
    · rintro ⟨next, hnext, -, hevery⟩ _ _ ⟨rfl, rfl⟩
      by_cases hpos : 0 < every
      · refine ⟨hpos, fun hzero hearly ↦ ?_⟩
        rw [nextScheduledRun_every hparse hpos, if_neg (fun hset ↦ hset.1 hzero)] at hnext
        cases hnext
        have := hevery every rfl hearly
        omega
      · have hnone : computeBackupNextRun env schedule tz now = none := by
          rw [computeBackupNextRun, parseBackupSchedule_strict hparse]
          simp [hpos]
        simp [nextScheduledRun, hnone] at hnext
    · intro htimely
      obtain ⟨hpos, hzero⟩ := htimely every none ⟨rfl, rfl⟩
      refine ⟨_, nextScheduledRun_every hparse hpos .., ?_, ?_⟩
      · split <;> omega
      · rintro _ rfl hearly
        split
        · rfl
        · rename_i hset
          have := hzero (by tauto) hearly
          omega
  | some s =>
    obtain ⟨rfl, -, -⟩ := parseBackupSchedule_spec hparse
    simp only [reduceCtorEq, and_false, false_imp_iff, implies_true, true_and]
    constructor
    · rintro ⟨next, hnext, -, hwall⟩ _ _ ⟨rfl, rfl⟩ z' hz'
      exact ((nextScheduledRun_wall_iff hparse hz' hle).mp ⟨hnext, hwall s rfl⟩).2
    · intro htimely
      have htimely := htimely 0 (some s) ⟨rfl, rfl⟩ z hz
      obtain ⟨t, ht, -⟩ := id htimely
      obtain ⟨hnext, hwall⟩ := (nextScheduledRun_wall_iff hparse hz hle).mpr
        ⟨⟨t, ht, rfl⟩, htimely⟩
      have hafter := (nextWallClockRun_spec (nextWallClockRun_eq_some_iff.mpr ht)).1
      exact ⟨_, hnext, by omega, fun _ _ ↦ hwall⟩

/-- A run every two days, a day and an hour late. -/
theorem nextScheduledRun_ahead_every :
    nextScheduledRun someEnv (lit "every 2d") [] (some hourNs) (26 * hourNs) =
      .ok (some (49 * hourNs)) := by
  have hparse : parseBackupSchedule someEnv (lit "every 2d") true = .ok (48 * hourNs, none) := by
    decide +kernel
  have haccept : checkBackupSchedule someEnv (lit "every 2d") [] 0 = .ok () := by decide +kernel
  have htimely : Timely someEnv (lit "every 2d") [] hourNs (26 * hourNs) := by
    intro every spec h
    rw [hparse] at h
    cases h
    decide
  obtain ⟨next, hnext, -, hevery, -⟩ := (nextScheduledRun_ahead haccept (by decide)).mpr htimely
  rw [hnext, hevery _ hparse (by decide)]
  decide

/-- Twenty past midday and twenty past eleven in the evening, where ten past ten is followed by twenty to
twelve. -/
def lateEnv : BackupEnv where
  parseCron t := if t = lit "20 12,23 * * *" then some (everyDay (2 ^ 20) (2 ^ 12 + 2 ^ 23)) else none
  starsFull t s h := by
    split at h <;> cases h
    unfold SpecSchedule.StarsFull
    decide +kernel
  loadLocation _ := some leap

/-- A schedule that never runs; the 29th of February after that of 2096, in 2099; and the run of 23:20,
moved to 00:50 and asked for at 00:33, where the next run from then is that of midday. -/
theorem not_nextScheduledRun_ahead :
    (checkBackupSchedule someEnv (lit "every 2562048h") [] 0 = .ok () ∧
      nextScheduledRun someEnv (lit "every 2562048h") [] (some 0) 0 = .ok none) ∧
    (checkBackupSchedule someEnv (lit "cron 0 0 29 2 *") [] (20772 * 24 * hourNs) = .ok () ∧
      computeBackupNextRun someEnv (lit "cron 0 0 29 2 *") [] (46000 * 24 * hourNs) =
        some (46080 * 24 * hourNs) ∧
      nextScheduledRun someEnv (lit "cron 0 0 29 2 *") [] (some (46080 * 24 * hourNs))
        (47185 * 24 * hourNs) = .error .nilDereference) ∧
    (checkBackupSchedule lateEnv (lit "cron 20 12,23 * * *") (lit "X") 0 = .ok () ∧
      nextScheduledRun lateEnv (lit "cron 20 12,23 * * *") (lit "X") (some (44400 * 1000000000))
        (83000 * 1000000000) = .ok (some (84000 * 1000000000)) ∧
      computeBackupNextRun lateEnv (lit "cron 20 12,23 * * *") (lit "X") (83000 * 1000000000) =
        some (125400 * 1000000000)) := by
  refine ⟨⟨?_, ?_⟩, ⟨?_, ?_, ?_⟩, ?_, ?_, ?_⟩ <;> decide +kernel

/-- **The next run stays the next run until it comes.**  Where no run is moved past midnight, a search at any
later time before the run finds it again. -/
theorem nextWallClockRun_stable (hmoved : ∀ day t, RunOn s z day t → z.date t = day)
    (h : nextWallClockRun s z.toZone planned = some t) (hle : planned ≤ now) (hlt : now < t) :
    nextWallClockRun s z.toZone now = some t := by
  obtain ⟨i, hi, hday, -⟩ := exists_dayRun h
  have hrun := (isLeast_of_dayRun hday).1.1
  have hdate := hmoved _ _ hrun
  have hnow := z.date_le_date hle
  obtain ⟨k, hk⟩ := Int.eq_ofNat_of_zero_le (Int.sub_nonneg_of_le (z.date_le_date hlt.le))
  have hk : z.date planned + i = z.date now + k := by omega
  obtain ⟨t', ht'⟩ := exists_nextWallClockRun_of_ahead ⟨t, hlt, k, by omega, hk ▸ hrun⟩
  have hunmoved : Unmoved s z planned now := by
    intro u hu hafter
    have hu := hmoved _ _ hu
    have := z.date_le_date hafter.le
    omega
  rw [nextWallClockRun_eq_some_iff] at h
  rw [ht', h.eq_of_le hle hunmoved hlt (nextWallClockRun_eq_some_iff.mp ht')]

/-- Half past two, which is skipped: asked for before the change and at the change. -/
theorem nextWallClockRun_stable_spring :
    nextWallClockRun halfPastTwo spring.toZone 3600 = some 5400 := by
  have hmoved : ∀ day t, RunOn halfPastTwo spring day t → spring.date t = day := by
    rintro day t ⟨-, h, mi, hh, -, hmi, -, ⟨ht, -⟩ | ⟨-, c, ⟨hlo, hhi⟩, ht⟩⟩
    · rw [CivilZone.date, ht]
      exact naive_div hh hmi
    · -- The gap is an hour, and inside the day.
      have hday : naive day h mi / 86400 = day := naive_div hh hmi
      simp only [CivilZone.date, CivilZone.wallClock]
      simp only [spring, changing] at hlo hhi ht ⊢
      split_ifs at hlo hhi ht ⊢ <;> omega
  exact nextWallClockRun_stable hmoved (show nextWallClockRun _ _ 0 = some 5400 by decide +kernel)
    (by decide) (by decide)

end Dylaris.Schedule
