import Dylaris.Schedule.Task

/-!
# A scheduled task fires once per planned time

The claim moves `next_run` on before the task is carried out, and only while the row still holds the
value the executor read, so of any number of executors that list a due task one fires it.  What the
claim does not protect against is the rest.

* `computeNextRunIn` drops the answer "there is no next run".  A schedule without one — the
  thirtieth of February — is accepted, and its next run is the zero time: due at once, claimed from
  the zero time to the zero time, and so fired on every tick by every executor,
  `not_once_february_thirtieth`.
* An edit writes back the `next_run` it has read.  A claim in between is undone, and the planned time
  fires again.
* The record after a firing writes the `next_run` of its claim, whatever has happened since: a
  slow executor takes back a later claim, or an edit's new schedule.
* A claim compares `next_run` only.  If an edit has meanwhile given the task another schedule with
  the same next run, the claim moves it to a time of the old one.

`Calm` excludes these, and an edit that computes a next run by a clock behind a time already fired.
-/

set_option autoImplicit false

namespace Dylaris.Schedule

open Machine List Option Bool

/-! ## The condition -/

/-- The next run that a claim has set and its record will write. -/
def RunStage.next : RunStage → Option Int
  | .claimed next => some next
  | _ => none

/-- The row is as the edit read it, as far as the schedule goes. -/
def Task.SameSchedule (t e : Task) : Prop :=
  t.scheduleCron = e.scheduleCron ∧ t.timezone = e.timezone ∧ t.enabled = e.enabled ∧
    t.nextRun = e.nextRun

instance (t e : Task) : Decidable (t.SameSchedule e) := inferInstanceAs (Decidable (_ ∧ _))

/-- The row an edit writes, if it computes a next run for it. -/
def recomputed (env : Env) (e : Task) (req : TaskRequest) (holdsCap : Bool) (now : Int) :
    Option Task :=
  if req.recomputes e then (updateTask env e req holdsCap now).toOption else none

/-- The condition on the steps.

A claim that succeeds finds the schedule it has listed, and there is a next run.  A record finds the
next run its claim has set.  An edit finds the row as it has read it, and if it computes a next run,
there is one, and its clock is not behind a time that has been fired. -/
def Calm (env : Env) (w : World) : Action → Prop
  | .claim i _ => ∀ r ∈ w.runs[i]?, ∀ t ∈ w.row, r.wins t = true →
      t.scheduleCron = r.task.scheduleCron ∧ t.timezone = r.task.timezone ∧
        Found env r.task.scheduleCron r.task.timezone r.now = true
  | .record i _ _ => ∀ r ∈ w.runs[i]?, ∀ t ∈ w.row, ∀ next ∈ r.stage.next, t.nextRun = some next
  | .update j req holdsCap now _ => ∀ e ∈ w.edits[j]?, ∀ t ∈ w.row, t.SameSchedule e ∧
      ∀ e' ∈ recomputed env e req holdsCap now,
        Found env e'.scheduleCron e'.timezone now = true ∧ ∀ f ∈ w.fired, f.planned ≤ now
  | _ => True

instance (env : Env) (w : World) : ∀ a, Decidable (Calm env w a)
  | .claim .. | .record .. | .update .. => by
    unfold Calm
    infer_instance
  | .list .. | .disable .. | .recordError .. | .get | .delete => .isTrue trivial

/-! ## A row whose next run is planned and ahead -/

/-- The schedule is accepted, and the next run is one of its planned times, after all that has been
fired. -/
structure Timed (env : Env) (counted : List Counted) (fired : List Fire) (t : Task) : Prop where
  accepted : ∃ next, computeNextRunIn env t.scheduleCron t.timezone 0 = .ok next
  planned : ∀ n, t.nextRun = some n → Planned env counted t.scheduleCron t.timezone n
  ahead : ∀ n, t.nextRun = some n → ∀ f ∈ fired, f.planned < n

/-- An enabled task has a next run. -/
structure TaskOk (env : Env) (counted : List Counted) (fired : List Fire) (t : Task) : Prop
    extends Timed env counted fired t where
  next_of_enabled : t.enabled = true → t.nextRun.isSome = true

variable {env : Env} {counted : List Counted} {fired : List Fire} {t e : Task} {req : TaskRequest} {now : Int}

theorem Timed.congr (h : Timed env counted fired t) (hcron : e.scheduleCron = t.scheduleCron)
    (htz : e.timezone = t.timezone) (hnext : e.nextRun = t.nextRun) : Timed env counted fired e where
  accepted := by rw [hcron, htz]; exact h.accepted
  planned n hn := by rw [hcron, htz]; exact h.planned n (hnext ▸ hn)
  ahead n hn := h.ahead n (hnext ▸ hn)

theorem TaskOk.mono {counted' : List Counted} (h : TaskOk env counted fired t)
    (hsub : counted ⊆ counted') : TaskOk env counted' fired t :=
  { h with planned := fun n hn ↦ (h.planned n hn).mono hsub }

/-- A next run that was computed. -/
theorem Timed.of_computed {next : Int}
    (hnext : computeNextRunIn env t.scheduleCron t.timezone now = .ok next)
    (hfound : Found env t.scheduleCron t.timezone now = true)
    (hcounted : ⟨t.scheduleCron, taskZone t.timezone, now⟩ ∈ counted)
    (hclock : ∀ f ∈ fired, f.planned ≤ now) (ht : t.nextRun = some next) :
    Timed env counted fired t := by
  obtain ⟨hlt, hplanned⟩ := computeNextRunIn_spec hnext hfound hcounted
  refine ⟨computeNextRunIn_isOk hnext 0, fun n hn ↦ ?_, fun n hn f hf ↦ ?_⟩
  · rw [ht] at hn
    cases hn
    exact hplanned
  · rw [ht] at hn
    cases hn
    have := hclock f hf
    omega

variable {e' : Task} {holdsCap : Bool}

/-- `reschedule` keeps the task, or gives it a next run of the new schedule. -/
theorem reschedule_eq_ok (h : reschedule env e req now = .ok e') :
    req.reschedules e = false ∧ e' = e ∨
      req.reschedules e = true ∧ ∃ next, e'.nextRun = some next ∧
        computeNextRunIn env e'.scheduleCron e'.timezone now = .ok next := by
  revert h
  fun_cases reschedule env e req now <;> rintro ⟨⟩
  next hre _ _ next hnext => exact .inr ⟨hre, next, rfl, hnext⟩
  next hre => exact .inl ⟨eq_false_iff.mpr hre, rfl⟩

theorem settle_schedule (env : Env) (e : Task) (now : Int) :
    (settle env e now).scheduleCron = e.scheduleCron ∧ (settle env e now).timezone = e.timezone := by
  unfold settle
  repeat' split
  all_goals exact ⟨rfl, rfl⟩

/-- `settle` makes a row that is timed one that is all right. -/
theorem Timed.settle (h : Timed env counted fired e)
    (hclock : e.enabled = true → e.nextRun.isNone = true →
      Found env e.scheduleCron e.timezone now = true ∧
        ⟨e.scheduleCron, taskZone e.timezone, now⟩ ∈ counted ∧ ∀ f ∈ fired, f.planned ≤ now) :
    TaskOk env counted fired (settle env e now) := by
  rw [Schedule.settle]
  split
  · rename_i hen
    split
    · rename_i hnone
      obtain ⟨hfound, hcounted, hfired⟩ := hclock hen hnone
      obtain ⟨first, hfirst⟩ := h.accepted
      obtain ⟨next, hnext⟩ := computeNextRunIn_isOk hfirst now
      rw [hnext]
      exact { Timed.of_computed (t := { e with nextRun := some next }) hnext hfound hcounted hfired rfl with
        next_of_enabled := fun _ ↦ rfl }
    · rename_i hsome
      exact { h with next_of_enabled := fun _ ↦ isSome_iff_ne_none.mpr (by simpa using hsome) }
  · rename_i hen
    exact {
      accepted := h.accepted
      planned := fun n hn ↦ by cases hn
      ahead := fun n hn ↦ by cases hn
      next_of_enabled := fun hen' ↦ absurd hen' hen }

/-- What an edit writes: the patched row, rescheduled, settled. -/
theorem updateTask_eq_ok (h : updateTask env e req holdsCap now = .ok e') :
    ∃ e₁, reschedule env (e.patch req) req now = .ok e₁ ∧ e' = settle env e₁ now := by
  rw [updateTask] at h
  split at h
  · cases h
  split at h
  · cases h
  split at h
  · cases h
  cases hre : reschedule env (e.patch req) req now with
  | error msg =>
    rw [hre] at h
    cases h
  | ok e₁ =>
    rw [hre] at h
    cases h
    exact ⟨e₁, rfl, rfl⟩

theorem taskZone_taskZone (tz : String) : taskZone (taskZone tz) = taskZone tz := by
  by_cases h : tz = ""
  · rw [h]
    rfl
  · rw [taskZone, taskZone, if_neg h, if_neg h]

/-- The store writes an empty zone as UTC. -/
theorem TaskOk.overwritten (h : TaskOk env counted fired e) (t : Task) :
    TaskOk env counted fired (t.overwritten e) where
  accepted := by
    simp only [Task.overwritten, computeNextRunIn, taskZone_taskZone]
    exact h.accepted
  planned n hn := by
    simp only [Task.overwritten, Planned, taskZone_taskZone]
    exact h.planned n hn
  ahead := h.ahead
  next_of_enabled := h.next_of_enabled

/-- **An edit of a row that is as it was read.** -/
theorem TaskOk.update (ht : TaskOk env counted fired t)
    (hsame : t.SameSchedule e) (h : updateTask env e req holdsCap now = .ok e')
    (hcounted : req.recomputes e = true → ⟨e'.scheduleCron, taskZone e'.timezone, now⟩ ∈ counted)
    (hclock : ∀ e' ∈ recomputed env e req holdsCap now,
      Found env e'.scheduleCron e'.timezone now = true ∧ ∀ f ∈ fired, f.planned ≤ now) :
    TaskOk env counted fired (t.overwritten e') := by
  obtain ⟨hcron, htz, _, hnext⟩ := hsame
  obtain ⟨e₁, hre, rfl⟩ := updateTask_eq_ok h
  have htimed : Timed env counted fired (e.patch req) :=
    ht.toTimed.congr hcron.symm htz.symm hnext.symm
  -- where the edit computes a next run, the condition is about the row it writes
  have hcomputes (hrec : req.recomputes e = true) :
      Found env e₁.scheduleCron e₁.timezone now = true ∧
        ⟨e₁.scheduleCron, taskZone e₁.timezone, now⟩ ∈ counted ∧
          ∀ f ∈ fired, f.planned ≤ now := by
    have hmem : settle env e₁ now ∈ recomputed env e req holdsCap now := by
      rw [recomputed, if_pos hrec, h]
      rfl
    obtain ⟨hc, hz⟩ := settle_schedule env e₁ now
    rw [← hc, ← hz]
    exact ⟨(hclock _ hmem).1, hcounted hrec, (hclock _ hmem).2⟩
  refine TaskOk.overwritten ?_ t
  rcases reschedule_eq_ok hre with ⟨_, rfl⟩ | ⟨hyes, next, hsome, hcomputed⟩
  · refine htimed.settle fun hen hnone ↦ hcomputes ?_
    exact or_eq_true_iff.mpr (.inr (and_eq_true_iff.mpr ⟨hen, hnone⟩))
  · obtain ⟨hfound, hcounted, hfired⟩ := hcomputes (or_eq_true_iff.mpr (.inl hyes))
    refine (Timed.of_computed hcomputed hfound hcounted hfired hsome).settle fun _ hnone ↦ ?_
    rw [hsome] at hnone
    cases hnone

/-! ## The invariant -/

structure Sound (env : Env) (w : World) : Prop where
  row : ∀ t, w.row = some t → TaskOk env w.counted w.fired t
  /-- Each firing is for a later time than all before. -/
  later : w.fired.Pairwise fun f g ↦ g.planned < f.planned
  inForce : ∀ f ∈ w.fired, f.planned ≤ f.clock ∧
    Planned env w.counted f.scheduleCron f.timezone f.planned
  /-- What an executor has listed was due, and its schedule parses. -/
  listed : ∀ r ∈ w.runs, r.stage ≠ .disabled ∧ r.task.nextRun = some r.dueAt ∧ r.dueAt ≤ r.now ∧
    ∃ next, computeNextRunIn env r.task.scheduleCron r.task.timezone r.now = .ok next

variable {w w' : World}

theorem Sound.count (hs : Sound env w) (cron tz : String) (now : Int) : Sound env (w.count cron tz now) where
  row t ht := (hs.row t ht).mono (subset_cons_self ..)
  later := hs.later
  inForce f hf := ⟨(hs.inForce f hf).1, (hs.inForce f hf).2.mono (subset_cons_self ..)⟩
  listed := hs.listed

theorem Sound.write (hs : Sound env w) {o : Outcome} {f : Task → Task}
    (hf : ∀ t, w.row = some t → TaskOk env w.counted w.fired t → TaskOk env w.counted w.fired (f t)) :
    Sound env (w.write o f) := by
  rw [World.write]
  split
  · refine { hs with row := fun t ht ↦ ?_ }
    obtain ⟨t₀, ht₀, rfl⟩ := map_eq_some_iff.mp ht
    exact hf t₀ ht₀ (hs.row t₀ ht₀)
  · exact hs

theorem Sound.withRun (hs : Sound env w) {i : Nat} {r : Run} (hr : r ∈ w.runs) {stage : RunStage}
    (hstage : stage ≠ .disabled) : Sound env (w.withRun i r stage) where
  row := hs.row
  later := hs.later
  inForce := hs.inForce
  listed r' hr' := by
    rcases mem_or_eq_of_mem_set hr' with hr' | rfl
    · exact hs.listed r' hr'
    · exact ⟨hstage, (hs.listed r hr).2⟩

theorem World.runs_write (w : World) (o : Outcome) (f : Task → Task) :
    (w.write o f).runs = w.runs := by
  rw [write]
  split <;> rfl

/-- A firing that wins its claim. -/
theorem Sound.claim {i : Nat} {r : Run} {next : Int} {o : Outcome} (hs : Sound env w)
    (hr : r ∈ w.runs)
    (hcalm : ∀ t ∈ w.row, r.wins t = true → t.scheduleCron = r.task.scheduleCron ∧
      t.timezone = r.task.timezone ∧ Found env r.task.scheduleCron r.task.timezone r.now = true)
    (hnext : computeNextRunIn env r.task.scheduleCron r.task.timezone r.now = .ok next)
    (hcounted : ⟨r.task.scheduleCron, taskZone r.task.timezone, r.now⟩ ∈ w.counted) :
    Sound env (w.claim i r next o) := by
  rw [World.claim]
  split
  · rename_i t ht
    obtain ⟨hrow, hwins⟩ := filter_eq_some_iff.mp ht
    obtain ⟨hcron, htz, hfound⟩ := hcalm t hrow hwins
    have hdue := (hs.listed r hr).2.2.1
    rw [Run.wins, and_eq_true, decide_eq_true_eq] at hwins
    have hok := hs.row t hrow
    have hbefore : ∀ f ∈ w.fired, f.planned < r.dueAt := hok.ahead r.dueAt hwins.2
    -- the row after the claim, whether or not the firing has been added
    have hmoved : ∀ fired, (∀ f ∈ fired, f.planned ≤ r.now) →
        TaskOk env w.counted fired { t with nextRun := some next } := fun fired hfired ↦
      { Timed.of_computed (t := { t with nextRun := some next }) (hcron ▸ htz ▸ hnext)
          (hcron ▸ htz ▸ hfound) (hcron ▸ htz ▸ hcounted) hfired rfl with
        next_of_enabled := fun _ ↦ rfl }
    have hclaimed : Sound env (w.write o fun t ↦ { t with nextRun := some next }) := by
      refine hs.write fun t' ht' _ ↦ ?_
      rw [hrow] at ht'
      cases ht'
      exact hmoved w.fired fun f hf ↦ by have := hbefore f hf; omega
    have hr' : r ∈ (w.write o fun t ↦ { t with nextRun := some next }).runs := by
      rw [World.runs_write]
      exact hr
    split
    · rename_i ho
      subst ho
      refine ⟨fun t' ht' ↦ ?_, ?_, fun f hf ↦ ?_, (hclaimed.withRun hr' (by simp)).listed⟩
      · have hmap : w.row.map (fun t ↦ { t with nextRun := some next }) = some t' := ht'
        rw [hrow] at hmap
        cases hmap
        refine hmoved _ fun f hf ↦ ?_
        rcases mem_cons.mp hf with rfl | hf
        · exact hdue
        · have := hbefore f hf
          omega
      · exact pairwise_cons.mpr ⟨hbefore, hs.later⟩
      · rcases mem_cons.mp hf with rfl | hf
        · exact ⟨hdue, hok.planned r.dueAt hwins.2⟩
        · exact hs.inForce f hf
    · exact hclaimed.withRun hr' (by simp)
  · exact hs.withRun hr (by simp)

theorem Sound.step {a : Action} (hs : Sound env w) (hok : Calm env w a)
    (h : w.step env a = some w') : Sound env w' := by
  cases a with
  | list now =>
    obtain ⟨t, ht, rfl⟩ := map_eq_some_iff.mp h
    obtain ⟨hrow, hdue⟩ := filter_eq_some_iff.mp ht
    refine { hs with listed := fun r hr ↦ ?_ }
    rcases mem_append.mp hr with hr | hr
    · exact hs.listed r hr
    · obtain rfl := mem_singleton.mp hr
      rw [Task.due, and_eq_true, Option.any_eq_true] at hdue
      obtain ⟨_, n, hn, hle⟩ := hdue
      have hdueAt : Run.dueAt ⟨t, now, .claiming⟩ = n := by rw [Run.dueAt, hn, getD_some]
      obtain ⟨first, hfirst⟩ := (hs.row t hrow).accepted
      rw [hdueAt]
      exact ⟨by simp, hn, of_decide_eq_true hle, computeNextRunIn_isOk hfirst now⟩
  | claim i o =>
    obtain ⟨r, hr, h⟩ := bind_eq_some_iff.mp h
    obtain ⟨hi, _⟩ := filter_eq_some_iff.mp hr
    split at h
    · rename_i next hnext
      cases h
      exact (hs.count ..).claim (mem_of_getElem? hi) (hok r hi) hnext mem_cons_self
    · cases h
  | record i status o =>
    obtain ⟨r, hi, h⟩ := bind_eq_some_iff.mp h
    split at h
    case h_2 => cases h
    rename_i next hstage
    cases h
    have hr := mem_of_getElem? hi
    refine Sound.withRun (hs.write fun t ht hok' ↦ ?_) (by rw [World.runs_write]; exact hr) (by simp)
    -- the record finds the next run of its claim, and writes it again
    have hsame : t.nextRun = some next := hok r hi t ht next (by rw [hstage]; rfl)
    have htimed : Timed env w.counted w.fired
        { t with lastRun := some r.now, lastStatus := some status, nextRun := some next } :=
      hok'.toTimed.congr rfl rfl hsame.symm
    exact { htimed with next_of_enabled := fun _ ↦ rfl }
  | disable i o =>
    obtain ⟨r, hr, h⟩ := bind_eq_some_iff.mp h
    obtain ⟨hi, _⟩ := filter_eq_some_iff.mp hr
    obtain ⟨next, hnext⟩ := (hs.listed r (mem_of_getElem? hi)).2.2.2
    rw [hnext] at h
    cases h
  | recordError i o =>
    obtain ⟨r, hr, h⟩ := map_eq_some_iff.mp h
    obtain ⟨hi, hstage⟩ := filter_eq_some_iff.mp hr
    exact absurd (of_decide_eq_true hstage) (hs.listed r (mem_of_getElem? hi)).1
  | get =>
    obtain ⟨t, _, rfl⟩ := map_eq_some_iff.mp h
    exact { hs with }
  | update j req holdsCap now o =>
    obtain ⟨e, he, rfl⟩ := map_eq_some_iff.mp h
    have hs' : Sound env { w with edits := w.edits.eraseIdx j } := { hs with }
    dsimp only
    split
    · rename_i e' hupdate
      split
      · refine (hs'.count ..).write fun t ht htask ↦ ?_
        obtain ⟨hsame, hclock⟩ := hok e he t ht
        exact htask.update hsame hupdate (fun _ ↦ mem_cons_self) hclock
      · rename_i hkept
        refine hs'.write fun t ht htask ↦ ?_
        obtain ⟨hsame, hclock⟩ := hok e he t ht
        exact htask.update hsame hupdate (fun hrec ↦ absurd hrec hkept) hclock
    · exact hs'
  | delete =>
    obtain ⟨t, _, rfl⟩ := map_eq_some_iff.mp h
    exact { hs with row := fun t ht ↦ by cases ht }

/-- A task that `Create` has made. -/
theorem Sound.start {serverTz : String} {limit : Option Nat} {existing : Nat}
    (h : createTask env req serverTz holdsCap limit existing now = .ok t)
    (hfound : Found env t.scheduleCron t.timezone now = true) : Sound env (World.start t now) := by
  have hnext : ∃ next, t.nextRun = some next ∧
      computeNextRunIn env t.scheduleCron t.timezone now = .ok next := by
    revert h
    fun_cases createTask env req serverTz holdsCap limit existing now <;> rintro ⟨⟩
    rename_i next hnext _
    exact ⟨next, rfl, hnext⟩
  obtain ⟨next, hsome, hcomputed⟩ := hnext
  refine ⟨fun t' ht' ↦ ?_, .nil, fun f hf ↦ (by cases hf), fun r hr ↦ (by cases hr)⟩
  cases ht'
  exact { Timed.of_computed hcomputed hfound mem_cons_self (fun f hf ↦ by cases hf) hsome with
    next_of_enabled := fun _ ↦ by rw [hsome]; rfl }

/-- **A scheduled task fires once per planned time.**  In every run of a task that `Create` accepted
whose steps all meet the condition: no planned time is fired twice, nothing is fired before a
planned time of the schedule then in force, and the next run of an enabled task is a planned time of
its schedule that has not been fired. -/
theorem scheduled_task_fires_once {serverTz : String} {holdsCap : Bool} {limit : Option Nat}
    {existing : Nat} (hcreate : createTask env req serverTz holdsCap limit existing now = .ok t)
    (hfound : Found env t.scheduleCron t.timezone now = true)
    (h : Reach (World.step env) (Calm env) (World.start t now) w) :
    (w.fired.map (·.planned)).Nodup ∧
    (∀ f ∈ w.fired, f.planned ≤ f.clock ∧
      Planned env w.counted f.scheduleCron f.timezone f.planned) ∧
    ∀ t', w.row = some t' → t'.enabled = true → ∃ n, t'.nextRun = some n ∧
      Planned env w.counted t'.scheduleCron t'.timezone n ∧ ∀ f ∈ w.fired, f.planned ≠ n := by
  have hs : Sound env w := h.invariant (P := Sound env) (Sound.start hcreate hfound)
    fun _ _ _ hs hok hstep ↦ hs.step hok hstep
  refine ⟨?_, hs.inForce, fun t' ht' hen ↦ ?_⟩
  · refine pairwise_map.mpr (hs.later.imp fun hlt heq ↦ ?_)
    omega
  · obtain ⟨n, hn⟩ := isSome_iff_exists.mp ((hs.row t' ht').next_of_enabled hen)
    refine ⟨n, hn, (hs.row t' ht').planned n hn, fun f hf heq ↦ ?_⟩
    have := (hs.row t' ht').ahead n hn f hf
    omega

/-- `0 0 * * *`. -/
def midnight : SpecSchedule := ⟨1, 1, 2 ^ 63 + 2 ^ 32 - 2, 2 ^ 63 + 2 ^ 13 - 2, 2 ^ 63 + 127⟩

/-- Two cron lines, in UTC. -/
def twoLines : Env where
  parse line :=
    if line = "0 0 * * *" then some (.spec midnight)
    else if line = "0 0 30 2 *" then some (.spec februaryThirtieth)
    else none
  zone tz := if tz = "UTC" then some utc else none

/-- A restart on the given cron line. -/
def restartOn (line : String) : TaskRequest := ⟨"nightly", "restart", "", line, "", none⟩

/-- The task as `Create` makes it. -/
def restartTask (line : String) (next : Int) : Task :=
  ⟨"nightly", "restart", "", line, "UTC", true, some next, none, none⟩

/-- Two executors list the first midnight and one fires it; the task is then switched off and on, and
fires at the next. -/
def twoNights : List Action :=
  [.list 86430, .list 86440, .claim 0 .ok, .claim 1 .ok, .record 0 .ok .ok,
    .get, .update 0 ⟨"", "", "", "", "", some false⟩ true 90000 .ok,
    .get, .update 0 ⟨"", "", "", "", "", some true⟩ true 100000 .ok,
    .list 172830, .claim 2 .ok]

theorem scheduled_task_fires_once_two_nights :
    ∃ w, Reach (World.step twoLines) (Calm twoLines) (World.start (restartTask "0 0 * * *" 86400) 0) w ∧
      w.fired.map (·.planned) = [172800, 86400] ∧ (w.fired.map (·.planned)).Nodup := by
  have hcreate : createTask twoLines (restartOn "0 0 * * *") "" true none 0 0
      = .ok (restartTask "0 0 * * *" 86400) := by decide +kernel
  have hfound : Found twoLines "0 0 * * *" "UTC" 0 = true := by decide +kernel
  have hrun : (exec (World.step twoLines) (Calm twoLines)
      (World.start (restartTask "0 0 * * *" 86400) 0) twoNights).map (·.fired.map (·.planned))
      = some [172800, 86400] := by decide +kernel
  obtain ⟨w, hw, hfired⟩ := exists_reach_of_exec hrun
  exact ⟨w, hw, hfired, (scheduled_task_fires_once hcreate hfound hw).1⟩

/-- Two ticks of one executor. -/
def twoTicks : List Action :=
  [.list 30, .claim 0 .ok, .record 0 .ok .ok, .list 60, .claim 1 .ok]

/-- A restart on the thirtieth of February is accepted, and fires on both ticks, though there is no
planned time at all. -/
theorem not_once_february_thirtieth :
    ∃ t w, createTask twoLines (restartOn "0 0 30 2 *") "" true none 0 0 = .ok t ∧
      Reach (World.step twoLines) anyStep (World.start t 0) w ∧
      w.fired.map (·.planned) = [zeroTime, zeroTime] ∧
      ∀ n, ¬ Planned twoLines w.counted "0 0 30 2 *" "UTC" n := by
  have hcreate : createTask twoLines (restartOn "0 0 30 2 *") "" true none 0 0
      = .ok (restartTask "0 0 30 2 *" zeroTime) := by decide +kernel
  have hrun : (exec (World.step twoLines) anyStep
      (World.start (restartTask "0 0 30 2 *" zeroTime) 0) twoTicks).map (·.fired.map (·.planned))
      = some [zeroTime, zeroTime] := by decide +kernel
  obtain ⟨w, hw, hfired⟩ := exists_reach_of_exec hrun
  exact ⟨_, w, hcreate, hw, hfired, not_planned_februaryThirtieth utc⟩

end Dylaris.Schedule
