import Dylaris.Library.Machine
import Dylaris.Library.Places
import Dylaris.Migration.Request

/-!
# The migration lock

One storage migration runs at a time in the whole cluster.  `Start` takes a Redis key with `SetNX`
and an expiry, a heartbeat keeps the key alive or takes it back when it has gone missing, and the
deferred clean-up of the job deletes it, together with the key a `Cancel` leaves its request in.
This file is that protocol, one Redis command a step, over any number of Cores.

Of the four commands only the heartbeat's compares the owner.  The two `Del`s of the clean-up are
unconditional, so once the key of a running job is lost — it expires, or Redis, which runs without
persistence, restarts — and another `Start` comes before the heartbeat, there are two jobs, and the
first to end takes the other's lock and cancel request away: `not_own_lock_key_lost`.  A `Start`
between the two `Del`s of a clean-up can lose its cancel request the same way.

`finished_job_touches_own` is what remains.  `World.lost` has the running jobs whose key was lost and that
have not got it back.  While no `Start` comes as long as there is one, or between the two `Del`s of a
clean-up, and no cancel request is written for a job that has ended or left standing by a failed `Del`, a
job that ends removes nothing of another's, no two jobs hold the lock, and the lock of a running job that
is not lost is there.  The heartbeat may run late, also after its job; a Core may die at any point.

A job's id is its place in `World.runs`: ids are drawn at random and do not repeat.
-/

set_option autoImplicit false

namespace Dylaris.Migration.Lock

open Machine List Option

abbrev JobId := Nat

/-- Where a job stands between its `SetNX` and the last command of its clean-up. -/
inductive Stage
  | locked | cleared | running | ended | unlocked | over | dead
deriving DecidableEq, Repr

/-- The job has the lock behind it and its clean-up not yet. -/
def Stage.active : Stage → Bool
  | .locked | .cleared | .running | .ended | .unlocked => true
  | .over | .dead => false

/-- The goroutine of the heartbeat exists.  It is told to stop when the job ends, and may be in the
middle of a tick then. -/
def Stage.beating : Stage → Bool
  | .running | .ended | .unlocked | .over => true
  | .locked | .cleared | .dead => false

/-- A job. -/
structure Run where
  core : Nat
  stage : Stage
  /-- The id a tick of the heartbeat has read and is about to refresh the lock for. -/
  beat : Option JobId
  /-- Whether the last answer about the lock was that it is this job's. -/
  held : Bool
deriving DecidableEq, Repr

/-- The two keys, and the jobs. -/
structure World where
  /-- `storageMigrationLockKey`. -/
  lock : Option JobId
  /-- `storageMigrationCancelKey`. -/
  cancel : Option JobId
  /-- `storageMigrationJobKey`: the id and the phase. -/
  record : Option (JobId × Phase)
  /-- `s.job` of each Core. -/
  job : Nat → Option JobId
  runs : List Run
  /-- The `Cancel` calls that have read the record and not yet written their request. -/
  cancels : List JobId
  /-- The running jobs whose key was lost and that have not got it back. -/
  lost : List JobId

/-- No key, no job. -/
def World.start : World := ⟨none, none, none, fun _ ↦ none, [], [], []⟩

/-- A step of a job or of a `Cancel`, or the loss of a key. -/
inductive Action
  /-- `Start` issues its `SetNX`. -/
  | setNX (core : Nat) (o : Outcome)
  | startDel (n : JobId) (o : Outcome)
  /-- `Start` sets `s.job` and `go s.run`. -/
  | launch (n : JobId)
  /-- `persistLocked`, from `Start` or any `update`. -/
  | persist (core : Nat) (phase : Phase)
  /-- A tick of the heartbeat reads `s.jobID()`. -/
  | tick (n : JobId)
  /-- The tick's `refreshOrReclaimJobLock`. -/
  | refresh (n : JobId) (o : Outcome)
  /-- `Cancel` reads the job record. -/
  | getJob
  | setCancel (i : Nat) (o : Outcome)
  /-- `run` returns: the heartbeat is told to stop. -/
  | finish (n : JobId)
  /-- The two commands of the clean-up. -/
  | delLock (n : JobId) (o : Outcome)
  | delCancel (n : JobId) (o : Outcome)
  | expireLock
  | expireCancel
  | restart
  | die (core : Nat)
deriving DecidableEq, Repr

/-- A key after a `Del`. -/
def del (o : Outcome) (key : Option JobId) : Option JobId := if o.applied then none else key

/-- `refreshOrReclaimJobLock`: the key after the script, and what the script returns. -/
def refreshOrReclaimJobLock (lock : Option JobId) (owner : JobId) : Option JobId × Bool :=
  match lock with
  | none => (some owner, true)
  | some v => (some v, v = owner)

/-- Job `n`, in stage `old`, goes on to stage `new`. -/
def World.move (w : World) (n : JobId) (old new : Stage) : Option World :=
  (w.runs[n]?.filter (·.stage = old)).map fun r ↦
    { w with runs := w.runs.set n { r with stage := new } }

/-- `run` is over for every job of the Core. -/
def Run.dieOn (core : Nat) (r : Run) : Run :=
  if r.core = core then { r with stage := .dead, beat := none } else r

/-- The stage of a job, if there is one. -/
def World.stage? (w : World) (n : JobId) : Option Stage := w.runs[n]?.map (·.stage)

/-- Job `n` is running: its `Start` took the lock and its clean-up is not through. -/
def World.active (w : World) (n : JobId) : Bool := (w.stage? n).any (·.active)

/-- The lock key goes, under every job that runs. -/
def World.loseLock (w : World) : World :=
  { w with lock := none, lost := (List.range w.runs.length).filter w.active }

def World.step (w : World) : Action → Option World
  | .setNX core o =>
    if w.lock = none ∧ o.applied then
      -- a Start whose reply is lost returns an error and leaves the key behind
      some { w with
        lock := some w.runs.length
        runs := w.runs ++ [⟨core, if o = .ok then .locked else .dead, none, o = .ok⟩] }
    else none
  | .startDel n o => (w.move n .locked .cleared).map fun w ↦ { w with cancel := del o w.cancel }
  | .launch n =>
    w.runs[n]?.bind fun r ↦ (w.move n .cleared .running).map fun w ↦
      { w with job := Function.update w.job r.core (some n) }
  | .persist core phase => (w.job core).map fun n ↦ { w with record := some (n, phase) }
  | .tick n =>
    w.runs[n]?.bind fun r ↦
      if r.stage.beating && r.beat.isNone then
        some { w with runs := w.runs.set n { r with beat := w.job r.core } }
      else none
  | .refresh n o =>
    w.runs[n]?.bind fun r ↦ r.beat.map fun id ↦
      let (lock, held) := refreshOrReclaimJobLock w.lock id
      { w with
        lock := if o.applied then lock else w.lock
        lost := if o.applied then w.lost.filter (lock ≠ some ·) else w.lost
        runs := w.runs.set n { r with beat := none, held := if o = .ok then held else r.held } }
  | .getJob =>
    (w.record.filter (·.2.cancellable)).map fun r ↦ { w with cancels := w.cancels ++ [r.1] }
  | .setCancel i o =>
    w.cancels[i]?.map fun id ↦
      { w with
        cancel := if o.applied then some id else w.cancel
        cancels := w.cancels.eraseIdx i }
  | .finish n => w.move n .running .ended
  | .delLock n o => (w.move n .ended .unlocked).map fun w ↦ { w with lock := del o w.lock }
  | .delCancel n o => (w.move n .unlocked .over).map fun w ↦ { w with cancel := del o w.cancel }
  | .expireLock => some w.loseLock
  | .expireCancel => some { w with cancel := none }
  | .restart => some { w.loseLock with cancel := none, record := none }
  | .die core =>
    some { w with
      runs := w.runs.map (Run.dieOn core)
      job := Function.update w.job core none }

/-- Job `n` is running and was last told that the lock is its own. -/
def World.believes (w : World) (n : JobId) : Bool := w.active n && w.runs[n]?.any (·.held)

/-- The condition.  No `Start` comes while a job runs whose key was lost and that has not got it back,
or between the two `Del`s of a clean-up; and no cancel request is out of date: none is written for a job
that has ended, and the `Del` of a `Start` does not fail on one. -/
def InStep (w : World) : Action → Prop
  | .setNX _ _ => (∀ n ∈ w.lost, w.active n = false) ∧ ∀ r ∈ w.runs, r.stage ≠ .unlocked
  | .startDel _ o => o.applied = true ∨ w.cancel = none
  | .setCancel i _ => (w.cancels[i]?.all w.active) = true
  | _ => True

instance (w : World) (a : Action) : Decidable (InStep w a) := by
  cases a <;> unfold InStep <;> infer_instance

/-! ## What a step does to the stages and the cancel key -/

/-- The job a step moves on, from which stage to which. -/
def Action.moves : Action → Option (JobId × Stage × Stage)
  | .startDel n _ => some (n, .locked, .cleared)
  | .launch n => some (n, .cleared, .running)
  | .finish n => some (n, .running, .ended)
  | .delLock n _ => some (n, .ended, .unlocked)
  | .delCancel n _ => some (n, .unlocked, .over)
  | _ => none

variable {w : World} {n : JobId} {r : Run}

theorem World.stage?_set {r' : Run} (hr : w.runs[n]? = some r)
    (m : JobId) (lock cancel : Option JobId) (record : Option (JobId × Phase))
    (job : Nat → Option JobId) (cancels lost : List JobId) :
    World.stage? ⟨lock, cancel, record, job, w.runs.set n r', cancels, lost⟩ m
      = if m = n then some r'.stage else w.stage? m := by
  have hlt : n < w.runs.length := (List.getElem?_eq_some_iff.mp hr).1
  by_cases hm : m = n
  · rw [if_pos hm, hm, stage?, getElem?_set_self hlt, map_some]
  · rw [if_neg hm, stage?, stage?, getElem?_set_ne (Ne.symm hm)]

variable {w' : World} {old new : Stage}

theorem World.move_eq_some (h : w.move n old new = some w') :
    w.stage? n = some old ∧ (∀ m, w'.stage? m = if m = n then some new else w.stage? m) ∧
      w'.cancel = w.cancel ∧ w'.lock = w.lock ∧ w'.lost = w.lost := by
  obtain ⟨r, hr, rfl⟩ := map_eq_some_iff.mp h
  obtain ⟨hr, hold⟩ := filter_eq_some_iff.mp hr
  refine ⟨?_, fun m ↦ World.stage?_set hr m .., rfl, rfl, rfl⟩
  rw [stage?, hr, map_some, of_decide_eq_true hold]

/-- A job that a step leaves in a stage was in it, is not running any more, was moved there by the
step, or has just taken a free lock. -/
def Origin (w : World) (a : Action) (n : JobId) (s : Stage) : Prop :=
  w.stage? n = some s ∨ s.active = false ∨
    (∃ old, a.moves = some (n, old, s) ∧ w.stage? n = some old) ∨
    n = w.runs.length ∧ w.lock = none ∧ s = .locked ∧ ∃ core o, a = .setNX core o

variable {a : Action} {m : JobId} {s : Stage}

theorem Origin.of_ite (hmoves : a.moves = some (n, old, new)) (hold : w.stage? n = some old)
    (hs : (if m = n then some new else w.stage? m) = some s) : Origin w a m s := by
  split at hs
  · rename_i hm
    cases hs
    exact .inr (.inr (.inl ⟨old, hm ▸ hmoves, hm ▸ hold⟩))
  · exact .inl hs

theorem Origin.of_move {w₁ : World}
    (hmove : w.move n old new = some w₁) (hmoves : a.moves = some (n, old, new))
    (hs : w₁.stage? m = some s) : Origin w a m s := by
  obtain ⟨hold, hstage, _⟩ := World.move_eq_some hmove
  rw [hstage] at hs
  exact .of_ite hmoves hold hs

/-- A step that writes a job back in the stage it is in. -/
theorem stage?_set_self
    (hr : w.runs[n]? = some r) (hs : (if m = n then some r.stage else w.stage? m) = some s) :
    w.stage? m = some s := by
  split at hs
  · rename_i hm
    rw [hm, World.stage?, hr]
    exact hs
  · exact hs

theorem stage?_append (hs : (w.runs ++ [r])[m]?.map (·.stage) = some s) :
    w.stage? m = some s ∨ m = w.runs.length ∧ s = r.stage := by
  obtain ⟨r', hr', rfl⟩ := map_eq_some_iff.mp hs
  refine (Places.getElem?_append_singleton hr').imp (fun h ↦ ?_) (And.imp_right (congrArg Run.stage))
  rw [World.stage?, h, map_some]

/-- **Where a stage comes from.** -/
theorem World.stage_of_step (h : w.step a = some w')
    (hs : w'.stage? m = some s) : Origin w a m s := by
  cases a with
  | setNX core o =>
    obtain ⟨hc, h⟩ := ite_none_right_eq_some.mp h
    cases h
    rcases stage?_append hs with hs | ⟨hm, hs⟩
    · exact .inl hs
    · by_cases ho : o = .ok
      · rw [if_pos ho] at hs
        exact .inr (.inr (.inr ⟨hm, hc.1, hs, core, o, rfl⟩))
      · rw [if_neg ho] at hs
        exact .inr (.inl (hs ▸ rfl))
  | startDel n o | delLock n o | delCancel n o =>
    obtain ⟨w₁, hmove, rfl⟩ := map_eq_some_iff.mp h
    exact .of_move hmove rfl hs
  | launch n =>
    obtain ⟨r, _, h⟩ := bind_eq_some_iff.mp h
    obtain ⟨w₁, hmove, rfl⟩ := map_eq_some_iff.mp h
    exact .of_move hmove rfl hs
  | finish n => exact .of_move h rfl hs
  | tick n =>
    obtain ⟨r, hr, h⟩ := bind_eq_some_iff.mp h
    split at h <;> cases h
    rw [stage?_set hr] at hs
    exact .inl (stage?_set_self hr hs)
  | refresh n o =>
    obtain ⟨r, hr, h⟩ := bind_eq_some_iff.mp h
    obtain ⟨id, _, rfl⟩ := map_eq_some_iff.mp h
    rw [stage?_set hr] at hs
    exact .inl (stage?_set_self hr hs)
  | persist _ _ | getJob | setCancel _ _ =>
    obtain ⟨_, _, rfl⟩ := map_eq_some_iff.mp h
    exact .inl hs
  | expireLock | expireCancel | restart =>
    cases h
    exact .inl hs
  | die core =>
    cases h
    rw [stage?, List.getElem?_map, Option.map_map] at hs
    obtain ⟨r, hr, rfl⟩ := map_eq_some_iff.mp hs
    show Origin w _ m (Run.dieOn core r).stage
    by_cases hcore : r.core = core
    · rw [Run.dieOn, if_pos hcore]
      exact .inr (.inl rfl)
    · rw [Run.dieOn, if_neg hcore]
      exact .inl (by rw [stage?, hr]; rfl)

theorem del_eq_some {o : Outcome} {key : Option JobId} {id : JobId} (h : del o key = some id) :
    o.applied = false ∧ key = some id := by
  rw [del] at h
  split at h
  · cases h
  · rename_i ho
    exact ⟨Bool.not_eq_true _ ▸ ho, h⟩

/-- The actions that may change the lock key. -/
def Action.onLock : Action → Bool
  | .setNX _ _ | .refresh _ _ | .delLock _ _ | .expireLock | .restart => true
  | _ => false

/-- The actions that may change the cancel key. -/
def Action.onCancel : Action → Bool
  | .startDel _ _ | .setCancel _ _ | .delCancel _ _ | .expireCancel | .restart => true
  | _ => false

/-- All other actions leave the two keys alone. -/
theorem World.keys_of_step (h : w.step a = some w') :
    (a.onLock = false → w'.lock = w.lock ∧ w'.lost = w.lost) ∧
      (a.onCancel = false → w'.cancel = w.cancel) := by
  cases a with
  | startDel n o | delLock n o | delCancel n o =>
    obtain ⟨w₁, hmove, rfl⟩ := map_eq_some_iff.mp h
    obtain ⟨-, -, hcancel, hlock, hlost⟩ := move_eq_some hmove
    simp [Action.onLock, Action.onCancel, hcancel, hlock, hlost]
  | launch n =>
    obtain ⟨r, -, h⟩ := bind_eq_some_iff.mp h
    obtain ⟨w₁, hmove, rfl⟩ := map_eq_some_iff.mp h
    obtain ⟨-, -, hcancel, hkeys⟩ := move_eq_some hmove
    exact ⟨fun _ ↦ hkeys, fun _ ↦ hcancel⟩
  | finish n =>
    obtain ⟨-, -, hcancel, hkeys⟩ := move_eq_some h
    exact ⟨fun _ ↦ hkeys, fun _ ↦ hcancel⟩
  | setNX core o =>
    obtain ⟨-, ⟨⟩⟩ := ite_none_right_eq_some.mp h
    exact ⟨nofun, fun _ ↦ rfl⟩
  | tick n =>
    obtain ⟨r, -, h⟩ := bind_eq_some_iff.mp h
    obtain ⟨-, ⟨⟩⟩ := ite_none_right_eq_some.mp h
    exact ⟨fun _ ↦ ⟨rfl, rfl⟩, fun _ ↦ rfl⟩
  | refresh n o =>
    obtain ⟨r, -, h⟩ := bind_eq_some_iff.mp h
    obtain ⟨id, -, rfl⟩ := map_eq_some_iff.mp h
    exact ⟨nofun, fun _ ↦ rfl⟩
  | persist _ _ | getJob =>
    obtain ⟨_, -, rfl⟩ := map_eq_some_iff.mp h
    exact ⟨fun _ ↦ ⟨rfl, rfl⟩, fun _ ↦ rfl⟩
  | setCancel i o =>
    obtain ⟨id, -, rfl⟩ := map_eq_some_iff.mp h
    exact ⟨fun _ ↦ ⟨rfl, rfl⟩, nofun⟩
  | expireLock | expireCancel | restart | die _ =>
    cases h
    simp [Action.onLock, Action.onCancel, loseLock]

/-- **Where a cancel request comes from.**  It was there, and no `Del` that was applied came over
it, or a `Cancel` has just written it. -/
theorem World.cancel_of_step (h : w.step a = some w') {id : JobId} (hc : w'.cancel = some id) :
    w.cancel = some id ∧ (∀ n o, a = .startDel n o → o.applied = false) ∨
      ∃ i o, a = .setCancel i o ∧ w.cancels[i]? = some id := by
  by_cases hon : a.onCancel = false
  · rw [(keys_of_step h).2 hon] at hc
    refine .inl ⟨hc, fun n o ha ↦ ?_⟩
    rw [ha] at hon
    cases hon
  cases a with
  | startDel n o =>
    obtain ⟨w₁, hmove, rfl⟩ := map_eq_some_iff.mp h
    obtain ⟨ho, hc⟩ := del_eq_some hc
    rw [(move_eq_some hmove).2.2.1] at hc
    refine .inl ⟨hc, fun n' o' ha ↦ ?_⟩
    cases ha
    exact ho
  | delCancel n o =>
    obtain ⟨w₁, hmove, rfl⟩ := map_eq_some_iff.mp h
    exact .inl ⟨(move_eq_some hmove).2.2.1 ▸ (del_eq_some hc).2, by simp⟩
  | setCancel i o =>
    obtain ⟨j, hj, rfl⟩ := map_eq_some_iff.mp h
    by_cases ho : o.applied = true
    · have hid : j = id := some_inj.mp ((if_pos ho).symm.trans hc)
      exact .inr ⟨i, o, rfl, hid ▸ hj⟩
    · exact .inl ⟨(if_neg ho).symm.trans hc, by simp⟩
  | expireCancel | restart =>
    cases h
    cases hc
  | _ => exact absurd rfl hon

/-! ## One job at a time -/

theorem World.active_iff : w.active n = true ↔ ∃ s, w.stage? n = some s ∧ s.active = true := by
  rw [active]
  cases w.stage? n <;> simp

theorem World.lt_of_active (h : w.active n = true) : n < w.runs.length := by
  obtain ⟨s, hs, _⟩ := active_iff.mp h
  obtain ⟨r, hr, _⟩ := map_eq_some_iff.mp hs
  exact (List.getElem?_eq_some_iff.mp hr).1

/-- At most one job is running.  Once its `Start` has dropped what an earlier job left, a cancel request
is addressed to it, and up to its clean-up the lock is its own, unless it was lost. -/
structure Exclusive (w : World) : Prop where
  one : ∀ n m, w.active n = true → w.active m = true → n = m
  own : ∀ n s id, w.stage? n = some s → s.active = true → s ≠ .locked →
    w.cancel = some id → id = n
  holds : ∀ n s, w.stage? n = some s → s.active = true → s ≠ .unlocked → n ∉ w.lost →
    w.lock = some n

theorem Exclusive.start : Exclusive World.start where
  one n _ hn := by cases hn
  own n s _ hs := by cases hs
  holds n s hs := by cases hs

/-- Where a `Start` takes the lock, no job is running. -/
theorem Exclusive.none_active (hx : Exclusive w) {core : Nat} {o : Outcome}
    (hok : InStep w (.setNX core o)) (hfree : w.lock = none) (m : JobId) : w.active m = false := by
  rw [Bool.eq_false_iff]
  intro hm
  obtain ⟨s, hs, hact⟩ := World.active_iff.mp hm
  have hlost : m ∉ w.lost := fun hlost ↦ by
    rw [hok.1 m hlost] at hm
    cases hm
  have hstage : s ≠ .unlocked := by
    obtain ⟨r, hr, rfl⟩ := map_eq_some_iff.mp hs
    exact hok.2 r (mem_of_getElem? hr)
  have hlock := hx.holds m s hs hact hstage hlost
  rw [hfree] at hlock
  cases hlock

/-- A job that is running after a step was running, or has just taken the lock, and then no job
was. -/
theorem Exclusive.active_of_step (hx : Exclusive w) (hok : InStep w a)
    (h : w.step a = some w') (hn : w'.active n = true) :
    w.active n = true ∨ n = w.runs.length ∧ ∀ m, w.active m = false := by
  obtain ⟨s, hs, hact⟩ := World.active_iff.mp hn
  rcases World.stage_of_step h hs with
    hsame | hdone | ⟨old, hmoves, hold⟩ | ⟨hlen, hfree, _, core, o, rfl⟩
  · exact .inl (World.active_iff.mpr ⟨s, hsame, hact⟩)
  · rw [hdone] at hact
    cases hact
  · refine .inl (World.active_iff.mpr ⟨old, hold, ?_⟩)
    cases a <;> cases hmoves <;> rfl
  · exact .inr ⟨hlen, hx.none_active hok hfree⟩

/-- A job that is running before its clean-up was so before the step, or has just taken the lock. -/
theorem before_of_step (h : w.step a = some w') (hs : w'.stage? n = some s) (hact : s.active = true)
    (hstage : s ≠ .unlocked) :
    (∃ old, w.stage? n = some old ∧ old.active = true ∧ old ≠ .unlocked) ∨
      n = w.runs.length ∧ ∃ core o, a = .setNX core o := by
  rcases World.stage_of_step h hs with
    hsame | hdone | ⟨old, hmoves, hold⟩ | ⟨hlen, _, _, hstart⟩
  · exact .inl ⟨s, hsame, hact, hstage⟩
  · rw [hdone] at hact
    cases hact
  · refine .inl ⟨old, hold, ?_⟩
    cases a <;> cases hmoves <;> simp_all [Stage.active]
  · exact .inr ⟨hlen, hstart⟩

theorem Exclusive.holds_of_step (hx : Exclusive w) (hok : InStep w a) (h : w.step a = some w')
    (hs : w'.stage? n = some s) (hact : s.active = true) (hstage : s ≠ .unlocked)
    (hlost : n ∉ w'.lost) : w'.lock = some n := by
  have hbefore := before_of_step h hs hact hstage
  by_cases hon : a.onLock = false
  · obtain ⟨hlock, hsame⟩ := (World.keys_of_step h).1 hon
    rcases hbefore with ⟨old, hold, hact, hstage⟩ | ⟨-, core, o, rfl⟩
    · rw [hlock]
      exact hx.holds n old hold hact hstage (hsame ▸ hlost)
    · cases hon
  cases a with
  | setNX core o =>
    rcases hbefore with ⟨old, hold, hact, -⟩ | ⟨hlen, -⟩
    · obtain ⟨hc, -⟩ := ite_none_right_eq_some.mp h
      have hnone := hx.none_active hok hc.1 n
      rw [World.active_iff.mpr ⟨old, hold, hact⟩] at hnone
      cases hnone
    · obtain ⟨-, h⟩ := ite_none_right_eq_some.mp h
      cases h
      rw [hlen]
  | delLock m o =>
    -- the job that is cleaning up is the only one
    obtain ⟨w₁, hmove, rfl⟩ := map_eq_some_iff.mp h
    obtain ⟨hended, hstages, -⟩ := World.move_eq_some hmove
    obtain ⟨old, hold, hact', -⟩ := hbefore.resolve_right (by simp)
    obtain rfl := hx.one n m (World.active_iff.mpr ⟨old, hold, hact'⟩)
      (World.active_iff.mpr ⟨_, hended, rfl⟩)
    have hself : w₁.stage? n = some s := hs
    rw [hstages, if_pos rfl] at hself
    exact absurd (some_inj.mp hself).symm hstage
  | refresh m o =>
    obtain ⟨r, hr, h⟩ := bind_eq_some_iff.mp h
    obtain ⟨id, _, rfl⟩ := map_eq_some_iff.mp h
    obtain ⟨old, hold, hact, hstage⟩ := hbefore.resolve_right (by simp)
    by_cases ho : o.applied = true
    · simp only [ho, if_true, mem_filter, decide_eq_true_eq, not_and, not_not] at hlost ⊢
      by_cases hin : n ∈ w.lost
      · exact hlost hin
      · rw [hx.holds n old hold hact hstage hin]
        rfl
    · simp only [ho] at hlost ⊢
      exact hx.holds n old hold hact hstage hlost
  | expireLock | restart =>
    cases h
    obtain ⟨old, hold, hact, -⟩ := hbefore.resolve_right (by simp)
    have hn : w.active n = true := World.active_iff.mpr ⟨old, hold, hact⟩
    exact absurd (mem_filter.mpr ⟨mem_range.mpr (World.lt_of_active hn), hn⟩) hlost
  | _ => exact absurd rfl hon

theorem Exclusive.step (hx : Exclusive w) (hok : InStep w a)
    (h : w.step a = some w') : Exclusive w' where
  holds n s hs hact hstage hlost := hx.holds_of_step hok h hs hact hstage hlost
  one n m hn hm := by
    rcases hx.active_of_step hok h hn with hn | ⟨hn, hnone⟩ <;>
      rcases hx.active_of_step hok h hm with hm | ⟨hm, hnone'⟩
    · exact hx.one n m hn hm
    · rw [hnone' n] at hn
      cases hn
    · rw [hnone m] at hm
      cases hm
    · rw [hn, hm]
  own n s id hs hact hpast hc := by
    -- the job was running before the step: a fresh one is still `locked`
    have hbefore : ∃ old, w.stage? n = some old ∧ old.active = true ∧
        (old ≠ .locked ∨ ∃ o, a = .startDel n o) := by
      rcases World.stage_of_step h hs with hsame | hdone | ⟨old, hmoves, hold⟩ | ⟨_, _, hlocked, _⟩
      · exact ⟨s, hsame, hact, .inl hpast⟩
      · rw [hdone] at hact
        cases hact
      · refine ⟨old, hold, ?_⟩
        cases a <;> cases hmoves <;> simp [Stage.active]
      · exact absurd hlocked hpast
    obtain ⟨old, hold, holdact, hpast'⟩ := hbefore
    have hn : w.active n = true := World.active_iff.mpr ⟨old, hold, holdact⟩
    rcases World.cancel_of_step h hc with ⟨hc, hdel⟩ | ⟨i, o, rfl, hi⟩
    · rcases hpast' with hpast' | ⟨o, rfl⟩
      · exact hx.own n old id hold holdact hpast' hc
      · rcases hok with happlied | hnone
        · rw [hdel n o rfl] at happlied
          cases happlied
        · rw [hnone] at hc
          cases hc
    · refine hx.one id n ?_ hn
      have hall : (w.cancels[i]?.all w.active) = true := hok
      rw [hi] at hall
      exact hall

/-- **A job that ends touches only its own lock.**  In every run in which no `Start` comes while a
running job is without its key, and no cancel request is out of date, the clean-up of a job leaves the
lock of every other running job and every cancel request for another job where they are, no two jobs run
that both believe the lock is theirs, and a running job that has not lost the lock and has not begun its
clean-up has it. -/
theorem finished_job_touches_own {w : World} (h : Reach World.step InStep World.start w) :
    (∀ n o w', w.step (.delLock n o) = some w' →
      ∀ m, m ≠ n → w.active m = true → w.lock = some m → w'.lock = some m) ∧
    (∀ n o w', w.step (.delCancel n o) = some w' →
      ∀ m, m ≠ n → w.cancel = some m → w'.cancel = some m) ∧
    (∀ n m, w.believes n = true → w.believes m = true → n = m) ∧
    ∀ n, w.active n = true → w.stage? n ≠ some .unlocked → n ∉ w.lost → w.lock = some n := by
  have hx : Exclusive w := h.invariant (P := Exclusive) .start fun _ _ _ hx hok hs ↦ hx.step hok hs
  refine ⟨fun n o w' hstep m hne hm _ ↦ ?_, fun n o w' hstep m hne hc ↦ ?_, fun n m hn hm ↦ ?_,
    fun n hn hstage hlost ↦ ?_⟩
  · obtain ⟨w₁, hmove, _⟩ := map_eq_some_iff.mp hstep
    have hn : w.active n = true := World.active_iff.mpr ⟨_, (World.move_eq_some hmove).1, rfl⟩
    exact absurd (hx.one m n hm hn) hne
  · obtain ⟨w₁, hmove, _⟩ := map_eq_some_iff.mp hstep
    exact absurd (hx.own n _ m (World.move_eq_some hmove).1 rfl (by simp) hc) hne
  · rw [World.believes, Bool.and_eq_true] at hn hm
    exact hx.one n m hn.1 hm.1
  · obtain ⟨s, hs, hact⟩ := World.active_iff.mp hn
    exact hx.holds n s hs hact (fun h ↦ hstage (h ▸ hs)) hlost

/-- A job starts, loses its key to a restart, takes it back with its heartbeat, is cancelled and
ends; a second one then starts on another Core. -/
def reclaimed : List Action :=
  [.setNX 0 .ok, .startDel 0 .ok, .launch 0, .persist 0 .copying, .restart, .tick 0, .refresh 0 .ok,
    .persist 0 .copying, .getJob, .setCancel 0 .ok, .finish 0, .delLock 0 .ok, .delCancel 0 .ok,
    .setNX 1 .ok]

theorem finished_job_touches_own_reclaimed :
    ∃ w, Reach World.step InStep World.start w ∧ w.lock = some 1 ∧
      ∀ n m, w.believes n = true → w.believes m = true → n = m := by
  have hrun : (exec World.step InStep World.start reclaimed).map (·.lock) = some (some 1) := by
    decide
  obtain ⟨w, hw, hlock⟩ := exists_reach_of_exec hrun
  exact ⟨w, hw, hlock, (finished_job_touches_own hw).2.2.1⟩

/-- The key of a running job is lost, a second job starts on another Core before the heartbeat, and
the first one ends. -/
def keyLost : List Action :=
  [.setNX 0 .ok, .startDel 0 .ok, .launch 0, .expireLock, .setNX 1 .ok, .startDel 1 .ok, .launch 1,
    .finish 0]

/-- Both jobs believe the lock is theirs, and the clean-up of the first removes the lock the second
holds. -/
theorem not_own_lock_key_lost :
    ∃ w, Reach World.step anyStep World.start w ∧ w.believes 0 = true ∧ w.believes 1 = true ∧
      w.lock = some 1 ∧ ∃ w', w.step (.delLock 0 .ok) = some w' ∧ w'.lock = none ∧
        w'.active 1 = true :=
  exists_reach_of_any keyLost (by decide +kernel)

end Dylaris.Migration.Lock
