import Dylaris.Library.Machine
import Dylaris.Schedule.NextRun

/-!
# A scheduled task

One task: its row in `scheduled_tasks`, the handlers that create and edit it, and the executors of
the Cores, which list the due rows, claim a firing, carry it out and record it.  Every statement on
the row is a step.  A handler's edit is two — it reads the row, and later writes all of it back,
with a next run of its own if it changes the schedule or enables a task that has none — and so is
all of it a race: the claim is a compare-and-set on `next_run`, the record writes `next_run` again,
unconditionally, and the edit whatever it read.

A clock is read by each party by itself, so it is part of the label, and so is whether the caller holds the
capability the task's action needs.  The handlers are given their texts trimmed.
-/

set_option autoImplicit false

namespace Dylaris.Schedule

open Machine

/-- How a firing went. -/
inductive RunStatus
  | ok | skipped | error
deriving DecidableEq, Repr

/-- `models.ScheduledTask`. -/
structure Task where
  name : String
  taskType : String
  payload : String
  scheduleCron : String
  timezone : String
  enabled : Bool
  nextRun : Option Int
  lastRun : Option Int
  lastStatus : Option RunStatus
deriving DecidableEq, Repr

/-- `scheduledTaskRequest`. -/
structure TaskRequest where
  name : String
  taskType : String
  payload : String
  scheduleCron : String
  timezone : String
  enabled : Option Bool
deriving DecidableEq, Repr

/-! ## The handlers -/

/-- `validateTaskFields`: the reason to refuse, if there is one. -/
def validateTaskFields (name taskType payload : String) : Option String :=
  if 128 < name.utf8ByteSize then some "Name too long (max 128 characters)"
  else if 512 < payload.utf8ByteSize then some "Payload too long (max 512 characters)"
  else if taskType ≠ "restart" ∧ taskType ≠ "say" then some "Unsupported task type"
  else if taskType = "say" ∧ payload = "" then some "Payload (message) required for 'say' task"
  else none

/-- `capForTaskType`. -/
def capForTaskType (taskType : String) : Option String :=
  if taskType = "restart" then some "power.restart"
  else if taskType = "say" then some "console.send"
  else none

/-- `refuseWithoutTaskCap`. -/
def refuseWithoutTaskCap (taskType : String) (holdsCap : Bool) : Option String :=
  (capForTaskType taskType).bind fun capID ↦
    if holdsCap then none
    else some ("This task needs " ++ capID ++ ", which you do not hold on this server")

/-- `refuseIfScheduledTaskLimitReached`. -/
def refuseIfScheduledTaskLimitReached (limit : Option Nat) (existing : Nat) : Option String :=
  limit.bind fun n ↦
    if n ≤ existing then
      some ("Scheduled task limit reached (" ++ toString n ++
        " per server). Remove a task, or change the limit in Settings → Servers.")
    else none

/-- What a request leaves out stays as it is. -/
def patched (new old : String) : String := if new = "" then old else new

/-- The zone of a new task: its own, the server's, or UTC. -/
def TaskRequest.newZone (req : TaskRequest) (serverTz : String) : String :=
  taskZone (patched req.timezone serverTz)

/-- `Create`, for a server in the given time zone that has `existing` tasks. -/
def createTask (env : Env) (req : TaskRequest) (serverTz : String) (holdsCap : Bool)
    (limit : Option Nat) (existing : Nat) (now : Int) : Except String Task :=
  match validateTaskFields req.name req.taskType req.payload with
  | some msg => .error msg
  | none =>
    match refuseWithoutTaskCap req.taskType holdsCap with
    | some msg => .error msg
    | none =>
      if (env.zone (req.newZone serverTz)).isNone then .error "Unknown time zone"
      else match computeNextRunIn env req.scheduleCron (req.newZone serverTz) now with
        | .error _ => .error "Invalid cron expression"
        | .ok next =>
          match refuseIfScheduledTaskLimitReached limit existing with
          | some msg => .error msg
          | none =>
            .ok ⟨req.name, req.taskType, req.payload, req.scheduleCron, req.newZone serverTz,
              req.enabled.getD true, some next, none, none⟩

/-- A patch that only switches the task off. -/
def TaskRequest.onlyDisabling (req : TaskRequest) : Bool :=
  req.enabled = some false && req.name = "" && req.taskType = "" && req.payload = "" &&
    req.scheduleCron = "" && req.timezone = ""

/-- The patch gives the task another cron line or zone. -/
def TaskRequest.reschedules (req : TaskRequest) (e : Task) : Bool :=
  (req.scheduleCron ≠ "" && req.scheduleCron ≠ e.scheduleCron) ||
    (req.timezone ≠ "" && req.timezone ≠ e.timezone)

/-- The schedule of the patch, with its next run. -/
def reschedule (env : Env) (e : Task) (req : TaskRequest) (now : Int) : Except String Task :=
  if req.reschedules e then
    let cron := patched req.scheduleCron e.scheduleCron
    let tz := patched req.timezone e.timezone
    match computeNextRunIn env cron tz now with
    | .error _ => .error "Invalid cron expression"
    | .ok next => .ok { e with scheduleCron := cron, timezone := tz, nextRun := some next }
  else .ok e

/-- An enabled task that has no next run gets one; a disabled one loses it. -/
def settle (env : Env) (e : Task) (now : Int) : Task :=
  if e.enabled then
    if e.nextRun.isNone then
      match computeNextRunIn env e.scheduleCron e.timezone now with
      | .ok next => { e with nextRun := some next }
      | .error _ => e
    else e
  else { e with nextRun := none }

/-- The patch, but for the schedule. -/
def Task.patch (e : Task) (req : TaskRequest) : Task :=
  { e with
    name := patched req.name e.name
    taskType := patched req.taskType e.taskType
    payload := patched req.payload e.payload
    enabled := req.enabled.getD e.enabled }

/-- `Update`, from the row it has read to the row it writes. -/
def updateTask (env : Env) (e : Task) (req : TaskRequest) (holdsCap : Bool) (now : Int) :
    Except String Task :=
  match validateTaskFields (e.patch req).name (e.patch req).taskType (e.patch req).payload with
  | some msg => .error msg
  | none =>
    match if req.onlyDisabling then none
      else refuseWithoutTaskCap (e.patch req).taskType holdsCap with
    | some msg => .error msg
    | none =>
      if req.timezone ≠ "" ∧ (env.zone req.timezone).isNone then .error "Unknown time zone"
      else (reschedule env (e.patch req) req now).map fun e ↦ settle env e now

/-- The edit computes a next run: for another schedule, or for a task it enables that has none. -/
def TaskRequest.recomputes (req : TaskRequest) (e : Task) : Bool :=
  req.reschedules e || (req.enabled.getD e.enabled && e.nextRun.isNone)

/-! ## The machine -/

/-- A firing: the planned time, the clock of the executor, and the schedule then in force. -/
structure Fire where
  planned : Int
  clock : Int
  scheduleCron : String
  timezone : String
deriving DecidableEq, Repr

/-- Where an executor stands with a task it has listed. -/
inductive RunStage
  | claiming
  | claimed (next : Int)
  | disabled
  | over
deriving DecidableEq, Repr

/-- An executor's work on the task: the row as listed, the clock it was listed by. -/
structure Run where
  task : Task
  now : Int
  stage : RunStage
deriving DecidableEq, Repr

/-- The row, the firings, and the executors and edits under way. -/
structure World where
  row : Option Task
  /-- The latest first. -/
  fired : List Fire
  runs : List Run
  /-- The rows that handlers have read and not yet written back. -/
  edits : List Task
  /-- From when a next run has been counted, and for which schedule. -/
  counted : List Counted
deriving DecidableEq, Repr

/-- A step of an executor or of an edit. -/
inductive Action
  /-- `ListDueScheduledTasks`. -/
  | list (now : Int)
  /-- `ClaimScheduledTaskRun`. -/
  | claim (i : Nat) (o : Outcome)
  /-- `RecordScheduledTaskRun`, after a firing. -/
  | record (i : Nat) (status : RunStatus) (o : Outcome)
  /-- A schedule that does not parse: `SetScheduledTaskEnabled`, then `RecordScheduledTaskRun`. -/
  | disable (i : Nat) (o : Outcome)
  | recordError (i : Nat) (o : Outcome)
  /-- `Update` reads the row, and writes it. -/
  | get
  | update (j : Nat) (req : TaskRequest) (holdsCap : Bool) (now : Int) (o : Outcome)
  | delete
deriving DecidableEq, Repr

/-- A task that is due. -/
def Task.due (t : Task) (now : Int) : Bool := t.enabled && t.nextRun.any (· ≤ now)

/-- `dueAt`. -/
def Run.dueAt (r : Run) : Int := r.task.nextRun.getD zeroTime

/-- The compare-and-set of the claim finds its row. -/
def Run.wins (r : Run) (t : Task) : Bool := t.enabled && t.nextRun = some r.dueAt

def World.withRun (w : World) (i : Nat) (r : Run) (stage : RunStage) : World :=
  { w with runs := w.runs.set i { r with stage := stage } }

def World.count (w : World) (scheduleCron timezone : String) (now : Int) : World :=
  { w with counted := ⟨scheduleCron, taskZone timezone, now⟩ :: w.counted }

/-- The row, after a statement that writes it. -/
def World.write (w : World) (o : Outcome) (f : Task → Task) : World :=
  if o.applied then { w with row := w.row.map f } else w

/-- The claim of a firing, for the next run `next`. -/
def World.claim (w : World) (i : Nat) (r : Run) (next : Int) (o : Outcome) : World :=
  match w.row.filter r.wins with
  | some t =>
    let w' := w.write o fun t ↦ { t with nextRun := some next }
    -- a claim whose reply is lost has moved the row and is not carried out
    if o = .ok then
      { w'.withRun i r (.claimed next) with
        fired := ⟨r.dueAt, r.now, t.scheduleCron, t.timezone⟩ :: w.fired }
    else w'.withRun i r .over
  | none => w.withRun i r .over

/-- What `UPDATE scheduled_tasks` of an edit makes of the row. -/
def Task.overwritten (t e : Task) : Task :=
  { e with timezone := taskZone e.timezone, lastRun := t.lastRun, lastStatus := t.lastStatus }

def World.step (env : Env) (w : World) : Action → Option World
  | .list now =>
    (w.row.filter (·.due now)).map fun t ↦ { w with runs := w.runs ++ [⟨t, now, .claiming⟩] }
  | .claim i o =>
    (w.runs[i]?.filter (·.stage = .claiming)).bind fun r ↦
      match computeNextRunIn env r.task.scheduleCron r.task.timezone r.now with
      | .ok next => some ((w.count r.task.scheduleCron r.task.timezone r.now).claim i r next o)
      | .error _ => none
  | .record i status o =>
    w.runs[i]?.bind fun r ↦
      match r.stage with
      | .claimed next =>
        some ((w.write o fun t ↦
          { t with lastRun := some r.now, lastStatus := some status, nextRun := some next }).withRun
            i r .over)
      | _ => none
  | .disable i o =>
    (w.runs[i]?.filter (·.stage = .claiming)).bind fun r ↦
      match computeNextRunIn env r.task.scheduleCron r.task.timezone r.now with
      | .ok _ => none
      | .error _ =>
        some ((w.write o fun t ↦ { t with enabled := false, nextRun := none }).withRun i r .disabled)
  | .recordError i o =>
    (w.runs[i]?.filter (·.stage = .disabled)).map fun r ↦
      (w.write o fun t ↦
        { t with lastRun := some r.now, lastStatus := some .error, nextRun := none }).withRun i r .over
  | .get => w.row.map fun t ↦ { w with edits := w.edits ++ [t] }
  | .update j req holdsCap now o =>
    w.edits[j]?.map fun e ↦
      let w' := { w with edits := w.edits.eraseIdx j }
      match updateTask env e req holdsCap now with
      | .ok e' =>
        (if req.recomputes e then w'.count e'.scheduleCron e'.timezone now else w').write o fun t ↦
          t.overwritten e'
      | .error _ => w'
  | .delete => w.row.map fun _ ↦ { w with row := none }

/-- The task was created at `now`. -/
def World.start (t : Task) (now : Int) : World :=
  ⟨some t, [], [], [], [⟨t.scheduleCron, taskZone t.timezone, now⟩]⟩

end Dylaris.Schedule
