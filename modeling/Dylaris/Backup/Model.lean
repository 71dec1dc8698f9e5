import Dylaris.Library.Machine

/-!
# Closing a backup run

Three parties close a backup run or finish its upload, each on its own goroutine and some on several
Core replicas at once:

* the result consumer (`consumeResults`) writes what a node reports about the run;
* the reaper (`reapAbandonedRuns`) closes a run whose result never arrived;
* `completeUpload` completes the run's multipart upload when the node asks for it.

Each reads the run, decides, and writes later, and closing a run without success discards its upload
and the archive under its key.  The model is a machine whose steps are the single commands, to the
database or to the storage.  A `Cell` is one run with everything that is about it: its row, its upload,
the object under its key, and the goroutines at work on it.  The key belongs to the run alone, so the
goroutines of other runs do not touch it, and a server's runs are a list of cells.  Each run that a reaper
pass has listed has a goroutine of its own.

Time is left out: a run may read as abandoned at any moment.  What belongs to other parts of Core is a
choice of the step.
-/

set_option autoImplicit false

namespace Dylaris.Backup

open Machine (Outcome)

/-- The status of a run; a node may report anything. -/
inductive Status
  | running | success | failed
  | other (name : String)
deriving DecidableEq, Repr

/-- A row of `backup_runs`. -/
structure Run where
  id : Nat
  status : Status
  errorMessage : String
  sizeBytes : Int
  storageKey : String
  /-- Empty until the node first asks for part URLs. -/
  uploadID : String
  partSize : Int
  /-- The size Core measured when it completed the upload. -/
  uploadedBytes : Option Int
deriving DecidableEq, Repr

/-- The row `StartBackupRunIfIdle` inserts. -/
def Run.start (id : Nat) (key : String) : Run := ⟨id, .running, "", 0, key, "", 0, none⟩

/-- `UpdateBackupRunStatus`. -/
def updateBackupRunStatus (status : Status) (message : String) (size : Int) (key : String)
    (run : Run) : Run :=
  { run with status := status, errorMessage := message, sizeBytes := size, storageKey := key }

/-- `SetBackupRunUpload`: the write lands only on a running run without an upload. -/
def setBackupRunUpload (uploadID : String) (partSize : Int) (run : Run) : Option Run :=
  if run.uploadID = "" ∧ run.status = .running then
    some { run with uploadID := uploadID, partSize := partSize }
  else none

/-- `SetBackupRunUploaded`: the write lands only on a running run. -/
def setBackupRunUploaded (size : Int) (run : Run) : Option Run :=
  if run.status = .running then some { run with uploadedBytes := some size } else none

/-! ## Reports of the node -/

/-- A result message of a node. -/
structure Report where
  status : Status
  error : String
  sizeBytes : Int
deriving DecidableEq, Repr

/-- `applyBackupReport`. -/
def applyBackupReport (reportStatus rowStatus : Status) : Bool :=
  if rowStatus = .success then false
  else if reportStatus = .running then rowStatus = .running
  else true

/-- `runOnObjectStorage`; `provider` is what the run's storage resolves to, if it does. -/
def runOnObjectStorage (run : Run) (provider : Option Bool) : Option Bool :=
  if run.uploadID ≠ "" ∨ 0 < run.partSize then some true else provider

/-- `settleObjectStorageReport`: what a terminal report writes, if anything. -/
def settleObjectStorageReport (status : Status) (message : String) (run : Run) :
    Option (Status × String × Int) :=
  if run.status ≠ .running then none
  else if status ≠ .success then some (.failed, message, 0)
  else match run.uploadedBytes with
    | none => some (.failed, "The node reported success, but Core never completed its upload.", 0)
    | some size => some (.success, message, size)

/-- What `consumeResults` writes for a report, given the run as it read it. -/
def settleReport (r : Report) (run : Run) (provider : Option Bool) : Option (Status × String × Int) :=
  if applyBackupReport r.status run.status then
    if r.status = .running then some (r.status, r.error, max r.sizeBytes 0)
    else match runOnObjectStorage run provider with
      | none => none
      | some true => settleObjectStorageReport r.status r.error run
      | some false => some (r.status, r.error, max r.sizeBytes 0)
  else none

/-! ## The reaper -/

/-- `describeAbandonedRun`; `stat` is what the storage answers about the run's key, if it does. -/
def describeAbandonedRun (run : Run) (stat : Option (Option Int)) : Int × String :=
  if run.storageKey = "" then
    (0, "The run never recorded a storage key, so no archive was written.")
  else match stat with
    | some (some size) => (size, "An archive of " ++ toString size ++ " bytes is present at " ++
        run.storageKey ++ ". The node never confirmed it, so it is UNVERIFIED - check it before " ++
        "relying on it. It is left in place and counts against the storage quota; delete this run " ++
        "to reclaim the space.")
    | some none => (0, "No archive was written to " ++ run.storageKey ++
        ", so the backup did not complete.")
    | none => (0, "Whether an archive exists at " ++ run.storageKey ++
        " could not be determined. The Core log has the reason.")

/-- What `reapAbandonedRuns` writes for a run it has listed, if its node is connected; the run whose
upload Core completed is closed as a success, connected or not. -/
def settleAbandoned (run : Run) (connected : Bool) (stat : Option (Option Int)) (age : String) :
    Option (Status × String × Int) :=
  match decide (run.uploadID ≠ ""), run.uploadedBytes with
  | true, some size => some (.success, "The node's result never arrived, but Core had completed and " ++
      "verified the upload, so the backup is kept.", size)
  | uploading, _ =>
    if connected then
      let (size, detail) :=
        if uploading then (0, "Its upload was never confirmed, so the uploaded parts and any archive " ++
          "at " ++ run.storageKey ++ " are deleted.")
        else describeAbandonedRun run stat
      some (.failed, "No result was received from the node within " ++ age ++ ". " ++ detail, size)
    else none

/-! ## The upload -/

/-- A part of a multipart upload. -/
structure Part where
  number : Nat
  size : Int
deriving DecidableEq, Repr

/-- `MultipartMinPartSize`. -/
def multipartMinPartSize : Int := 5 * 1024 * 1024

/-- `MultipartMaxPartSize`. -/
def multipartMaxPartSize : Int := 5 * 1024 * 1024 * 1024

/-- The loop of `validateParts`: the parts are numbered without gaps from `next` on, every part but the
last has the agreed size, and the last is not larger. -/
def partsInOrder (partSize : Int) : Nat → List Part → Bool
  | _, [] => true
  | next, [p] => p.number = next ∧ p.size ≤ partSize
  | next, p :: q :: parts =>
    (p.number = next ∧ p.size = partSize) && partsInOrder partSize (next + 1) (q :: parts)

/-- `validateParts`. -/
def validateParts (parts : List Part) (partSize : Int) : Bool :=
  (multipartMinPartSize ≤ partSize ∧ partSize ≤ multipartMaxPartSize ∧ parts ≠ []) &&
    partsInOrder partSize 1 parts

/-- The total size of parts. -/
def totalSize (parts : List Part) : Int := parts.foldl (fun total p ↦ total + p.size) 0

/-- A part is uploaded, for the first time or again; the storage lists parts by their numbers. -/
def putPart (part : Part) : List Part → List Part
  | [] => [part]
  | p :: parts =>
    if part.number < p.number then part :: p :: parts
    else if part.number = p.number then part :: parts
    else p :: putPart part parts

/-- What `BackupAllowanceExceeded` looks up besides the run itself. -/
structure Allowance where
  /-- The owner's allowance in bytes, if the storage has one. -/
  quota : Option Int
  /-- What the owner's other backups count for, if that can be read. -/
  others : Option Int
deriving DecidableEq, Repr

/-- What a run counts for in `BackupBytesByOwner`. -/
def countedBytes : Option Run → Int
  | none => 0
  | some run => match run.status with
    | .running => run.uploadedBytes.getD 0
    | .success => run.sizeBytes
    | .failed => if 0 < run.sizeBytes then run.sizeBytes else 0
    | .other _ => 0

/-- `BackupAllowanceExceeded`: whether it is, the bytes used, and the allowance. -/
def backupAllowanceExceeded (a : Allowance) (row : Option Run) : Bool × Int × Int :=
  match a.quota, a.others with
  | none, _ => (false, 0, 0)
  | some quota, none => (false, 0, quota)
  | some quota, some others => (quota ≤ others + countedBytes row, others + countedBytes row, quota)

/-- `exceedsAllowance`: `row` is the run's row now, `run` the copy the request works on. -/
def exceedsAllowance (a : Allowance) (row : Option Run) (run : Run) (bytes : Int) : Bool :=
  let (exceeded, used, quota) := backupAllowanceExceeded a row
  if !exceeded && quota = 0 then false
  else quota < used - run.uploadedBytes.getD 0 + bytes

/-! ## The goroutines -/

/-- Where a goroutine that closes the run is. -/
inductive Closing
  | listed (run : Run)
  /-- At `UpdateBackupRunStatus`, with the run as it was read and what is to be written. -/
  | write (reaper : Bool) (run : Run) (status : Status) (message : String) (size : Int)
  /-- `discardRunUpload`, at its own read of the run. -/
  | reread
  /-- At `AbortMultipart`, then at `Delete`. -/
  | abort (run : Run)
  | delete (run : Run)
  | done
deriving DecidableEq, Repr

/-- What `completeUpload` answers the node. -/
inductive Answer
  | size (bytes : Int)
  | refused (message : String)
deriving DecidableEq, Repr

/-- Where an execution of `completeUpload` is, with the run as it read it. -/
inductive Completing
  | list (run : Run)
  /-- At `exceedsAllowance` for the parts listed. -/
  | check (run : Run) (bytes : Int)
  /-- At `AbortMultipart` of an upload over the allowance. -/
  | abort (run : Run)
  /-- `CompleteMultipart`, at its listing of the parts, then at the completion itself. -/
  | parts (run : Run)
  | complete (run : Run) (total : Int)
  /-- At `Stat`, where the completion failed. -/
  | stat (run : Run)
  /-- At `exceedsAllowance` for what was completed. -/
  | recheck (run : Run) (size : Int)
  /-- At `SetBackupRunUploaded`. -/
  | record (run : Run) (size : Int)
  /-- At the `Delete` of `deleteCompleted`, with the refusal that follows. -/
  | delete (run : Run) (message : String)
  | done (answer : Answer)
deriving DecidableEq, Repr

/-- One run and everything that is about it. -/
structure Cell where
  row : Option Run
  /-- The parts of the upload Core started for the run, until it is completed or aborted. -/
  upload : Option (List Part)
  /-- The size of the object under the run's key, if there is one. -/
  archive : Option Int
  closers : List Closing
  completions : List Completing
deriving DecidableEq, Repr

/-- A run that has just been started. -/
def Cell.start (id : Nat) (key : String) : Cell := ⟨some (.start id key), none, none, [], []⟩

/-- `errAllowanceExceeded`. -/
def allowanceExceeded : String := "backup exceeds the backup storage allowance"

/-- The answer to an error that is not meant for the node (`nodeMessage`). -/
def cannotComplete : String := "Core could not complete the upload; the Core log has the reason"

/-- The refusal of a run that was closed meanwhile. -/
def noLongerRunning (run : Run) : String :=
  "backup run " ++ toString run.id ++ " is no longer running"

/-! ## Closing -/

/-- A move of a closing goroutine. -/
inductive ClosingStep
  /-- The reaper decides about the run it has listed; `answers` says whether the storage does. -/
  | decide (connected answers : Bool) (age : String)
  | write (o : Outcome)
  /-- `opens` says whether the run can be read and its storage opened. -/
  | reread (opens : Bool)
  | abort (o : Outcome)
  | delete (o : Outcome)
deriving DecidableEq, Repr

/-- After the status is written: a run closed as failed is discarded.  The reaper leaves a run alone
whose status it could not write, the consumer does not look. -/
def afterWrite (reaper : Bool) (status : Status) (o : Outcome) : Closing :=
  if status = .failed ∧ (reaper = false ∨ o = .ok) then .reread else .done

/-- A command of `consumeResults`, `reapAbandonedRuns` or `discardRunUpload`. -/
def closingStep (c : Cell) : Closing → ClosingStep → Option (Cell × Closing)
  | .listed run, .decide connected answers age =>
    match settleAbandoned run connected (if answers then some c.archive else none) age with
    | some (status, message, size) => some (c, .write true run status message size)
    | none => some (c, .done)
  | .write reaper run status message size, .write o =>
    let row := c.row.map (updateBackupRunStatus status message size run.storageKey)
    some ({ c with row := if o.applied then row else c.row }, afterWrite reaper status o)
  | .reread, .reread opens =>
    match c.row with
    | some run =>
      if opens ∧ run.uploadID ≠ "" ∧ run.status ≠ .success then some (c, .abort run)
      else some (c, .done)
    | none => some (c, .done)
  | .abort run, .abort o =>
    some ({ c with upload := if o.applied then none else c.upload }, .delete run)
  | .delete _, .delete o =>
    some ({ c with archive := if o.applied then none else c.archive }, .done)
  | _, _ => none

/-! ## Completing -/

/-- A move of an execution of `completeUpload`; `answers` says whether the storage does. -/
inductive CompletingStep
  | list (answers : Bool)
  | check (a : Allowance)
  | abort (o : Outcome)
  | parts (answers : Bool)
  | complete (o : Outcome)
  | stat (answers : Bool)
  | recheck (a : Allowance)
  | record (o : Outcome)
  | delete (o : Outcome)
deriving DecidableEq, Repr

/-- A command of `completeUpload`. -/
def completingStep (c : Cell) : Completing → CompletingStep → Option (Cell × Completing)
  | .list run, .list answers =>
    match c.upload with
    | some parts => some (c, if answers then .check run (totalSize parts) else .stat run)
    | none => some (c, .stat run)
  | .check run bytes, .check a =>
    some (c, if exceedsAllowance a c.row run bytes then .abort run else .parts run)
  | .abort _, .abort o =>
    some ({ c with upload := if o.applied then none else c.upload },
      .done (.refused allowanceExceeded))
  | .parts run, .parts answers =>
    match c.upload with
    | some parts => some (c, if answers ∧ validateParts parts run.partSize then
        .complete run (totalSize parts) else .stat run)
    | none => some (c, .stat run)
  | .complete run total, .complete o =>
    match c.upload with
    | some _ =>
      some (if o.applied then { c with upload := none, archive := some total } else c,
        if o = .ok then .recheck run total else .stat run)
    | none => some (c, .stat run)
  | .stat run, .stat answers =>
    match c.archive with
    | some size => some (c, if answers then .recheck run size else .done (.refused cannotComplete))
    | none => some (c, .done (.refused cannotComplete))
  | .recheck run size, .recheck a =>
    some (c, if exceedsAllowance a c.row run size then .delete run allowanceExceeded
      else .record run size)
  | .record run size, .record o =>
    match c.row.bind (setBackupRunUploaded size) with
    | some row =>
      some ({ c with row := if o.applied then some row else c.row },
        .done (if o = .ok then .size size else .refused cannotComplete))
    | none =>
      some (c, if o = .ok then .delete run (noLongerRunning run) else .done (.refused cannotComplete))
  | .delete _ message, .delete o =>
    some ({ c with archive := if o.applied then none else c.archive }, .done (.refused message))
  | _, _ => none

/-! ## A run and a server's runs -/

/-- A step about one run. -/
inductive Label
  /-- The node's first request for part URLs. -/
  | startUpload (uploadID : String) (partSize : Int)
  | putPart (part : Part)
  /-- A later request for part URLs finds the upload too large and aborts it (`checkUploadSoFar`). -/
  | abortUpload (o : Outcome)
  /-- A node writes an archive to a filesystem target. -/
  | writeArchive (size : Int)
  /-- A report of a node is read, and the run with it. -/
  | report (r : Report) (attributed : Bool) (provider : Option Bool)
  | reap
  /-- The node asks for the completion of its upload (`runUploadFor`). -/
  | requestComplete
  | closer (n : Nat) (a : ClosingStep)
  | completion (n : Nat) (a : CompletingStep)
  /-- Retention or a delete by a user: the row, and the object under its key. -/
  | removeRow
  | removeArchive
deriving DecidableEq, Repr

namespace Cell

variable (c : Cell)

/-- A goroutine is started that closes the run. -/
def addCloser (t : Closing) : Cell := { c with closers := c.closers ++ [t] }

/-- The steps about one run. -/
def step : Label → Option Cell
  | .startUpload uploadID partSize =>
    -- `CreateMultipart` does not hand out an empty id.
    if uploadID = "" then none
    else (c.row.bind (setBackupRunUpload uploadID partSize)).map fun row ↦
      { c with row := some row, upload := some [] }
  | .putPart part => c.upload.map fun parts ↦ { c with upload := some (putPart part parts) }
  | .abortUpload o => some { c with upload := if o.applied then none else c.upload }
  | .writeArchive size =>
    match c.row with
    | some run => if run.uploadID = "" then some { c with archive := some size } else none
    | none => none
  | .report r attributed provider =>
    match c.row with
    | some run =>
      match if attributed then settleReport r run provider else none with
      | some (status, message, size) => some (c.addCloser (.write false run status message size))
      | none => some c
    | none => some c
  | .reap =>
    match c.row with
    | some run => if run.status = .running then some (c.addCloser (.listed run)) else none
    | none => none
  | .requestComplete =>
    match c.row with
    | some run =>
      if run.status = .running ∧ run.uploadID ≠ "" then
        some { c with completions := c.completions ++ [.list run] }
      else some c
    | none => some c
  | .closer n a =>
    c.closers[n]?.bind fun t ↦ (closingStep c t a).map fun (c', t') ↦
      { c' with closers := c.closers.set n t' }
  | .completion n a =>
    c.completions[n]?.bind fun t ↦ (completingStep c t a).map fun (c', t') ↦
      { c' with completions := c.completions.set n t' }
  | .removeRow => some { c with row := none }
  | .removeArchive => some { c with archive := none }

end Cell

/-- A step about the runs of a server. -/
inductive ServerLabel
  | start (key : String)
  | run (n : Nat) (a : Label)
deriving DecidableEq, Repr

/-- The steps about the runs of a server; a run is started only while none is running
(`StartBackupRunIfIdle`). -/
def serverStep (cells : List Cell) : ServerLabel → Option (List Cell)
  | .start key =>
    if ∀ c ∈ cells, ∀ run ∈ c.row, run.status ≠ .running then
      some (cells ++ [.start (cells.length + 1) key])
    else none
  | .run n a => Machine.atIndex Cell.step cells n a

end Dylaris.Backup
