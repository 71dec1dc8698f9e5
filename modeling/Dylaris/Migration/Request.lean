import Mathlib.Data.Option.Basic

/-!
# Migration requests and the gates of a job

A storage migration copies the objects of a data set to another place, verifies the copy against a
manifest, points the configuration at it and, if asked, removes the originals.  This file is what
decides, without touching a storage, whether a job may do that: `Request.validate` at the API
boundary, and the two gates `authorizeConfigSwitch` and `authorizeSourceDelete` a running job asks
before its two consequential phases.

The fields of a target configuration that only say where and with which credentials the target is
built are not here; where it is, is a `Location` of `Dylaris.Migration.Storage`.
-/

set_option autoImplicit false

namespace Dylaris.Migration

/-- `StorageMigrationPhase`. -/
inductive Phase
  | preparing | manifesting | copying | verifying | switchingConfig | deletingSource
  | done | failed | cancelled
deriving DecidableEq, Repr

/-- `StorageMigrationInProgress`. -/
def storageMigrationInProgress : Phase → Bool
  | .preparing | .manifesting | .copying | .verifying | .switchingConfig | .deletingSource => true
  | .done | .failed | .cancelled => false

/-- What `Cancel` requires of the phase it reads: in progress, and not one of the two phases that
are worse half done than done. -/
def Phase.cancellable (p : Phase) : Bool :=
  storageMigrationInProgress p && p ≠ .switchingConfig && p ≠ .deletingSource

/-- `StorageJobKind`, as a request spells it. -/
inductive JobKind
  | migrate | manifest | verify
  | other (name : String)
deriving DecidableEq, Repr

/-- A verification mode, as a request spells it. -/
inductive VerifyMode
  | full | sample
  | other (name : String)
deriving DecidableEq, Repr

/-- The mode's spelling. -/
def VerifyMode.name : VerifyMode → String
  | .full => "full"
  | .sample => "sample"
  | .other name => name

/-- `ValidVerifyMode`. -/
def validVerifyMode (m : VerifyMode) : Bool := m = .full || m = .sample

/-- What `Validate` reads of a `StorageTargetConfig`. -/
structure TargetConfig where
  backend : String
  connectionID : Nat
deriving DecidableEq, Repr

/-- `StorageMigrationRequest`. -/
structure Request where
  kind : JobKind
  dataSet : String
  targetDataSet : String
  targetConfig : Option TargetConfig
  verifyMode : VerifyMode
  deleteSource : Bool
  manifestID : Int
deriving DecidableEq, Repr

/-- The error every kind with a verification gives for a mode it does not know. -/
def errVerifyMode : String := "verifyMode must be \"full\" or \"sample\""

/-- The `StorageJobManifest` arm of `Validate`. -/
def Request.validateManifest (r : Request) : Except String Unit :=
  if r.deleteSource then .error "deleteSource is meaningless for a manifest-only job"
  else if r.targetConfig.isSome then .error "targetConfig is meaningless for a manifest-only job"
  else .ok ()

/-- The `StorageJobVerify` arm of `Validate`. -/
def Request.validateVerify (r : Request) : Except String Unit :=
  if r.deleteSource then .error "deleteSource is meaningless for a verify-only job"
  else if r.targetConfig.isSome then
    .error ("targetConfig is meaningless for a verify-only job: a verify compares the data set's " ++
      "CURRENT backend against a stored manifest")
  else if !validVerifyMode r.verifyMode then .error errVerifyMode
  else if r.manifestID ≤ 0 then .error "manifestId is required for a verify job"
  else .ok ()

/-- The `StorageJobMigrate` arm of `Validate`. -/
def Request.validateMigrate (r : Request) : Except String Unit :=
  if r.targetConfig.isSome && r.targetDataSet ≠ "" then
    .error "name either targetDataSet or targetConfig, not both"
  else if r.targetConfig.isNone && r.targetDataSet = "" then
    .error ("a migrate job needs a target: either targetDataSet (another data set) or " ++
      "targetConfig (an ad-hoc storage config)")
  else if r.targetConfig.any fun c ↦ c.backend = "" && c.connectionID = 0 then
    .error "targetConfig.backend is required (\"path\" or \"s3\"), unless a connectionId is given"
  else if !validVerifyMode r.verifyMode then .error errVerifyMode
  else if r.deleteSource && r.verifyMode ≠ .full then
    .error ("deleteSource requires verifyMode \"full\": a sampled verification cannot authorize " ++
      "deleting the source")
  else if r.deleteSource && r.targetConfig.isNone then
    .error ("deleteSource requires targetConfig: with a targetDataSet target nothing repoints the " ++
      "consuming subsystem, so deleting the source here would orphan live references - migrate, " ++
      "verify, repoint, then remove the old storage yourself")
  else .ok ()

/-- `StorageMigrationRequest.Validate`. -/
def Request.validate (r : Request) : Except String Unit :=
  if r.dataSet = "" then .error "dataSet is required"
  else match r.kind with
    | .manifest => r.validateManifest
    | .verify => r.validateVerify
    | .migrate => r.validateMigrate
    | .other name =>
      .error ("unknown kind \"" ++ name ++ "\" (want migrate, manifest or verify)")

/-- What the gates read of a `StorageVerifyReport`. -/
structure Report where
  mode : VerifyMode
  objectsInManifest : Nat
  problemsTotal : Nat
deriving DecidableEq, Repr

/-- `rep.OK = problems == 0`. -/
def Report.ok (r : Report) : Bool := r.problemsTotal = 0

/-- `StorageVerifyReport.AuthorizesSourceDelete`. -/
def Report.authorizesSourceDelete (r : Report) : Bool := r.ok && r.mode = .full

/-- `AuthorizeConfigSwitch`. -/
def authorizeConfigSwitch (r : Report) : Except String Unit :=
  if r.ok then .ok ()
  else .error ("storagemigrate: switching the active config is not authorized: verification found " ++
    toString r.problemsTotal ++ " problem(s)")

/-- `ErrDeleteNotAuthorized`, wrapped around the reason. -/
def errDeleteNotAuthorized (reason : String) : String :=
  "storagemigrate: deleting the source is not authorized: " ++ reason

/-- `AuthorizeSourceDelete`, its checks in the order the source has them. -/
def authorizeSourceDelete (deleteSource : Bool) (verifyMode : VerifyMode) (report : Report)
    (configSwitched : Bool) : Except String Unit :=
  if deleteSource = false then
    .error (errDeleteNotAuthorized "the run did not opt in to deleting the source")
  else if configSwitched = false then
    .error (errDeleteNotAuthorized ("the active config has not been switched to the target yet; " ++
      "deleting first would point the live config at deleted data"))
  else if verifyMode ≠ .full then
    .error (errDeleteNotAuthorized ("the request declared verify mode \"" ++ verifyMode.name ++
      "\"; a sampled verification does not check every object and can never authorize a delete"))
  else if report.authorizesSourceDelete = false then
    .error (errDeleteNotAuthorized ("the verification report does not authorize a delete (mode=\"" ++
      report.mode.name ++ "\", ok=" ++ toString report.ok ++ ", problems=" ++
      toString report.problemsTotal ++ ")"))
  else if report.objectsInManifest = 0 then
    .error (errDeleteNotAuthorized ("the manifest captured zero objects; an empty manifest cannot " ++
      "prove the source was emptied and can never authorize a delete on its own"))
  else .ok ()

/-- What the gate's consent says. -/
theorem authorizeSourceDelete_eq_ok {deleteSource : Bool} {mode : VerifyMode} {report : Report}
    {switched : Bool} (h : authorizeSourceDelete deleteSource mode report switched = .ok ()) :
    deleteSource = true ∧ switched = true ∧ report.ok = true ∧ report.mode = .full := by
  rw [authorizeSourceDelete] at h
  by_cases hopt : deleteSource = false
  · rw [if_pos hopt] at h; cases h
  rw [if_neg hopt] at h
  by_cases hsw : switched = false
  · rw [if_pos hsw] at h; cases h
  rw [if_neg hsw] at h
  by_cases hmode : mode ≠ .full
  · rw [if_pos hmode] at h; cases h
  rw [if_neg hmode] at h
  by_cases hrep : report.authorizesSourceDelete = false
  · rw [if_pos hrep] at h; cases h
  rw [Bool.not_eq_false] at hopt hsw hrep
  rw [Report.authorizesSourceDelete, Bool.and_eq_true, decide_eq_true_eq] at hrep
  exact ⟨hopt, hsw, hrep⟩

end Dylaris.Migration
