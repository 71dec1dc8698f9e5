import Dylaris.Library.Machine
import Dylaris.Migration.Storage
import Mathlib.Algebra.GroupWithZero.Nat
import Mathlib.Data.List.Sort

/-!
# A migration job, one storage operation at a time

`StorageMigrationService.run` as a machine.  A step is one operation of the job on a storage, or on
the manifest store or the settings, with the way it turns out; in between, live writers may store
any object in the source.  What the job has done that its later phases rest on — an object of the
target read back, a verification finished, the configuration switched — is kept in a log, the latest
first.

* `CaptureManifest`: the source is listed (a listing races with the writers, so it may return any
  keys), then every key is read and hashed, one operation each.
* `CopyAll`: for every entry, in the order of the keys, the target is probed, and unless it already
  has the content the source is read, the target written, and the target's object removed again if
  what was read is not what the manifest says.
* `Verify`: the target is listed, then every entry — or a sample — is read back and hashed.
* the gates of `Dylaris.Migration.Request`, the switch, and `DeleteSource`.

A cancel request is seen at the object boundaries of the first three; every operation may fail.
`hash` and `size` are the checksum and the length of a content.
-/

set_option autoImplicit false

namespace Dylaris.Migration

open Machine

/-- `StorageManifestEntry`. -/
structure Entry (S : Type) where
  key : Key
  size : Nat
  sum : S
deriving DecidableEq, Repr

/-- A request that `Start` has accepted, with the data sets it resolved.  A verification compares a
data set with a stored manifest, so its target is the data set itself. -/
structure Job where
  req : Request
  src : DataSet
  target : DataSet
  valid : req.validate = .ok ()
  accepted : checkLocations req src target = .ok ()
  verifies : req.kind = .verify → target = src

/-- What a failed job says about its source. -/
inductive Note
  | sourceIntact | sourceIntactNoManifest | plain
  | partiallyDeleted (objects : Nat)
deriving DecidableEq, Repr

/-- What is left to do in the phase the job is in. -/
inductive Stage (C S : Type)
  | listing
  | capturing (todo : List Key) (entries : List (Entry S))
  | loading
  | copying (todo : List (Entry S))
  | reading (e : Entry S) (todo : List (Entry S))
  | writing (e : Entry S) (c : C) (todo : List (Entry S))
  | removing (e : Entry S)
  | presence
  | hashing (todo : List (Entry S)) (problems : Nat)
  | switching (report : Report)
  | deleting (todo : List (Entry S)) (deleted : Nat)
  | done
  | failed (note : Note)
  | cancelled
deriving DecidableEq, Repr

/-- What the job has done, for its later phases. -/
inductive Event (S : Type)
  | readBack (k : Key) (sum : S)
  | verified (report : Report)
  | switched
deriving DecidableEq, Repr

/-- The objects, and the job. -/
structure World (C S : Type) where
  store : Addr → Option C
  stage : Stage C S
  entries : List (Entry S)
  log : List (Event S)

/-- An operation of the job, or what comes from outside it. -/
inductive Action (C S : Type)
  | live (k : Key) (c : C)
  | cancel
  | error
  /-- `CaptureManifest`: `List`, `Open` of the next key, `CreateStorageManifest`. -/
  | list (keys : List Key)
  | hash
  | create
  /-- A verification job loads its manifest, or finds there is none for the data set. -/
  | load (entries : List (Entry S))
  | noManifest
  /-- `CopyAll`: `targetAlreadyMatches`, the two halves of `copyOne`, and its clean-up. -/
  | probe
  | read
  | write
  | writeFailed (left : List (Addr × Option C))
  | remove
  | removeFailed (gone : List Addr)
  /-- `Verify`: `List`, with the shuffle of the large objects, and `Open` of the next key. -/
  | present (keys : List Key) (shuffled : List (Entry S))
  | check
  | unreadable
  /-- `SwitchConfig`. -/
  | switch
  /-- `DeleteSource`. -/
  | delete
  | deleteFailed (gone : List Addr)
  | next
deriving DecidableEq, Repr

/-- `sort.Slice` by key. -/
def byKey {S : Type} (entries : List (Entry S)) : List (Entry S) :=
  entries.insertionSort fun a b ↦ "/".intercalate a.key ≤ "/".intercalate b.key

/-! ## Sampling and presence -/

/-- `sampleSmallObjectBytes`. -/
def sampleSmallObjectBytes : Nat := 2 ^ 20

/-- `sampleLargeCount`: a tenth of the large objects, but at least 200. -/
def sampleLargeCount (numLarge : Nat) : Nat := min numLarge (max 200 ((numLarge + 9) / 10))

def largeEntries {S : Type} (entries : List (Entry S)) : List (Entry S) :=
  entries.filter fun e ↦ sampleSmallObjectBytes < e.size

/-- `SelectSample`, with the large entries as the random generator has shuffled them. -/
def selectSample {S : Type} (entries shuffled : List (Entry S)) : List (Entry S) :=
  byKey ((entries.filter fun e ↦ e.size ≤ sampleSmallObjectBytes) ++
    shuffled.take (sampleLargeCount shuffled.length))

/-- The objects of the target that the manifest does not name. -/
def extras {S : Type} (entries : List (Entry S)) (present : List Key) : Nat :=
  present.countP fun k ↦ k ∉ entries.map (·.key)

/-- The entries that are neither in the sample nor on the target. -/
def unsampledMissing {S : Type} (entries sample : List (Entry S)) (present : List Key) : Nat :=
  entries.countP fun e ↦ e.key ∉ sample.map (·.key) ∧ e.key ∉ present

/-! ## The gates between the phases -/

/-- After the switch, or where there is none. -/
def afterSwitch {C S : Type} (r : Request) (report : Report) (configSettled : Bool)
    (entries : List (Entry S)) : Stage C S :=
  if r.deleteSource then
    match authorizeSourceDelete r.deleteSource r.verifyMode report configSettled with
    | .ok _ => .deleting (byKey entries) 0
    | .error _ => .failed .sourceIntact
  else .done

/-- After the verification. -/
def afterVerify {C S : Type} (r : Request) (report : Report) (entries : List (Entry S)) :
    Stage C S :=
  if report.ok = false then .failed .sourceIntact
  else if r.kind ≠ .migrate then .done
  else match authorizeConfigSwitch report with
    | .error _ => .failed .sourceIntact
    | .ok _ =>
      -- a pair of data sets has no configuration to switch
      if r.targetConfig.isSome then .switching report else afterSwitch r report false entries

/-! ## The machine -/

section Run

variable {C S : Type} [DecidableEq S] (hash : C → S) (size : C → Nat) (job : Job)

def World.start (job : Job) (store : Addr → Option C) : World C S :=
  ⟨store, if job.req.kind = .verify then .loading else .listing, [], []⟩

/-- The job goes on to another stage; nothing else changes. -/
def World.to (w : World C S) (stage : Stage C S) : World C S := { w with stage := stage }

/-- Where an operation that fails takes the job. -/
def World.onError (w : World C S) : Option (World C S) :=
  match w.stage with
  | .listing | .capturing _ _ => some (w.to (.failed .sourceIntactNoManifest))
  | .loading | .copying (_ :: _) | .reading _ _ | .presence => some (w.to (.failed .sourceIntact))
  | .switching _ => some (w.to (.failed .plain))
  | _ => none

/-- The object boundaries at which `isCancelled` is asked. -/
def World.onCancel (w : World C S) : Option (World C S) :=
  match w.stage with
  | .capturing (_ :: _) _ | .copying (_ :: _) | .hashing (_ :: _) _ => some (w.to .cancelled)
  | _ => none

/-- One operation of `CaptureManifest`, or the loading of a stored manifest. -/
def World.manifestStep (w : World C S) : Action C S → Option (World C S)
  | .list keys =>
    match w.stage with
    -- dedupeObjectRefs
    | .listing => some (w.to (.capturing keys.eraseDups []))
    | _ => none
  | .hash =>
    match w.stage with
    | .capturing (k :: todo) entries =>
      match job.src.get w.store k with
      | some c => some (w.to (.capturing todo (entries ++ [⟨k, size c, hash c⟩])))
      | none => some (w.to (.failed .sourceIntactNoManifest))
    | _ => none
  | .create =>
    match w.stage with
    | .capturing [] entries =>
      some { w with
        entries := entries
        stage := if job.req.kind = .manifest then .done else .copying (byKey entries) }
    | _ => none
  | .load entries =>
    match w.stage with
    | .loading => some { w with entries := entries, stage := .presence }
    | _ => none
  | .noManifest =>
    match w.stage with
    | .loading => some (w.to (.failed .sourceIntactNoManifest))
    | _ => none
  | _ => none

/-- `targetAlreadyMatches`. -/
def targetAlreadyMatches (store : Addr → Option C) (e : Entry S) : Bool :=
  (job.target.get store e.key).any fun c ↦ hash c = e.sum ∧ size c = e.size

/-- One operation of `CopyAll`. -/
def World.copyStep (w : World C S) : Action C S → Option (World C S)
  | .probe =>
    match w.stage with
    | .copying (e :: todo) =>
      some (w.to (if targetAlreadyMatches hash size job w.store e then .copying todo
        else .reading e todo))
    | _ => none
  | .read =>
    match w.stage with
    | .reading e todo =>
      match job.src.get w.store e.key with
      | some c => some (w.to (.writing e c todo))
      | none => some (w.to (.failed .sourceIntact))
    | _ => none
  | .write =>
    match w.stage with
    | .writing e c todo =>
      some { w with
        store := job.target.put w.store e.key c
        stage := if hash c = e.sum then .copying todo else .removing e }
    | _ => none
  | .writeFailed left =>
    match w.stage with
    | .writing e _ _ =>
      some { w with
        store := job.target.putFailed w.store e.key left
        stage := .failed .sourceIntact }
    | _ => none
  | .remove =>
    match w.stage with
    | .removing e =>
      some { w with store := job.target.remove w.store e.key, stage := .failed .sourceIntact }
    | _ => none
  | .removeFailed gone =>
    match w.stage with
    | .removing e =>
      some { w with
        store := job.target.removeFailed w.store e.key gone
        stage := .failed .sourceIntact }
    | _ => none
  | _ => none

/-- One operation of `Verify`. -/
def World.verifyStep (w : World C S) : Action C S → Option (World C S)
  | .present keys shuffled =>
    match w.stage with
    | .presence =>
      if job.req.verifyMode = .sample then
        if shuffled.Perm (largeEntries w.entries) then
          let sample := selectSample w.entries shuffled
          some (w.to (.hashing sample
            (extras w.entries keys + unsampledMissing w.entries sample keys)))
        else none
      else some (w.to (.hashing (byKey w.entries) (extras w.entries keys)))
    | _ => none
  | .check =>
    match w.stage with
    | .hashing (e :: todo) problems =>
      match job.target.get w.store e.key with
      | some c =>
        some { w with
          log := .readBack e.key (hash c) :: w.log
          -- a wrong size with the right checksum is only noted
          stage := .hashing todo (if hash c = e.sum then problems else problems + 1) }
      | none => some (w.to (.hashing todo (problems + 1)))
    | _ => none
  | .unreadable =>
    match w.stage with
    | .hashing (_ :: todo) problems => some (w.to (.hashing todo (problems + 1)))
    | _ => none
  | _ => none

/-- One operation of `DeleteSource`. -/
def World.deleteStep (w : World C S) : Action C S → Option (World C S)
  | .delete =>
    match w.stage with
    | .deleting (e :: todo) n =>
      some { w with store := job.src.remove w.store e.key, stage := .deleting todo (n + 1) }
    | _ => none
  | .deleteFailed gone =>
    match w.stage with
    | .deleting (e :: _) n =>
      some { w with
        store := job.src.removeFailed w.store e.key gone
        stage := .failed (.partiallyDeleted n) }
    | _ => none
  | _ => none

/-- From one phase to the next. -/
def World.onNext (w : World C S) : Option (World C S) :=
  match w.stage with
  | .copying [] => some (w.to .presence)
  | .hashing [] problems =>
    let report : Report := ⟨job.req.verifyMode, w.entries.length, problems⟩
    some { w with
      log := .verified report :: w.log
      stage := afterVerify job.req report w.entries }
  | .deleting [] _ => some (w.to .done)
  | _ => none

/-- `SwitchConfig` succeeds. -/
def World.onSwitch (w : World C S) : Option (World C S) :=
  match w.stage with
  | .switching report =>
    some { w with
      log := .switched :: w.log
      stage := afterSwitch job.req report true w.entries }
  | _ => none

def World.step (w : World C S) (a : Action C S) : Option (World C S) :=
  match a with
  | .live k c => some { w with store := job.src.put w.store k c }
  | .cancel => w.onCancel
  | .error => w.onError
  | .list _ | .hash | .create | .load _ | .noManifest => w.manifestStep hash size job a
  | .probe | .read | .write | .writeFailed _ | .remove | .removeFailed _ =>
    w.copyStep hash size job a
  | .present _ _ | .check | .unreadable => w.verifyStep hash job a
  | .switch => w.onSwitch job
  | .delete | .deleteFailed _ => w.deleteStep job a
  | .next => w.onNext job

end Run

end Dylaris.Migration
