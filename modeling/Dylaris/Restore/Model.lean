import Dylaris.Library.Machine
import Dylaris.Library.Shelf
import Dylaris.Restore.Tree

/-!
# A whole-server restore and the cleanup

The machine of one storage root, seen from one server: the directories in it, the restore of the
server that may be running, and the cleanup that walks the root beside it.  A step of `RunRestore` is
one operation on the disk with the readings that decide on it, so the process can die before and after
every operation; what an operation came to, and what a reading said, is in the label.

* `os.Rename` needs its source and refuses a name that is taken; `os.RemoveAll` may stop part-way.
* A reading that fails — `os.Stat`, `os.Lstat` — is taken by the code for "there is nothing", and a
  label can make it fail when there is something.
* The clock can be set to any time.  A directory's modification time is what `cleanupRemoves` goes by:
  making and removing entries moves it, renaming the directory itself does not.
* Archives come from a reader that can fail anywhere.  The checksum passes exactly when what was read
  is the archive that was written.
-/

set_option autoImplicit false

namespace Dylaris.Restore

open Machine

/-- One restore command: the server it is for, where the storage root is, and what the archive it
names was written with. -/
structure Config where
  uuid : String
  isUUID : isServerUUID uuid = true
  base : Path
  archive : List Entry

namespace Config

def stage (cfg : Config) (k : Nat) : String := stageName cfg.uuid k

def stagePath (cfg : Config) (k : Nat) : Path := cfg.base ++ [cfg.stage k]

def stash (cfg : Config) (t : Int) : String := stashName cfg.uuid t

end Config

/-! ## The state -/

structure Dir where
  tree : Tree
  mtime : Int

/-- The stash of a restore: the time its name is made from, and whether the server's directory was
moved there. -/
structure Stash where
  time : Int
  moved : Bool
deriving DecidableEq, Repr

/-- What is done before the first entry is unpacked, in order. -/
inductive Opening
  | url | stop | download | gunzip | stage
deriving DecidableEq, Repr

/-- The operation a restore does next. -/
inductive Phase
  | opening (o : Opening)
  | measuring
  | extracting (x : Extraction)
  /-- The tar has ended; the rest of the stream is read for its checksum. -/
  | draining (x : Extraction)
  | checking (extracted : Nat)
  | stashing
  | swapping (st : Stash)
  | rollingBack (st : Stash) (message : String)
  /-- `keepStash`, with the entries still to be carried; then the restore fails with a message, or
  goes on. -/
  | keeping (st : Stash) (todo : List String) (ending : Option String)
  /-- `stageCleanup`, and the report of the failure. -/
  | discarding (message : String)
  | swapped (st : Stash)
  | purging (st : Stash)
  /-- `carryArchivesAcrossSwap`, before it drops the restored copy of the next entry. -/
  | carrying (st : Stash) (todo : List String)
  /-- `carryArchivesAcrossSwap`, before it moves the live entry. -/
  | moving (st : Stash) (name : String) (rest : List String)
  | finishing
deriving DecidableEq, Repr

/-- A restore that is running; `random` is the number in the name of its stage. -/
structure Run where
  random : Nat
  phase : Phase
deriving DecidableEq, Repr

inductive Status
  | failed | success
deriving DecidableEq, Repr

/-- What `reportRestore` publishes. -/
structure Report where
  status : Status
  message : String
deriving DecidableEq, Repr

/-- The node as far as its restores go. -/
structure State where
  dirs : List (String × Dir)
  now : Int
  /-- The server has been deleted on this node. -/
  deleted : Bool
  ownStages : List String
  /-- The stashes a goroutine of this process is still removing. -/
  reaping : List Int
  run : Option Run
  reports : List Report

namespace State

def dir (s : State) (n : String) : Option Dir := Shelf.get s.dirs n

def goto (s : State) (r : Run) (p : Phase) : State := { s with run := some { r with phase := p } }

/-- The restore fails: the stage is removed next. -/
def fail (s : State) (r : Run) (message : String) : State := s.goto r (.discarding message)

def report (s : State) (status : Status) (message : String) : State :=
  { s with reports := s.reports ++ [⟨status, message⟩] }

/-- The restore returns. -/
def finish (s : State) (cfg : Config) (r : Run) (status : Status) (message : String) : State :=
  { s.report status message with run := none, ownStages := s.ownStages.erase (cfg.stage r.random) }

/-- `os.Rename` of a directory of the storage root. -/
def rename (s : State) (a b : String) : Option State :=
  (Shelf.rename s.dirs a b).map fun dirs ↦ { s with dirs := dirs }

/-- `os.RemoveAll` of a directory of the storage root. -/
def removeAll (s : State) (n : String) : Removal → State
  | .complete => { s with dirs := Shelf.remove s.dirs n }
  | .partly gone =>
    { s with dirs := Shelf.modify s.dirs n fun d ↦ ⟨d.tree.without gone, s.now⟩ }

/-- A directory of the storage root has changed. -/
def setDir (s : State) (n : String) (d : Dir) : State :=
  { s with dirs := Shelf.modify s.dirs n fun _ ↦ d }

/-- `os.RemoveAll` of an entry of a directory of the storage root. -/
def removeEntry (s : State) (n name : String) (left : Removal) : State :=
  { s with dirs := Shelf.modify s.dirs n fun d ↦
      ⟨d.tree.removeEntry name left, if (d.tree [name]).isSome then s.now else d.mtime⟩ }

/-- `os.Rename` of an entry from the tree `source` into a directory of the storage root. -/
def graft (s : State) (n name : String) (source : Tree) : State :=
  { s with dirs := Shelf.modify s.dirs n fun d ↦ ⟨d.tree.graft name source, s.now⟩ }

end State

/-! ## `RunRestore` -/

inductive Made
  | ok
  | mkdirFailed (err : String)
  | chmodFailed (err : String) (left : Removal)
deriving DecidableEq, Repr

/-- `createStageDir`; one restore of a server runs at a time. -/
def start (cfg : Config) (s : State) (k : Nat) (m : Made) : Option State :=
  if s.run.isSome ∨ (s.dir (cfg.stage k)).isSome then none
  else
    let made : State := { s with dirs := Shelf.put s.dirs (cfg.stage k) ⟨Tree.empty, s.now⟩ }
    match m with
    | .mkdirFailed err => some (s.report .failed ("stage dir: " ++ err))
    | .chmodFailed err left =>
      some ((made.removeAll (cfg.stage k) left).report .failed
        ("stage dir: stage dir perms: " ++ err))
    | .ok => some { made with
        ownStages := cfg.stage k :: s.ownStages, run := some ⟨k, .opening .url⟩ }

def Opening.message : Opening → String
  | .url | .download => "download failed: "
  | .stop => "stop the server: "
  | .gunzip => "gzip open: "
  | .stage => "open stage: "

def Opening.next : Opening → Phase
  | .url => .opening .stop
  | .stop => .opening .download
  | .download => .opening .gunzip
  | .gunzip => .opening .stage
  | .stage => .measuring

def proceed (s : State) (r : Run) (err : Option String) : Option State :=
  match r.phase with
  | .opening o => match err with
    | some e => some (s.fail r (o.message ++ e))
    | none => some (s.goto r o.next)
  | _ => none

/-- `budget` is what the node's free space leaves to this restore. -/
def measured (s : State) (r : Run) (budget : Int) : Option State :=
  match r.phase with
  | .measuring => some (s.goto r (.extracting ⟨[], 0, 0, budget, [], 0⟩))
  | _ => none

/-- A stage after an entry, whose modification time moves when the entry brings a new name at the
top. -/
def Dir.unpacked (d : Dir) (now : Int) (p : Option Path) (t : Tree) : Dir :=
  let newTop := p.any fun p ↦ (d.tree (p.take 1)).isNone && (t (p.take 1)).isSome
  ⟨t, if newTop then now else d.mtime⟩

/-- An entry is unpacked into the stage. -/
def entry (cfg : Config) (s : State) (r : Run) (e : Entry) (f : Fault) : Option State :=
  match r.phase with
  | .extracting x =>
    (s.dir (cfg.stage r.random)).bind fun d ↦
      (extractEntry (cfg.stagePath r.random) x d.tree e f).map fun
        | .error message => s.fail r message
        | .ok (x', t) => (s.setDir (cfg.stage r.random)
            (d.unpacked s.now (entryPath (cfg.stagePath r.random) e) t)).goto r (.extracting x')
  | _ => none

def tarFailed (s : State) (r : Run) (err : String) : Option State :=
  match r.phase with
  | .extracting _ => some (s.fail r ("tar read: " ++ err))
  | _ => none

def eof (s : State) (r : Run) : Option State :=
  match r.phase with
  | .extracting x => some (s.goto r (.draining x))
  | _ => none

def checksum (cfg : Config) (s : State) (r : Run) (err : Option String) : Option State :=
  match r.phase with
  | .draining x => match err with
    | some e => some (s.fail r ("archive checksum: " ++ e))
    | none => if x.seen = cfg.archive then some (s.goto r (.checking x.extracted)) else none
  | _ => none

/-- `validate.IsSubServerName`: `^[a-zA-Z0-9\-_+]{1,50}$`. -/
def isSubServerName (cs : List Char) : Bool :=
  1 ≤ cs.length && cs.length ≤ 50 &&
    cs.all fun c ↦ c.isAlphanum || c = '-' || c = '_' || c = '+'

/-- The active sub-server, as the node wrote it into the server root. -/
def readActiveSubServer (t : Tree) : Option String :=
  match t [".active_server"] with
  | some (.file data) =>
    let text := (data.map fun b ↦ Char.ofNat b.toNat).dropWhile Char.isWhitespace
    let name := (text.reverse.dropWhile Char.isWhitespace).reverse
    if isSubServerName name then some (String.ofList name) else none
  | _ => none

def errRestoreMissingActive (active : String) : String :=
  "this backup does not contain the active sub-server \"" ++ active ++
    "\": switch to a sub-server that is in the backup first, then restore"

def errRestoreServerDeleted : String := "the server was deleted during the restore"

/-- The active sub-server that the restored tree would not have. -/
def missingActive (cfg : Config) (s : State) (r : Run) (readFails lstatFails : Bool) :
    Option String :=
  let active := if readFails then none
    else (s.dir cfg.uuid).bind fun d ↦ readActiveSubServer d.tree
  active.filter fun name ↦ lstatFails ||
    (s.dir (cfg.stage r.random)).elim true fun d ↦ d.tree [name] ≠ some .dir

/-- The last checks, with the server's disk still untouched. -/
def check (cfg : Config) (s : State) (r : Run) (readFails lstatFails : Bool) : Option State :=
  match r.phase with
  | .checking extracted =>
    if extracted = 0 then some (s.fail r "archive contained no regular files")
    else match missingActive cfg s r readFails lstatFails with
      | some active => some (s.fail r (errRestoreMissingActive active))
      | none =>
        if s.deleted then some (s.fail r errRestoreServerDeleted) else some (s.goto r .stashing)
  | _ => none

/-- The first rename: the server's directory is moved aside, if there is one. -/
def stash (cfg : Config) (s : State) (r : Run) (statFails : Bool) (err : Option String) :
    Option State :=
  match r.phase with
  | .stashing =>
    if statFails || (s.dir cfg.uuid).isNone then some (s.goto r (.swapping ⟨s.now, false⟩))
    else match err with
      | some e => some (s.fail r ("stash original: " ++ e))
      | none => (s.rename cfg.uuid (cfg.stash s.now)).map fun s ↦
          s.goto r (.swapping ⟨s.now, true⟩)
  | _ => none

/-- The second rename: the stage becomes the server's directory. -/
def swap (cfg : Config) (s : State) (r : Run) (err : Option String) : Option State :=
  match r.phase with
  | .swapping st => match err with
    | some e => some (s.goto r (.rollingBack st ("swap stage: " ++ e)))
    | none => (s.rename (cfg.stage r.random) cfg.uuid).map fun s ↦ s.goto r (.swapped st)
  | _ => none

/-- The stash is moved back. -/
def rollBack (cfg : Config) (s : State) (r : Run) (err : Option String) : Option State :=
  match r.phase with
  | .rollingBack st message => match err with
    | some _ => some (s.goto r (.keeping st nodeOwnedRootEntries (some message)))
    | none => (s.rename (cfg.stash st.time) cfg.uuid).map fun s ↦ s.fail r message
  | _ => none

/-- What follows `keepStash`. -/
def afterKeeping : Option String → Phase
  | some message => .discarding message
  | none => .finishing

/-- `keepStash`. -/
def keep (cfg : Config) (s : State) (r : Run) (lstatFails : Bool) (err : Option String) :
    Option State :=
  match r.phase with
  | .keeping st _ ending =>
    if lstatFails || (s.dir (cfg.stash st.time)).isNone then some (s.goto r (afterKeeping ending))
    else match err with
      | some _ => some (s.goto r (afterKeeping ending))
      | none => (s.rename (cfg.stash st.time) (keptName (cfg.stash st.time))).map fun s ↦
          s.goto r (afterKeeping ending)
  | _ => none

def discard (cfg : Config) (s : State) (r : Run) (left : Removal) : Option State :=
  match r.phase with
  | .discarding message =>
    some ((s.removeAll (cfg.stage r.random) left).finish cfg r .failed message)
  | _ => none

/-- The swap is done: a server that was deleted meanwhile is removed again; otherwise the node's
entries are carried over, unless nothing was stashed. -/
def carryStart (cfg : Config) (s : State) (r : Run) (lstatFails : Bool) : Option State :=
  match r.phase with
  | .swapped st =>
    if s.deleted then some (s.goto r (.purging st))
    else if lstatFails || (s.dir (cfg.stash st.time)).isNone then some (s.goto r (.carrying st []))
    else some (s.goto r (.carrying st nodeOwnedRootEntries))
  | _ => none

/-- The restored copy of an entry goes, whether or not there is a live one to carry. -/
def dropCopy (cfg : Config) (s : State) (r : Run) (left : Removal) : Option State :=
  match r.phase with
  | .carrying st (name :: rest) =>
    match left with
    | .complete => some ((s.removeEntry cfg.uuid name left).goto r (.moving st name rest))
    | .partly _ => some ((s.removeEntry cfg.uuid name left).goto r (.keeping st (name :: rest) none))
  | _ => none

/-- The live entry is moved out of the stash. -/
def move (cfg : Config) (s : State) (r : Run) (lstatFails : Bool) (err : Option String) :
    Option State :=
  match r.phase with
  | .moving st name rest =>
    match (s.dir (cfg.stash st.time)).filter fun d ↦ !lstatFails && (d.tree [name]).isSome with
    | none => some (s.goto r (.carrying st rest))
    | some live => match err with
      | some _ => some (s.goto r (.keeping st (name :: rest) none))
      | none =>
        if (s.dir cfg.uuid).isNone then none
        else some (((s.graft cfg.uuid name live.tree).removeEntry (cfg.stash st.time) name
          .complete).goto r (.carrying st rest))
  | _ => none

/-- Everything is carried: the stash is removed in the background. -/
def carried (s : State) (r : Run) : Option State :=
  match r.phase with
  | .carrying st [] => some ({ s with reaping := st.time :: s.reaping }.goto r .finishing)
  | _ => none

def purge (cfg : Config) (s : State) (r : Run) (target stashed : Removal) : Option State :=
  match r.phase with
  | .purging st =>
    some (((s.removeAll cfg.uuid target).removeAll (cfg.stash st.time) stashed).finish cfg r .failed
      errRestoreServerDeleted)
  | _ => none

def succeed (cfg : Config) (s : State) (r : Run) : Option State :=
  match r.phase with
  | .finishing => some (s.finish cfg r .success "")
  | _ => none

/-! ## The cleanup -/

/-- The walk of `runRestoreCleanup` comes to a directory of the storage root. -/
def cleanup (s : State) (n : String) (shared : Bool) (left : Removal) : Option State :=
  (s.dir n).bind fun d ↦
    if cleanupRemoves s.ownStages shared s.now d.mtime n then some (s.removeAll n left) else none

/-- The walk comes to a directory one level deeper; it does not go into those it looks at. -/
def cleanupWithin (s : State) (n m : String) (shared : Bool) (mtime : Int) (left : Removal) :
    Option State :=
  (s.dir n).bind fun d ↦
    if cleanupMatches n = false ∧ d.tree [m] = some .dir ∧
        cleanupRemoves s.ownStages shared s.now mtime m then
      some (s.removeEntry n m left)
    else none

/-- The goroutine of a restore that has succeeded removes its stash. -/
def reap (cfg : Config) (s : State) (t : Int) (left : Removal) : Option State :=
  if t ∈ s.reaping then
    some { s.removeAll (cfg.stash t) left with reaping := s.reaping.erase t }
  else none

/-! ## The machine -/

/-- What can happen on the node. -/
inductive Label
  | clock (t : Int)
  /-- A command that is refused before anything is touched, such as a redelivery to a restore that
  is still running. -/
  | refuse (reason : String)
  | start (k : Nat) (m : Made)
  | proceed (err : Option String)
  | measured (budget : Int)
  | entry (e : Entry) (f : Fault)
  | tarFailed (err : String)
  | eof
  | checksum (err : Option String)
  | check (readFails lstatFails : Bool)
  | stash (statFails : Bool) (err : Option String)
  | swap (err : Option String)
  | rollBack (err : Option String)
  | keep (lstatFails : Bool) (err : Option String)
  | discard (left : Removal)
  | carryStart (lstatFails : Bool)
  | dropCopy (left : Removal)
  | move (lstatFails : Bool) (err : Option String)
  | carried
  | purge (target stashed : Removal)
  | succeed
  | reap (t : Int) (left : Removal)
  | cleanup (n : String) (shared : Bool) (left : Removal)
  | cleanupWithin (n m : String) (shared : Bool) (mtime : Int) (left : Removal)
  | die
  | deleteServer
deriving DecidableEq, Repr

def step (cfg : Config) (s : State) : Label → Option State
  | .clock t => some { s with now := t }
  | .refuse reason => some (s.report .failed reason)
  | .start k m => start cfg s k m
  | .proceed err => s.run.bind fun r ↦ proceed s r err
  | .measured budget => s.run.bind fun r ↦ measured s r budget
  | .entry e f => s.run.bind fun r ↦ entry cfg s r e f
  | .tarFailed err => s.run.bind fun r ↦ tarFailed s r err
  | .eof => s.run.bind fun r ↦ eof s r
  | .checksum err => s.run.bind fun r ↦ checksum cfg s r err
  | .check readFails lstatFails => s.run.bind fun r ↦ check cfg s r readFails lstatFails
  | .stash statFails err => s.run.bind fun r ↦ stash cfg s r statFails err
  | .swap err => s.run.bind fun r ↦ swap cfg s r err
  | .rollBack err => s.run.bind fun r ↦ rollBack cfg s r err
  | .keep lstatFails err => s.run.bind fun r ↦ keep cfg s r lstatFails err
  | .discard left => s.run.bind fun r ↦ discard cfg s r left
  | .carryStart lstatFails => s.run.bind fun r ↦ carryStart cfg s r lstatFails
  | .dropCopy left => s.run.bind fun r ↦ dropCopy cfg s r left
  | .move lstatFails err => s.run.bind fun r ↦ move cfg s r lstatFails err
  | .carried => s.run.bind fun r ↦ carried s r
  | .purge target stashed => s.run.bind fun r ↦ purge cfg s r target stashed
  | .succeed => s.run.bind fun r ↦ succeed cfg s r
  | .reap t left => reap cfg s t left
  | .cleanup n shared left => cleanup s n shared left
  | .cleanupWithin n m shared mtime left => cleanupWithin s n m shared mtime left
  -- No restore survives the process, and neither do its background removals.
  | .die => some { s with run := none, ownStages := [], reaping := [] }
  | .deleteServer => some { s with deleted := true, dirs := Shelf.remove s.dirs cfg.uuid }

end Dylaris.Restore
