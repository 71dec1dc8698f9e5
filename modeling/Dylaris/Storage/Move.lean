import Dylaris.Library.Machine
import Dylaris.Library.Shelf
import Mathlib.Algebra.GroupWithZero.Nat

/-!
# Moving a server to another disk while its files are written

`node/storage.go`: a file writer holds the server (`holdWriter`, or `tryHoldWriter`, which does not
wait for a move), looks up the disk the server is on (`GetServerPath`), writes there and lets go.  A
move (`MigrateServerPath`) fences the server, copies its tree, points the storage key at the copy and
deletes the original.

The model is one server on one node: its storage key, its tree on every disk, the shared counter and
channel under `movingMu`, any number of writers, and one move at a time, which `commandsInFlight` sees
to.  Every command to Redis, every look at the disks, every file that is copied and every section under
`movingMu` is a step of its own.  What the disks and Redis answer is in the labels.
-/

set_option autoImplicit false

namespace Dylaris.Storage

open Machine

/-! ## Trees -/

/-- The files of a directory tree, under their relative paths. -/
abbrev Files := List (String × List UInt8)

/-- What a file of a tree holds; a tree that is not there has no files. -/
def content (tree : Option Files) (f : String) : Option (List UInt8) := tree.bind (Shelf.get · f)

def dirSize (tree : Option Files) : Nat := (tree.getD []).foldl (fun n file ↦ n + file.2.length) 0

/-- A file gets a content, or goes; its directory is made where it is missing. -/
def writeFile (tree : Option Files) (f : String) : Option (List UInt8) → Option Files
  | some c => some (Shelf.put (tree.getD []) f c)
  | none => tree.map (Shelf.remove · f)

/-- `os.RemoveAll`: the whole tree goes, or all but some files, and then it reports an error. -/
def removeAll (left : Option (List String)) (tree : Option Files) : Option Files :=
  match left with
  | none => none
  | some names => tree.map (·.filter fun file ↦ names.contains file.1)

/-! ## The node -/

/-- The storage paths of the node: `NewStorageManager` leaves at least one, and all are absolute. -/
structure Disks where
  first : String
  rest : List String
  absolute : "" ∉ first :: rest

def Disks.paths (d : Disks) : List String := d.first :: d.rest

/-- Where a writer is. -/
inductive Writer
  /-- It holds the server. -/
  | held
  /-- `GetServerPath` waits for a move. -/
  | waiting (ch : Nat)
  /-- `GetServerPath` has found no move running, or has waited for it. -/
  | passed
  /-- `GetServerPath` got no path from Redis, and scans; `keyed` is whether it got a key. -/
  | scanning (keyed : Bool)
  /-- `GetServerPath` writes back the path that it has found. -/
  | recording (path : String)
  /-- It knows the server's path. -/
  | ready (path : String)
  | released
  /-- `tryHoldWriter` has reported false. -/
  | refused
deriving DecidableEq, Repr

/-- Its hold is outstanding. -/
def Writer.holds : Writer → Bool
  | .released | .refused => false
  | _ => true

/-- Where the move is.  `src` and `dst` are `currentPath` and `targetPath`. -/
inductive Move
  /-- `resolveMigration` got no path from Redis, and scans. -/
  | scanning (dst : String)
  | fencing (src dst : String)
  | clearing (src dst : String)
  | checking (src dst : String)
  | opening (src dst : String) (srcSize : Nat)
  /-- `copyTree`, with the files it has yet to copy. -/
  | copying (src dst : String) (srcSize : Nat) (todo : List String)
  | recording (src dst : String)
  | deleting (src dst : String)
  /-- It has ended, and releases the fence. -/
  | releasing
  /-- It has taken the channel from the map, and closes it. -/
  | closing
deriving DecidableEq, Repr

/-- What one server has on the node. -/
structure Node where
  /-- The storage key. -/
  key : Option String
  /-- The server's directory on each path. -/
  trees : String → Option Files
  /-- `sm.writers` and `sm.moving` of the server. -/
  writers : Nat
  moving : Option Nat
  /-- How many channels have been made, and which of them is still open. -/
  channels : Nat
  openCh : Option Nat
  parties : List Writer
  move : Option Move
  /-- What the last write of each file made of it, where that write reported success. -/
  reported : String → Option (Option (List UInt8))

/-- A node on which nothing runs, with any key and any trees. -/
def Node.start (key : Option String) (trees : String → Option Files) : Node where
  key := key
  trees := trees
  writers := 0
  moving := none
  channels := 0
  openCh := none
  parties := []
  move := none
  reported := fun _ ↦ none

/-- A step of a writer or of the move. -/
inductive Label
  /-- `holdWriterUnlessMoving`. -/
  | hold (refuseMoving : Bool)
  /-- `GetServerPath`: `moveInProgress`, the wait, the `GET`, the scan, and the `SET`. -/
  | lookup (i : Nat)
  | resume (i : Nat)
  | getKey (i : Nat) (ok : Bool)
  | scan (i : Nat)
  | setKey (i : Nat) (outcome : Outcome)
  /-- A write of a file, which leaves it as `result`. -/
  | write (i : Nat) (f : String) (result : Option (List UInt8)) (ok : Bool)
  | release (i : Nat)
  /-- `resolveMigration`: the `GET`, and the scan. -/
  | resolve (target : String) (ok : Bool)
  | resolveScan
  | fence
  /-- `RemoveAll(dstDir)` before the copy. -/
  | clear (left : Option (List String))
  | checkSpace (free : Nat)
  /-- `copyTree`: the walk begins, copies a file, fails. -/
  | openSource
  | copyFile
  | copyFails (left : Option (List String))
  /-- The comparison of the sizes, with the `RemoveAll` where it fails. -/
  | verify (left : Option (List String))
  | recordTarget (outcome : Outcome)
  | removeSource (left : Option (List String))
  /-- The two halves of the release. -/
  | unfence
  | closeCh
deriving DecidableEq, Repr

namespace Node

variable (d : Disks) (s : Node)

/-- The path the key names, if it is one of the node's. -/
def named : Option String := s.key.filter fun k ↦ d.paths.contains k

def isDir (p : String) : Bool := (s.trees p).isSome

/-- What a `GET` of the key gives; an empty key is none. -/
def got (ok : Bool) : Option String := if ok then s.key.filter (· ≠ "") else none

/-- What a scan of the paths finds, and how many. -/
def found : Option String := d.paths.find? s.isDir

def copies : Nat := d.paths.countP s.isDir

def setTree (p : String) (tree : Option Files) : Node :=
  { s with trees := Function.update s.trees p tree }

def setWriter (i : Nat) (w : Writer) : Node := { s with parties := s.parties.set i w }

def setMove (m : Move) : Node := { s with move := some m }

/-! ### The writers -/

/-- `holdWriterUnlessMoving`. -/
def hold (refuseMoving : Bool) : Node :=
  if refuseMoving && s.moving.isSome then { s with parties := s.parties ++ [.refused] }
  else { s with writers := s.writers + 1, parties := s.parties ++ [.held] }

/-- `moveInProgress`. -/
def lookup (i : Nat) : Node :=
  s.setWriter i (match s.moving with
    | some ch => .waiting ch
    | none => .passed)

/-- The lookup in Redis. -/
def getKey (i : Nat) (ok : Bool) : Node :=
  s.setWriter i (match s.got ok with
    | none => .scanning false
    | some val => if d.paths.contains val then .ready val else .scanning true)

/-- The scan of the disks. -/
def scan (i : Nat) (keyed : Bool) : Node :=
  s.setWriter i (match s.found d with
    | some p => if !keyed && s.copies d = 1 then .recording p else .ready p
    | none => .ready d.first)

/-- `setRedisPath`, whose error the lookup does not look at. -/
def setKey (i : Nat) (path : String) (outcome : Outcome) : Node :=
  { s.setWriter i (.ready path) with key := if outcome.applied then some path else s.key }

/-- A write of a file below a path. -/
def write (path f : String) (result : Option (List UInt8)) (ok : Bool) : Node :=
  { s.setTree path (writeFile (s.trees path) f result) with
    reported := Function.update s.reported f (if ok then some result else none) }

/-- The func that `holdWriter` returns. -/
def release (i : Nat) : Node := { s.setWriter i .released with writers := s.writers - 1 }

/-! ### The move -/

/-- `resolveMigration`, once it has a current path.  A move that is refused has done nothing. -/
def resolved (src dst : String) : Node :=
  { s with move := if src = dst then none else some (.fencing src dst) }

/-- `resolveMigration` up to its scan. -/
def resolve (target : String) (ok : Bool) : Node :=
  if d.paths.contains target then
    match (s.got ok).filter fun val ↦ d.paths.contains val with
    | some val => s.resolved val target
    | none => s.setMove (.scanning target)
  else s

/-- The scan of `resolveMigration`, and its look at the target. -/
def resolveScan (target : String) : Node :=
  match s.found d with
  | none => { s with move := none }
  | some src => if src ≠ target ∧ s.isDir target then { s with move := none } else s.resolved src target

/-- `fenceMove`. -/
def fence (src dst : String) : Node :=
  if 0 < s.writers then { s with move := none }
  else { s with
    moving := some s.channels
    openCh := some s.channels
    channels := s.channels + 1
    move := some (.clearing src dst) }

def clear (src dst : String) (left : Option (List String)) : Node :=
  (s.setTree dst (removeAll left (s.trees dst))).setMove
    (if left = none then .checking src dst else .releasing)

/-- `checkMigrationSpace`. -/
def checkSpace (src dst : String) (free : Nat) : Node :=
  let srcSize := dirSize (s.trees src)
  s.setMove (if 0 < srcSize ∧ free < (srcSize + 512 * 1024 * 1024) % 2 ^ 64 then .releasing
    else .opening src dst srcSize)

/-- The walk reads the source's directory and makes the target's. -/
def openSource (src dst : String) (srcSize : Nat) (files : Files) : Node :=
  (s.setTree dst (some [])).setMove (.copying src dst srcSize (files.map Prod.fst))

/-- The walk comes to a file. -/
def copyFile (src dst : String) (srcSize : Nat) (f : String) (todo : List String) : Option Node :=
  (content (s.trees src) f).map fun c ↦
    (s.setTree dst (writeFile (s.trees dst) f (some c))).setMove (.copying src dst srcSize todo)

/-- The copy is given up. -/
def discard (dst : String) (left : Option (List String)) : Node :=
  (s.setTree dst (removeAll left (s.trees dst))).setMove .releasing

def verify (src dst : String) (srcSize : Nat) (left : Option (List String)) : Node :=
  if 0 < srcSize ∧ dirSize (s.trees dst) < srcSize * 9 / 10 then s.discard dst left
  else s.setMove (.recording src dst)

def recordTarget (src dst : String) (outcome : Outcome) : Node :=
  { s with
    key := if outcome.applied then some dst else s.key
    move := some (if outcome = .ok then .deleting src dst else .releasing) }

def removeSource (src : String) (left : Option (List String)) : Node :=
  (s.setTree src (removeAll left (s.trees src))).setMove .releasing

/-! ### A step -/

def step : Label → Option Node
  | .hold refuseMoving => some (s.hold refuseMoving)
  | .lookup i => match s.parties[i]? with
    | some .held | some (.ready _) => some (s.lookup i)
    | _ => none
  | .resume i => match s.parties[i]? with
    | some (.waiting ch) => if s.openCh = some ch then none else some (s.setWriter i .passed)
    | _ => none
  | .getKey i ok => match s.parties[i]? with
    | some .passed => some (s.getKey d i ok)
    | _ => none
  | .scan i => match s.parties[i]? with
    | some (.scanning keyed) => some (s.scan d i keyed)
    | _ => none
  | .setKey i outcome => match s.parties[i]? with
    | some (.recording path) => some (s.setKey i path outcome)
    | _ => none
  | .write i f result ok => match s.parties[i]? with
    | some (.ready path) => some (s.write path f result ok)
    | _ => none
  | .release i => match s.parties[i]? with
    | some .held | some (.ready _) => some (s.release i)
    | _ => none
  | .resolve target ok => match s.move with
    | none => some (s.resolve d target ok)
    | _ => none
  | .resolveScan => match s.move with
    | some (.scanning target) => some (s.resolveScan d target)
    | _ => none
  | .fence => match s.move with
    | some (.fencing src dst) => some (s.fence src dst)
    | _ => none
  | .clear left => match s.move with
    | some (.clearing src dst) => some (s.clear src dst left)
    | _ => none
  | .checkSpace free => match s.move with
    | some (.checking src dst) => some (s.checkSpace src dst free)
    | _ => none
  | .openSource => match s.move with
    | some (.opening src dst srcSize) => (s.trees src).map (s.openSource src dst srcSize)
    | _ => none
  | .copyFile => match s.move with
    | some (.copying src dst srcSize (f :: todo)) => s.copyFile src dst srcSize f todo
    | _ => none
  | .copyFails left => match s.move with
    | some (.opening _ dst _) | some (.copying _ dst _ _) => some (s.discard dst left)
    | _ => none
  | .verify left => match s.move with
    | some (.copying src dst srcSize []) => some (s.verify src dst srcSize left)
    | _ => none
  | .recordTarget outcome => match s.move with
    | some (.recording src dst) => some (s.recordTarget src dst outcome)
    | _ => none
  | .removeSource left => match s.move with
    | some (.deleting src _) => some (s.removeSource src left)
    | _ => none
  | .unfence => match s.move with
    | some .releasing => some { s with moving := none, move := some .closing }
    | _ => none
  | .closeCh => match s.move with
    | some .closing => some { s with openCh := none, move := none }
    | _ => none

end Node

/-! ## What a step can do -/

/-- The steps of the node, with what each of them has found. -/
inductive Step (d : Disks) (s : Node) : Label → Node → Prop
  | hold (refuseMoving : Bool) : Step d s (.hold refuseMoving) (s.hold refuseMoving)
  | lookup {i : Nat} {w : Writer} (hw : s.parties[i]? = some w) (hholds : w.holds = true) :
      Step d s (.lookup i) (s.lookup i)
  | resume {i ch : Nat} (hw : s.parties[i]? = some (.waiting ch)) (hopen : s.openCh ≠ some ch) :
      Step d s (.resume i) (s.setWriter i .passed)
  | getKey {i : Nat} (hw : s.parties[i]? = some .passed) (ok : Bool) :
      Step d s (.getKey i ok) (s.getKey d i ok)
  | scan {i : Nat} {keyed : Bool} (hw : s.parties[i]? = some (.scanning keyed)) :
      Step d s (.scan i) (s.scan d i keyed)
  | setKey {i : Nat} {path : String} (hw : s.parties[i]? = some (.recording path))
      (outcome : Outcome) : Step d s (.setKey i outcome) (s.setKey i path outcome)
  | write {i : Nat} {path : String} (hw : s.parties[i]? = some (.ready path)) (f : String)
      (result : Option (List UInt8)) (ok : Bool) :
      Step d s (.write i f result ok) (s.write path f result ok)
  | release {i : Nat} {w : Writer} (hw : s.parties[i]? = some w) (hholds : w.holds = true) :
      Step d s (.release i) (s.release i)
  | resolve (hmove : s.move = none) (target : String) (ok : Bool) :
      Step d s (.resolve target ok) (s.resolve d target ok)
  | resolveScan {target : String} (hmove : s.move = some (.scanning target)) :
      Step d s .resolveScan (s.resolveScan d target)
  | fence {src dst : String} (hmove : s.move = some (.fencing src dst)) :
      Step d s .fence (s.fence src dst)
  | clear {src dst : String} (hmove : s.move = some (.clearing src dst))
      (left : Option (List String)) : Step d s (.clear left) (s.clear src dst left)
  | checkSpace {src dst : String} (hmove : s.move = some (.checking src dst)) (free : Nat) :
      Step d s (.checkSpace free) (s.checkSpace src dst free)
  | openSource {src dst : String} {srcSize : Nat} {files : Files}
      (hmove : s.move = some (.opening src dst srcSize)) (hfiles : s.trees src = some files) :
      Step d s .openSource (s.openSource src dst srcSize files)
  | copyFile {src dst f : String} {srcSize : Nat} {todo : List String} {c : List UInt8}
      (hmove : s.move = some (.copying src dst srcSize (f :: todo)))
      (hc : content (s.trees src) f = some c) :
      Step d s .copyFile ((s.setTree dst (writeFile (s.trees dst) f (some c))).setMove
        (.copying src dst srcSize todo))
  | openFails {src dst : String} {srcSize : Nat} (hmove : s.move = some (.opening src dst srcSize))
      (left : Option (List String)) : Step d s (.copyFails left) (s.discard dst left)
  | copyFails {src dst : String} {srcSize : Nat} {todo : List String}
      (hmove : s.move = some (.copying src dst srcSize todo)) (left : Option (List String)) :
      Step d s (.copyFails left) (s.discard dst left)
  | verify {src dst : String} {srcSize : Nat} (hmove : s.move = some (.copying src dst srcSize []))
      (left : Option (List String)) : Step d s (.verify left) (s.verify src dst srcSize left)
  | recordTarget {src dst : String} (hmove : s.move = some (.recording src dst)) (outcome : Outcome) :
      Step d s (.recordTarget outcome) (s.recordTarget src dst outcome)
  | removeSource {src dst : String} (hmove : s.move = some (.deleting src dst))
      (left : Option (List String)) : Step d s (.removeSource left) (s.removeSource src left)
  | unfence (hmove : s.move = some .releasing) :
      Step d s .unfence { s with moving := none, move := some .closing }
  | closeCh (hmove : s.move = some .closing) :
      Step d s .closeCh { s with openCh := none, move := none }

theorem step_of_step {d : Disks} {s s' : Node} {a : Label} (h : s.step d a = some s') :
    Step d s a s' := by
  cases a with rw [Node.step] at h
  | hold => exact Option.some_inj.mp h ▸ .hold _
  | lookup => split at h <;> cases h <;> exact .lookup ‹_› rfl
  | release => split at h <;> cases h <;> exact .release ‹_› rfl
  | resume =>
    split at h
    next hw =>
      obtain ⟨hopen, ⟨⟩⟩ := Option.ite_none_left_eq_some.mp h
      exact .resume hw hopen
    next => cases h
  | openSource =>
    split at h
    next hmove =>
      obtain ⟨files, hfiles, rfl⟩ := Option.map_eq_some_iff.mp h
      exact .openSource hmove hfiles
    next => cases h
  | copyFile =>
    split at h
    next hmove =>
      obtain ⟨c, hc, rfl⟩ := Option.map_eq_some_iff.mp h
      exact .copyFile hmove hc
    next => cases h
  | copyFails left =>
    split at h <;> cases h
    · exact .openFails ‹_› left
    · exact .copyFails ‹_› left
  | _ =>
    split at h <;> cases h
    constructor <;> assumption

/-! ## Entries that are passed over, and deaths

The walk of the copy passes over an entry that it cannot `lstat`, or that is neither a directory nor a
file nor a link to one (`rootEntryInfo`).  The node may die at any moment. -/

/-- An event of the node. -/
inductive Event
  | act (a : Label)
  /-- The walk of the copy passes over the next entry. -/
  | passOver
  /-- The node dies, and starts again; `left` is left of the directory that was being changed. -/
  | die (left : Option Files)
deriving DecidableEq, Repr

/-- The directory that the move is changing. -/
def Move.changing : Move → Option String
  | .clearing _ dst | .opening _ dst _ | .copying _ dst _ _ => some dst
  | .deleting src _ => some src
  | _ => none

/-- The key and the disks are all that is left of a node that dies. -/
def Node.die (s : Node) (left : Option Files) : Node :=
  { Node.start s.key (match s.move.bind Move.changing with
      | some p => Function.update s.trees p left
      | none => s.trees) with reported := s.reported }

/-- A step, an entry passed over, or a death. -/
def Node.event (d : Disks) (s : Node) : Event → Option Node
  | .act a => s.step d a
  | .passOver => match s.move with
    | some (.copying src dst srcSize (_ :: todo)) => some (s.setMove (.copying src dst srcSize todo))
    | _ => none
  | .die left => some (s.die left)

end Dylaris.Storage
