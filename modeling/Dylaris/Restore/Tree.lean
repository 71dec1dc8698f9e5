import Dylaris.Restore.Names

/-!
# Directory trees, and unpacking an archive into one

A directory is a partial map from the paths below it to what is there: a directory or a file with its
bytes.  A second name of a file is a second path with the same bytes: `createIn` unlinks a file of
several names before it writes, so no write goes through to another name.  Modes and owners are left
out.

`extractAll` is the loop of `RunRestore` over the entries of an archive with nothing going wrong, and
so what *the restored tree* means; `Action.placeWith` is one entry of that loop with what can go wrong
in it.  Two of the faults do not end the restore: the error of `f.Close()` is dropped, and a link that
cannot be made is skipped.
-/

set_option autoImplicit false

namespace Dylaris.Restore

abbrev Path := List String

inductive Node
  | dir
  | file (data : List UInt8)
deriving DecidableEq, Repr

def Node.isFile : Node → Bool
  | .dir => false
  | .file _ => true

abbrev Tree := Path → Option Node

namespace Tree

def empty : Tree := fun _ ↦ none

/-- `MkdirAll`: refused when a component of the path is a file. -/
def mkdirAll (t : Tree) (p : Path) : Option Tree :=
  if p.inits.any fun q ↦ (t q).any Node.isFile then none
  else some fun q ↦ if q ≠ [] ∧ q <+: p then some .dir else t q

def write (t : Tree) (p : Path) (data : List UInt8) : Tree :=
  fun q ↦ if q = p then some (.file data) else t q

/-- `createIn` and the copy into the file: the parents are made, and a directory is not written
over. -/
def createIn (t : Tree) (p : Path) (data : List UInt8) : Option Tree :=
  (t.mkdirAll p.dropLast).bind fun t ↦ if t p = some .dir then none else some (t.write p data)

/-- `mkdirParentIn`, whose failure skips the link. -/
def mkdirParentIn (t : Tree) (p : Path) : Tree := (t.mkdirAll p.dropLast).getD t

/-- The second name of a file, where it can be made. -/
def link (t : Tree) (old new : Path) : Tree :=
  match (t.mkdirParentIn new) old, (t.mkdirParentIn new) new with
  | some (.file data), none => (t.mkdirParentIn new).write new data
  | _, _ => t.mkdirParentIn new

/-- Without some of its paths. -/
def without (t : Tree) (gone : List Path) : Tree := fun p ↦ if gone.contains p then none else t p

end Tree

/-- How `os.RemoveAll` turns out: everything is gone, or it failed when these paths were. -/
inductive Removal
  | complete
  | partly (gone : List Path)
deriving DecidableEq, Repr

/-- `os.RemoveAll` of an entry of a directory. -/
def Tree.removeEntry (t : Tree) (name : String) : Removal → Tree
  | .complete => fun p ↦ if p.head? = some name then none else t p
  | .partly gone => t.without (gone.filter fun p ↦ p.head? = some name)

/-- `os.Rename` of an entry of one directory to the same name in another, which has none: what the
other directory becomes. -/
def Tree.graft (t : Tree) (name : String) (source : Tree) : Tree :=
  fun p ↦ if p.head? = some name then source p else t p

namespace Tree

variable {t source : Tree} {name : String} {p : Path} {left : Removal}

theorem removeEntry_of_ne (h : p.head? ≠ some name) : t.removeEntry name left p = t p := by
  cases left with
  | complete => exact if_neg h
  | partly gone =>
    rw [removeEntry, without, if_neg]
    intro hmem
    rw [List.contains_iff_mem] at hmem
    exact h (by simpa using (List.mem_filter.mp hmem).2)

theorem removeEntry_complete_of_eq (h : p.head? = some name) :
    t.removeEntry name .complete p = none :=
  if_pos h

/-- Removing adds nothing. -/
theorem removeEntry_sub {nd : Node} (h : t.removeEntry name left p = some nd) : t p = some nd := by
  cases left with
  | complete =>
    simp only [removeEntry] at h
    split at h
    · cases h
    · exact h
  | partly gone =>
    rw [removeEntry, without] at h
    split at h
    · cases h
    · exact h

theorem graft_of_eq (h : p.head? = some name) : t.graft name source p = source p :=
  if_pos h

theorem graft_of_ne (h : p.head? ≠ some name) : t.graft name source p = t p :=
  if_neg h

end Tree

/-! ## The names of an archive -/

def components (name : String) : List String := (name.toList.splitOn '/').map String.ofList

/-- `path.Clean`, from a directory given by its reversed path. -/
def cleanFrom : List String → List String → Path
  | up, [] => up.reverse
  | up, c :: rest =>
    if c = "" ∨ c = "." then cleanFrom up rest
    else if c = ".." then cleanFrom up.tail rest
    else cleanFrom (c :: up) rest

def manifestDirName : String := ".dylaris"

def isManifestEntry (name : String) : Bool :=
  (cleanFrom [] (components (String.ofList (name.toList.map fun c ↦ if c = '\\' then '/' else c)))).head?
    = some manifestDirName

/-- The entry's path below the root it is unpacked into. -/
def extractRel (name : String) : Option Path :=
  if name.toList.all Char.isWhitespace then none
  else match cleanFrom [] (components name) with
    | [] => none
    | p => some p

/-- `none` when the entry must be skipped: its name, taken from `dest`, leaves it.  (A stage holds no
symbolic links for a name to leave through.) -/
def extractSkip (dest : Path) (name : String) : Option Path :=
  if dest.isPrefixOf (cleanFrom dest.reverse (components name)) then extractRel name else none

/-! ## What belongs to the node -/

def backupDirName : String := ".dylaris-backups"

/-- The names in a server root the node writes and the tenant cannot. -/
def nodeOwnedRootEntries : List String :=
  [backupDirName, ".node_config.json", ".active_server", ".dylaris.json"]

def archiveHiddenRootFiles : List String :=
  [".node_config.json", ".dylaris.json", ".dylaris-net-ready"]

/-- Of a whole-server restore. -/
def nodeOwnedRestoreName : Path → Bool
  | [name] => nodeOwnedRootEntries.contains name || archiveHiddenRootFiles.contains name
  | _ => false

/-! ## Unpacking -/

inductive Typeflag
  | dir | reg | link | symlink | other
deriving DecidableEq, Repr

/-- A tar entry. -/
structure Entry where
  typeflag : Typeflag
  name : String
  linkname : String
  body : List UInt8
deriving DecidableEq, Repr

/-- Where an entry goes; `none` for the manifest and for unsafe names. -/
def entryPath (dest : Path) (e : Entry) : Option Path :=
  if isManifestEntry e.name then none else extractSkip dest e.name

/-- What unpacking an entry does. -/
inductive Action
  | skip
  | mkdir (p : Path)
  | write (p : Path) (data : List UInt8)
  | link (old new : Path)
deriving DecidableEq, Repr

def action (dest : Path) (e : Entry) : Action :=
  match entryPath dest e with
  | none => .skip
  | some p => match e.typeflag with
    | .dir => .mkdir p
    | .reg => .write p e.body
    | .link =>
      if nodeOwnedRestoreName p then .skip
      else (extractSkip dest e.linkname).elim .skip fun old ↦ .link old p
    | .symlink | .other => .skip

/-- The tree after an action; `none` when the action cannot be done. -/
def Action.place (t : Tree) : Action → Option Tree
  | .skip => some t
  | .mkdir p => t.mkdirAll p
  | .write p data => t.createIn p data
  | .link old new => some (t.link old new)

/-- What can go wrong with an entry. -/
inductive Fault
  | none
  /-- Making the directory or the file failed. -/
  | failed (err : String)
  /-- Writing the file failed. -/
  | copying (err : String)
  /-- Only so many bytes were stored, which `Close` reports and the restore does not hear. -/
  | closed (stored : Nat)
  /-- The link could not be made. -/
  | unlinked
deriving DecidableEq, Repr

/-- The tree after an action that does not end the restore. -/
def Action.placeWith (t : Tree) (a : Action) : Fault → Option Tree
  | .none => a.place t
  | .closed stored => match a with
    | .write p data => t.createIn p (data.take stored)
    | _ => Option.none
  | .unlinked => match a with
    | .link _ new => some (t.mkdirParentIn new)
    | _ => Option.none
  | .failed _ | .copying _ => Option.none

/-- The text of a failure that ends the restore. -/
def Action.message : Action → Fault → Option String
  | .mkdir _, .failed err => some ("mkdir: " ++ err)
  | .write _ _, .failed err => some ("open file: " ++ err)
  | .write _ _, .copying err => some ("copy: " ++ err)
  | _, _ => Option.none

/-- **The restored tree**: every entry of the archive unpacked, nothing going wrong. -/
def extractAll (dest : Path) (archive : List Entry) : Option Tree :=
  archive.foldlM (fun t e ↦ (action dest e).place t) Tree.empty

theorem extractAll_append_singleton (dest : Path) (seen : List Entry) (e : Entry) :
    extractAll dest (seen ++ [e])
      = (extractAll dest seen).bind fun t ↦ (action dest e).place t := by
  simp [extractAll, List.foldlM]

/-! ## What unpacking costs -/

def maxRestoreEntries : Nat := 2000000

def restoreEntryCost : Int := 4096

def errRestoreDiskBudget : String :=
  "the archive is larger than the free space this node can give it"

/-- The counters of the loop, and the entries it has read. -/
structure Extraction where
  seen : List Entry
  entries : Nat
  written : Int
  budget : Int
  madeDirs : List Path
  extracted : Nat
deriving DecidableEq, Repr

/-- The directories creating `p` makes, from the innermost up to the first already made. -/
def newDirs (made : List Path) (p : Path) : List Path :=
  (p.dropLast.inits.reverse.filter (· ≠ [])).takeWhile fun d ↦ !made.contains d

/-- Every entry costs an inode and at least a block, and so does every directory it brings. -/
def Extraction.charge (x : Extraction) (e : Entry) (p : Path) : Extraction :=
  let new := newDirs x.madeDirs p
  { x with
    entries := x.entries + (1 + new.length)
    written := x.written + (1 + new.length) * restoreEntryCost
    madeDirs := (if e.typeflag = .dir then [p] else []) ++ new ++ x.madeDirs }

def Extraction.over (x : Extraction) : Bool :=
  maxRestoreEntries < x.entries || x.budget < x.written

/-- The bytes a file adds. -/
def Extraction.wrote (x : Extraction) : Action → Extraction
  | .write _ data => { x with written := x.written + data.length, extracted := x.extracted + 1 }
  | _ => x

/-- One turn of the loop: the message the restore ends with, or the counters and the tree it goes on
with.  `none` is a fault that this entry cannot have. -/
def extractEntry (dest : Path) (x : Extraction) (t : Tree) (e : Entry) (f : Fault) :
    Option (Except String (Extraction × Tree)) :=
  match entryPath dest e with
  | none => some (.ok ({ x with seen := x.seen ++ [e] }, t))
  | some p =>
    let x := { x.charge e p with seen := x.seen ++ [e] }
    if x.over then some (.error errRestoreDiskBudget)
    else match (action dest e).message f with
      | some msg => some (.error msg)
      | none =>
        if (x.wrote (action dest e)).budget < (x.wrote (action dest e)).written then
          some (.error ("copy: " ++ errRestoreDiskBudget))
        else ((action dest e).placeWith t f).map fun t ↦ .ok (x.wrote (action dest e), t)

@[simp]
theorem wrote_seen (x : Extraction) (a : Action) : (x.wrote a).seen = x.seen := by
  cases a <;> rfl

/-- A turn without a dropped error keeps the tree what the entries read so far unpack to. -/
theorem extractAll_of_extractEntry {dest : Path} {x x' : Extraction} {t t' : Tree} {e : Entry}
    {f : Fault} (h : extractEntry dest x t e f = some (.ok (x', t')))
    (hf : ∀ stored, f ≠ .closed stored) (hlink : f ≠ .unlinked)
    (ht : extractAll dest x.seen = some t) : extractAll dest x'.seen = some t' := by
  revert h
  fun_cases extractEntry dest x t e f <;> intro h
  next hpath =>
    cases h
    rw [extractAll_append_singleton, ht]
    simp [action, hpath, Action.place]
  · cases h
  · cases h
  · cases h
  · obtain ⟨u, hu, heq⟩ := Option.map_eq_some_iff.mp h
    obtain ⟨rfl, rfl⟩ := Prod.mk.inj (Except.ok.inj heq)
    have hplace : (action dest e).place t = some u := by
      cases f with
      | none => simpa only [Action.placeWith] using hu
      | failed err => cases hu
      | copying err => cases hu
      | closed stored => exact absurd rfl (hf stored)
      | unlinked => exact absurd rfl hlink
    rw [wrote_seen, extractAll_append_singleton, ht, Option.bind_some, hplace]

end Dylaris.Restore
