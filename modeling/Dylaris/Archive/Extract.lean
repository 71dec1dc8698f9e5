import Dylaris.Library.Disk

/-!
# Unpacking a moved server's archive

`pkg/migration/archive.go`.  `Extract` unpacks a zip archive into a directory.  The archive comes from
the node the server was on and may hold anything; the directory may still hold the server's old files,
and the server's owner may have put links among them.

For each entry it joins the name to the directory, checks on the text of the result that it is inside
(the zip-slip guard), and checks on the disk that no link stands on the way (`linkFreeUnder`).  The
directories that were checked are remembered in `verified`.  The number of files and directories that
are made is bounded by `MaxArchiveEntries`, counted before they are made; the bytes are bounded by a
budget, counted as they are written, because the sizes in the archive are the sender's claim.

An entry is its name, what its mode says, and the bytes it really unpacks to.  Every operation on the
disk may fail (`Faults`), and so may reading an entry.  The paths are absolute, and
modes are left out.
-/

set_option autoImplicit false

open Text Disk

namespace Dylaris.Archive

/-! ## Paths -/

/-- The separator, `/`. -/
def sep : UInt8 := 0x2F

def splitPath (t : Text) : List Text := t.splitOn sep

/-- `filepath.Clean` of an absolute path. -/
def cleanComps (comps : List Text) : List Text :=
  comps.foldl (fun acc c ↦
    if c = [] ∨ c = lit "." then acc else if c = lit ".." then acc.dropLast else acc ++ [c]) []

/-- An absolute path as text. -/
def pathText (p : List Text) : Text := if p = [] then [sep] else p.flatMap (sep :: ·)

/-! ## The archive -/

/-- An entry of the archive.  `opens` and `intact` say whether its data can be read at all, and to the
end. -/
structure Entry where
  name : Text
  dirMode : Bool
  opens : Bool
  content : List UInt8
  intact : Bool
deriving DecidableEq

/-- `FileInfo().IsDir()`. -/
def Entry.isDir (f : Entry) : Bool := f.dirMode || f.name.getLast? = some sep

/-- The operations that fail, by their number; a write fails after so many bytes. -/
structure Faults where
  mkdir : Nat → Bool
  open_ : Nat → Bool
  write : Nat → Option Nat
  close : Nat → Bool

inductive Error
  | entries (n : Nat)
  | escapes (name : Text)
  | symlink (rel : List Text)
  | created
  | budget
  | zip
  | os (e : Errno)
deriving DecidableEq

/-! ## The extraction -/

/-- The loop of `linkFreeUnder`: the number of segments that do not exist yet, and the directories
cleared. -/
def linkFreeFrom (d : Disk) (rel : List Text) : List Text → List Text → List (List Text) →
    Except Error (Nat × List (List Text))
  | _, [], verified => .ok (0, verified)
  | cur, seg :: rest, verified =>
    if seg = [] ∨ seg = lit "." then linkFreeFrom d rel cur rest verified
    else if verified.contains (cur ++ [seg]) then linkFreeFrom d rel (cur ++ [seg]) rest verified
    else
      match d.lstat (cur ++ [seg]) with
      | .error .noent => .ok (rest.length + 1, verified)
      | .error e => .error (.os e)
      | .ok (.link ..) => .error (.symlink rel)
      -- Only directories are remembered: a file is about to be replaced.
      | .ok .dir => linkFreeFrom d rel (cur ++ [seg]) rest ((cur ++ [seg]) :: verified)
      | .ok (.file _) => linkFreeFrom d rel (cur ++ [seg]) rest verified

/-- `filepath.Rel`, of a path inside. -/
def relSegs (dest target : List Text) : List Text :=
  if target = dest then [lit "."] else target.drop dest.length

def linkFreeUnder (d : Disk) (dest target : List Text) (verified : List (List Text)) :
    Except Error (Nat × List (List Text)) :=
  linkFreeFrom d (relSegs dest target) dest (relSegs dest target) verified

def maxInt64 : Int := 2 ^ 63 - 1

/-- The bytes of an entry that are copied at most: one past the budget tells "exactly fits" from "too
big". -/
def limitOf (budget : Int) : Int := if budget < maxInt64 then budget + 1 else budget

/-- `extractOne`: the disk, the number of bytes written, and how it failed. -/
def extractOne (faults : Faults) (d : Disk) (k : Nat) (f : Entry) (target : List Text)
    (budget : Int) : Disk × Nat × Option Error :=
  if f.opens = false then (d, 0, some .zip)
  else
    match d.openTrunc (faults.open_ k) target with
    | .error e => (d, 0, some (.os e))
    | .ok (d, ino) =>
      let bytes := f.content.take (limitOf budget).toNat
      match faults.write k with
      | some m => (d.write ino (bytes.take m), (bytes.take m).length, some (.os .io))
      | none =>
        (d.write ino bytes, bytes.length,
          if (f.content.length : Int) < limitOf budget ∧ f.intact = false then some .zip
          else if budget < bytes.length then some .budget
          else if faults.close k then some (.os .io)
          else none)

structure St where
  disk : Disk
  ops : Nat
  verified : List (List Text)
  created : Nat
  budget : Int
  /-- What `onWrite` was told. -/
  written : List Nat

/-- The entry is made. -/
def place (faults : Faults) (st : St) (f : Entry) (target : List Text) : St × Option Error :=
  if f.isDir then
    let (d, k, e) := mkdirAll faults.mkdir target.reverse st.ops st.disk
    ({ st with disk := d, ops := k }, e.map .os)
  else
    match mkdirAll faults.mkdir target.dropLast.reverse st.ops st.disk with
    | (d, k, some e) => ({ st with disk := d, ops := k }, some (.os e))
    | (d, k, none) =>
      let (d, n, err) := extractOne faults d k f target st.budget
      ({ st with
          disk := d
          ops := k + 1
          written := st.written ++ [n]
          budget := if err = none then st.budget - n else st.budget },
        err)

/-- The loop body of `Extract`. -/
def extractEntry (faults : Faults) (maxArchiveEntries : Nat) (dest : List Text) (st : St) (f : Entry) :
    St × Option Error :=
  let target := cleanComps (dest ++ splitPath f.name)
  if pathText target ≠ pathText dest ∧
      (pathText dest ++ [sep]).isPrefixOf (pathText target) = false then
    (st, some (.escapes f.name))
  else
    match linkFreeUnder st.disk dest target st.verified with
    | .error e => (st, some e)
    | .ok (missing, verified) =>
      let st := { st with verified := verified, created := st.created + missing }
      if maxArchiveEntries < st.created then (st, some .created)
      else place faults st f target

def extractAll (faults : Faults) (maxArchiveEntries : Nat) (dest : List Text) :
    List Entry → St → St × Option Error
  | [], st => (st, none)
  | f :: fs, st =>
    match extractEntry faults maxArchiveEntries dest st f with
    | (st, some e) => (st, some e)
    | (st, none) => extractAll faults maxArchiveEntries dest fs st

/-- `Extract`, of an archive that can be opened. -/
def extract (faults : Faults) (maxArchiveEntries : Nat) (d : Disk) (destDir : Text)
    (entries : List Entry) (budget : Int) : St × Option Error :=
  if maxArchiveEntries < entries.length then
    (⟨d, 0, [], 0, budget, []⟩, some (.entries entries.length))
  else
    let dest := cleanComps (splitPath destDir)
    match mkdirAll faults.mkdir dest.reverse 0 d with
    | (d, k, some e) => (⟨d, k, [], 0, budget, []⟩, some (.os e))
    | (d, k, none) => extractAll faults maxArchiveEntries dest entries ⟨d, k, [dest], 0, budget, []⟩

end Dylaris.Archive
