import Dylaris.Migration.Request
import Mathlib.Data.List.Infix

/-!
# Data sets in physical storage

A data set is a view of physical storage: its objects, named by keys, lie below a root on some disk
or in some bucket.  Two data sets are two places only if neither root is inside the other, and that
is what a migration rests on: it writes to one data set and must leave the other alone.

Keys are cut at their slashes, so that "inside" is being a prefix.  Two particulars of the backends
are kept because they decide what an operation reaches.

* A local modpack backend mirrors every object to several roots.  It reads from the first that has
  the object, writes and deletes at all of them.
* `Delete` of the Core file storage is `DeletePath`: it removes the object of the key *and every
  object below it*.  A `backup.Storage` or a plain modpack backend removes the one object.

`checkLocations` is what `Start` refuses.  For a target given by a configuration that is only the
same place; for a pair of data sets it is also a sub-prefix inside the other on one root, and
nothing where the place of one of them cannot be told.  Where a directory really is, behind links
and mounts, is taken as resolved (`os.SameFile`), and the slashes of an S3 prefix as trimmed.
-/

set_option autoImplicit false

namespace Dylaris.Migration

open List

/-- An object's name, cut at the slashes. -/
abbrev Key := List String

scoped instance : LawfulBEq Key := inferInstance

/-- A place: the disk, or the endpoint and bucket, and the directory or prefix in it. -/
structure Location where
  root : String
  dir : List String
deriving DecidableEq, Repr

/-- Where an object is. -/
abbrev Addr := Location

/-- The object of a key, below a root. -/
def Location.at (l : Location) (k : Key) : Addr := ⟨l.root, l.dir ++ k⟩

/-- The place is inside `l`. -/
def Location.Holds (l : Location) (x : Addr) : Prop := l.root = x.root ∧ l.dir <+: x.dir

structure DataSet where
  /-- The root its configuration names, and its namespace below it. -/
  base : Location
  subPrefix : List String
  /-- The further roots a local modpack backend mirrors its objects to. -/
  mirrors : List Location
  /-- `dataSetLocation` can tell where it is. -/
  located : Bool
  /-- `Delete` also removes what is below the key. -/
  deletesTree : Bool
deriving DecidableEq, Repr

namespace DataSet

/-- The root that is compared. -/
def place (d : DataSet) : Location := d.base.at d.subPrefix

def roots (d : DataSet) : List Location := d.place :: d.mirrors

/-- The place belongs to the data set: an object there has a name in it. -/
def Owns (d : DataSet) (x : Addr) : Prop := ∃ r ∈ d.roots, r.Holds x

/-- `Delete` of the key reaches the place. -/
def reaches (d : DataSet) (k : Key) (x : Addr) : Bool :=
  d.roots.any fun r ↦
    if d.deletesTree then r.root = x.root && (r.dir ++ k).isPrefixOf x.dir else r.at k = x

variable {C : Type}

/-- `Open`, and reading to the end. -/
def get (d : DataSet) (s : Addr → Option C) (k : Key) : Option C :=
  d.roots.findSome? fun r ↦ s (r.at k)

/-- `Write`. -/
def put (d : DataSet) (s : Addr → Option C) (k : Key) (c : C) : Addr → Option C :=
  fun x ↦ if x ∈ d.roots.map (·.at k) then some c else s x

/-- A `Write` that fails: what it leaves under the key is anything. -/
def putFailed (d : DataSet) (s : Addr → Option C) (k : Key) (left : List (Addr × Option C)) :
    Addr → Option C :=
  fun x ↦ if x ∈ d.roots.map (·.at k) then (left.lookup x).getD (s x) else s x

/-- `Delete`. -/
def remove (d : DataSet) (s : Addr → Option C) (k : Key) : Addr → Option C :=
  fun x ↦ if d.reaches k x then none else s x

/-- A `Delete` that fails: of what it reaches some is gone. -/
def removeFailed (d : DataSet) (s : Addr → Option C) (k : Key) (gone : List Addr) :
    Addr → Option C :=
  fun x ↦ if d.reaches k x ∧ x ∈ gone then none else s x

end DataSet

/-! ## What `Start` refuses -/

/-- `SameLocation`. -/
def sameLocation (a b : Location) : Bool := a = b

/-- `subPrefixContains`. -/
def subPrefixContains (outer inner : List String) : Bool :=
  outer ≠ inner && outer.isPrefixOf inner

/-- `EnsureDistinctLocation`. -/
def ensureDistinctLocation (src target : DataSet) : Except String Unit :=
  if sameLocation src.place target.place then
    .error ("core storage: the target resolves to the same location as the source: pick a " ++
      "different bucket, prefix or path (note that two paths can be the same directory through a " ++
      "symlink or a bind mount)")
  else .ok ()

/-- `EnsureDistinctDataSetLocations`. -/
def ensureDistinctDataSetLocations (src target : DataSet) (sourceID targetID : String) :
    Except String Unit :=
  if !src.located || !target.located then .ok ()
  else if sameLocation src.place target.place then
    .error ("core storage: the target resolves to the same location as the source: data sets \"" ++
      sourceID ++ "\" and \"" ++ targetID ++ "\" are different names for one physical location, " ++
      "so copying between them would rewrite every object onto itself and the verification would " ++
      "compare that location against its own manifest; pick a target that lives somewhere else")
  else if !sameLocation src.base target.base then .ok ()
  else if subPrefixContains target.subPrefix src.subPrefix then
    .error ("core storage: one data set is stored inside the other: data set \"" ++ sourceID ++
      "\" is stored INSIDE \"" ++ targetID ++ "\", so copying it there would rebase its keys into " ++
      "the other data set's live namespace and overwrite any object whose name collides; there is " ++
      "nothing to move, the objects are already there")
  else if subPrefixContains src.subPrefix target.subPrefix then
    .error ("core storage: one data set is stored inside the other: data set \"" ++ targetID ++
      "\" is stored INSIDE \"" ++ sourceID ++ "\", so copying the outer one into it would rebase " ++
      "every key into the inner data set's live namespace and overwrite any object whose name " ++
      "collides")
  else .ok ()

/-- The location checks of `Start`, for a request that passed `Validate`. -/
def checkLocations (r : Request) (src target : DataSet) : Except String Unit :=
  if r.kind ≠ .migrate then .ok ()
  else if r.targetConfig.isSome then
    (ensureDistinctLocation src target).mapError ("target storage: " ++ ·)
  else if r.dataSet = r.targetDataSet then .error "the target is the same data set as the source"
  else ensureDistinctDataSetLocations src target r.dataSet r.targetDataSet

/-! ## Places of two data sets -/

/-- Neither data set has a root inside the other's. -/
def Apart (d d' : DataSet) : Prop :=
  ∀ r ∈ d.roots, ∀ r' ∈ d'.roots,
    r.root ≠ r'.root ∨ ¬ r.dir <+: r'.dir ∧ ¬ r'.dir <+: r.dir

instance (d d' : DataSet) : Decidable (Apart d d') :=
  inferInstanceAs (Decidable (∀ r ∈ d.roots, ∀ r' ∈ d'.roots, _))

theorem Apart.not_owns {d d' : DataSet} (h : Apart d d') {x : Addr} (hx : d.Owns x) :
    ¬ d'.Owns x := by
  rintro ⟨r', hr', hroot', hdir'⟩
  obtain ⟨r, hr, hroot, hdir⟩ := hx
  rcases h r hr r' hr' with hne | ⟨hout, hin⟩
  · exact hne (hroot.trans hroot'.symm)
  · rcases prefix_or_prefix_of_prefix hdir hdir' with hp | hp
    · exact hout hp
    · exact hin hp

theorem Location.holds_at (l : Location) (k : Key) : l.Holds (l.at k) :=
  ⟨rfl, prefix_append _ _⟩

theorem Location.at_injective (l : Location) {k k' : Key} (h : l.at k = l.at k') : k = k' :=
  append_cancel_left (congrArg Location.dir h)

namespace DataSet

variable {C : Type} {d : DataSet} {s s' : Addr → Option C} {k : Key} {x : Addr}

theorem owns_at {r : Location} (hr : r ∈ d.roots) (k : Key) : d.Owns (r.at k) :=
  ⟨r, hr, r.holds_at k⟩

theorem owns_of_mem (hx : x ∈ d.roots.map (·.at k)) : d.Owns x := by
  obtain ⟨r, hr, rfl⟩ := mem_map.mp hx
  exact owns_at hr k

theorem owns_of_reaches (hx : d.reaches k x = true) : d.Owns x := by
  obtain ⟨r, hr, h⟩ := any_eq_true.mp hx
  split at h
  · rw [Bool.and_eq_true, decide_eq_true_eq, isPrefixOf_iff_prefix] at h
    exact ⟨r, hr, h.1, (prefix_append _ _).trans h.2⟩
  · rw [decide_eq_true_eq] at h
    exact h ▸ owns_at hr k

/-- A `Delete` that does not take the tree reaches the key's own objects. -/
theorem mem_of_reaches (htree : d.deletesTree = false) (hx : d.reaches k x = true) :
    x ∈ d.roots.map (·.at k) := by
  obtain ⟨r, hr, h⟩ := any_eq_true.mp hx
  rw [htree, if_neg Bool.false_ne_true, decide_eq_true_eq] at h
  exact mem_map.mpr ⟨r, hr, h⟩

/-! What the operations do at a place. -/

theorem put_of_mem {c : C} (hx : x ∈ d.roots.map (·.at k)) : d.put s k c x = some c := if_pos hx

theorem remove_of_reaches (hx : d.reaches k x = true) : d.remove s k x = none := if_pos hx

theorem put_of_not_mem {c : C} (hx : x ∉ d.roots.map (·.at k)) : d.put s k c x = s x := if_neg hx

theorem putFailed_of_not_mem {left : List (Addr × Option C)} (hx : x ∉ d.roots.map (·.at k)) :
    d.putFailed s k left x = s x := if_neg hx

theorem remove_of_not_reaches (hx : ¬ d.reaches k x = true) : d.remove s k x = s x := if_neg hx

theorem removeFailed_of_not_reaches {gone : List Addr} (hx : ¬ d.reaches k x = true) :
    d.removeFailed s k gone x = s x := if_neg fun h ↦ hx h.1

/-- What is read depends on the data set's own places. -/
theorem get_congr (h : ∀ x, d.Owns x → s' x = s x) (k : Key) : d.get s' k = d.get s k := by
  have hat : ∀ r ∈ d.roots, s' (r.at k) = s (r.at k) := fun r hr ↦ h _ (owns_at hr k)
  rw [get, get]
  generalize d.roots = roots at hat
  induction roots with
  | nil => rfl
  | cons r rs ih =>
    rw [findSome?_cons, findSome?_cons, hat r mem_cons_self,
      ih fun r hr ↦ hat r (mem_cons_of_mem _ hr)]

end DataSet

end Dylaris.Migration
