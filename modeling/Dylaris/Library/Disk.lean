import Dylaris.Library.Text
import Mathlib.Data.List.Induction

/-!
# A file system with symbolic links

A disk maps physical paths to directories, files and symbolic links.  A physical path is the list of
names from the root on, with no link on the way.  The bytes of a file belong to its inode, so a file
may have several names.

The operations take paths as a program writes them, and `walk` finds the physical path, following
links as the kernel does: a link on the way is replaced by where it points, at most `maxLinks` of them.
`stat` follows a link at the end of a path, `lstat` and `mkdir` do not, and opening a file for writing
does.  Every operation that changes the disk may also fail for a reason of its own.

* `Walks` says name by name where a walk can go; what is known of walks is proved by induction on it.
* `walk_append` splits a walk at a directory, and `eq_of_walk` says where a walk along names that are
  not links can end: at the path as it is written.
* `Adds d d' new` says that between two disks nothing was removed and only paths in `new` were added,
  none of them a link; `adds_mkdirAll` says it for `os.MkdirAll` below a directory.
-/

set_option autoImplicit false

open Text

namespace Disk

/-- A name with no special meaning in a path. -/
def Plain (s : Text) : Prop := s ≠ [] ∧ s ≠ lit "." ∧ s ≠ lit ".."

inductive Node
  | dir
  | file (ino : Nat)
  /-- Where the link points: from the root, or from the directory it is in. -/
  | link (absolute : Bool) (comps : List Text)
deriving DecidableEq

/-- Why a call fails. -/
inductive Errno
  | noent | notdir | exist | isdir | loop | io
deriving DecidableEq

end Disk

/-- What is at each physical path, the bytes of each inode, and the next inode. -/
structure Disk where
  tree : List Text → Option Disk.Node
  data : Nat → List UInt8
  nextIno : Nat

namespace Disk

open List

/-- The number of links the kernel follows in one path. -/
def maxLinks : Nat := 40

/-! ## Walking a path -/

/-- Walk from a directory; `onLink` goes on from another directory with another path. -/
def walkComps (d : Disk) (follow : Bool) (onLink : List Text → List Text → Except Errno (List Text)) :
    List Text → List Text → Except Errno (List Text)
  | cur, [] => .ok cur
  | cur, c :: rest =>
    if c = [] ∨ c = lit "." then walkComps d follow onLink cur rest
    else if c = lit ".." then walkComps d follow onLink cur.dropLast rest
    else
      match d.tree (cur ++ [c]) with
      | none => if rest = [] then .ok (cur ++ [c]) else .error .noent
      | some .dir => walkComps d follow onLink (cur ++ [c]) rest
      | some (.file _) => if rest = [] then .ok (cur ++ [c]) else .error .notdir
      | some (.link absolute comps) =>
        if rest = [] ∧ follow = false then .ok (cur ++ [c])
        else onLink (if absolute then [] else cur) (comps ++ rest)

/-- Walk from a directory, following this many links. -/
def walk (d : Disk) (follow : Bool) : Nat → List Text → List Text → Except Errno (List Text)
  | 0 => d.walkComps follow fun _ _ ↦ .error .loop
  | n + 1 => d.walkComps follow (d.walk follow n)

/-- What is at the end of a path, if there is anything. -/
def at? (d : Disk) (follow : Bool) (p : List Text) : Except Errno Node :=
  match d.walk follow maxLinks [] p with
  | .error e => .error e
  | .ok q =>
    match d.tree q with
    | none => .error .noent
    | some n => .ok n

def stat (d : Disk) (p : List Text) : Except Errno Node := d.at? true p

def lstat (d : Disk) (p : List Text) : Except Errno Node := d.at? false p

/-! ## Changing the disk -/

def put (d : Disk) (p : List Text) (n : Node) : Disk :=
  { d with tree := fun q ↦ if q = p then some n else d.tree q }

def write (d : Disk) (ino : Nat) (bytes : List UInt8) : Disk :=
  { d with data := fun i ↦ if i = ino then bytes else d.data i }

/-- `mkdir`; `fault` is a failure of its own. -/
def mkdir (d : Disk) (fault : Bool) (p : List Text) : Disk × Option Errno :=
  match d.walk false maxLinks [] p with
  | .error e => (d, some e)
  | .ok q =>
    if d.tree q ≠ none then (d, some .exist)
    else if fault then (d, some .io)
    else (d.put q .dir, none)

/-- Open a file for writing, making it or cutting it to nothing: the disk and the inode. -/
def openTrunc (d : Disk) (fault : Bool) (p : List Text) : Except Errno (Disk × Nat) :=
  match d.walk true maxLinks [] p with
  | .error e => .error e
  | .ok q =>
    if fault then .error .io
    else
      match d.tree q with
      | none => .ok (({ d with nextIno := d.nextIno + 1 }.put q (.file d.nextIno)).write d.nextIno [],
          d.nextIno)
      | some (.file ino) => .ok (d.write ino [], ino)
      | some .dir => .error .isdir
      | some (.link ..) => .error .loop

/-- `os.MkdirAll`, of a path given from its end: the disk, the number of the next operation, and how
it failed. -/
def mkdirAll (faults : Nat → Bool) : List Text → Nat → Disk → Disk × Nat × Option Errno
  | [], k, d => (d, k, none)
  | s :: rev, k, d =>
    match d.stat (s :: rev).reverse with
    | .ok .dir => (d, k, none)
    | .ok _ => (d, k, some .notdir)
    | .error _ =>
      match mkdirAll faults rev k d with
      | (d, k, some e) => (d, k, some e)
      | (d, k, none) =>
        match d.mkdir (faults k) (s :: rev).reverse with
        | (d, none) => (d, k + 1, none)
        | (d, some e) => (d, k + 1, if d.lstat (s :: rev).reverse = .ok .dir then none else some e)

/-! ## Walks -/

section Walk

variable {d d' : Disk} {follow : Bool} {n : Nat} {cur p q rel rest : List Text} {c : Text}

/-- The directory a path leads to. -/
structure Leads (d : Disk) (p q : List Text) : Prop where
  walk : d.walk true maxLinks [] p = .ok q
  dir : d.tree q = some .dir

/-- There is no link along a relative path. -/
def NoLinks (d : Disk) (cur rel : List Text) : Prop :=
  ∀ pre, pre <+: rel → ∀ a t, d.tree (cur ++ pre) ≠ some (.link a t)

/-- There is a directory at every name of a relative path, and where it starts. -/
def Dirs (d : Disk) (cur rel : List Text) : Prop :=
  ∀ pre, pre <+: rel → d.tree (cur ++ pre) = some .dir

theorem NoLinks.of_prefix {pre : List Text} (h : NoLinks d cur rel) (hpre : pre <+: rel) :
    NoLinks d cur pre :=
  fun q hq ↦ h q (hq.trans hpre)

theorem noLinks_cons (hcur : ∀ a t, d.tree cur ≠ some (.link a t)) (h : NoLinks d (cur ++ [c]) rest) :
    NoLinks d cur (c :: rest) := by
  intro pre hpre a t
  cases pre with
  | nil =>
    rw [append_nil]
    exact hcur a t
  | cons c' pre =>
    obtain ⟨rfl, hpre'⟩ := cons_prefix_cons.mp hpre
    have hpath := h pre hpre' a t
    rw [append_assoc] at hpath
    exact hpath

/-- How the rest of a walk goes on behind a link. -/
def next (d : Disk) (follow : Bool) : Nat → List Text → List Text → Except Errno (List Text)
  | 0 => fun _ _ ↦ .error .loop
  | n + 1 => d.walk follow n

theorem walk_eq (n : Nat) : d.walk follow n = d.walkComps follow (d.next follow n) := by
  cases n <;> rfl

theorem walk_nil : d.walk follow n cur [] = .ok cur := by
  rw [walk_eq, walkComps]

theorem walk_skip (hc : c = [] ∨ c = lit ".") :
    d.walk follow n cur (c :: rest) = d.walk follow n cur rest := by
  rw [walk_eq, walkComps, if_pos hc]

theorem walk_up : d.walk follow n cur (lit ".." :: rest) = d.walk follow n cur.dropLast rest := by
  rw [walk_eq, walkComps, if_neg (by decide +kernel), if_pos rfl]

/-- A name that means something is looked up. -/
theorem walk_plain (hc : Plain c) :
    d.walk follow n cur (c :: rest) =
      match d.tree (cur ++ [c]) with
      | none => if rest = [] then .ok (cur ++ [c]) else .error .noent
      | some .dir => d.walk follow n (cur ++ [c]) rest
      | some (.file _) => if rest = [] then .ok (cur ++ [c]) else .error .notdir
      | some (.link absolute comps) =>
        if rest = [] ∧ follow = false then .ok (cur ++ [c])
        else d.next follow n (if absolute then [] else cur) (comps ++ rest) := by
  obtain ⟨h1, h2, h3⟩ := hc
  rw [walk_eq, walkComps, if_neg (by simp [h1, h2]), if_neg h3]

theorem walk_down (hc : Plain c) (hd : d.tree (cur ++ [c]) = some .dir) :
    d.walk follow n cur (c :: rest) = d.walk follow n (cur ++ [c]) rest := by
  rw [walk_plain hc, hd]

theorem walk_link {absolute : Bool} {comps : List Text} (hc : Plain c)
    (hl : d.tree (cur ++ [c]) = some (.link absolute comps)) (hf : rest ≠ [] ∨ follow = true) :
    d.walk follow (n + 1) cur (c :: rest)
      = d.walk follow n (if absolute then [] else cur) (comps ++ rest) := by
  rw [walk_plain hc, hl]
  simp only
  rw [if_neg fun h ↦ hf.elim (fun hr ↦ hr h.1) fun ht ↦ by simp [ht] at h]
  rfl

/-- A walk that succeeds, name by name. -/
inductive Walks (d : Disk) (follow : Bool) : Nat → List Text → List Text → List Text → Prop
  | done (n : Nat) (cur : List Text) : Walks d follow n cur [] cur
  | skip {n : Nat} {cur rest q : List Text} {c : Text} (hc : c = [] ∨ c = lit ".")
      (h : Walks d follow n cur rest q) : Walks d follow n cur (c :: rest) q
  | up {n : Nat} {cur rest q : List Text} (h : Walks d follow n cur.dropLast rest q) :
      Walks d follow n cur (lit ".." :: rest) q
  | down {n : Nat} {cur rest q : List Text} {c : Text} (hc : Plain c)
      (hd : d.tree (cur ++ [c]) = some .dir) (h : Walks d follow n (cur ++ [c]) rest q) :
      Walks d follow n cur (c :: rest) q
  /-- The last name is not a directory, or a link that is not followed. -/
  | last {n : Nat} {cur : List Text} {c : Text} (hc : Plain c)
      (hd : d.tree (cur ++ [c]) ≠ some .dir) : Walks d follow n cur [c] (cur ++ [c])
  | link {n : Nat} {cur rest q comps : List Text} {c : Text} {absolute : Bool} (hc : Plain c)
      (hl : d.tree (cur ++ [c]) = some (.link absolute comps)) (hf : rest ≠ [] ∨ follow = true)
      (h : Walks d follow n (if absolute then [] else cur) (comps ++ rest) q) :
      Walks d follow (n + 1) cur (c :: rest) q

theorem walks_of_walk (h : d.walk follow n cur p = .ok q) : Walks d follow n cur p q := by
  induction n using Nat.strong_induction_on generalizing cur p with
  | _ n ihn =>
    induction p generalizing cur with
    | nil =>
      rw [walk_nil] at h
      rw [← Except.ok.inj h]
      exact .done n cur
    | cons c rest ih =>
      by_cases hskip : c = [] ∨ c = lit "."
      · exact .skip hskip (ih (walk_skip hskip ▸ h))
      by_cases hup : c = lit ".."
      · subst hup
        exact .up (ih (walk_up ▸ h))
      have hc : Plain c := ⟨fun hc ↦ hskip (.inl hc), fun hc ↦ hskip (.inr hc), hup⟩
      rw [walk_plain hc] at h
      split at h
      · rename_i hnone
        split at h
        · rename_i hrest
          rw [hrest, ← Except.ok.inj h]
          exact .last hc (by simp [hnone])
        · cases h
      · rename_i hd
        exact .down hc hd (ih h)
      · rename_i ino hfile
        split at h
        · rename_i hrest
          rw [hrest, ← Except.ok.inj h]
          exact .last hc (by simp [hfile])
        · cases h
      · rename_i absolute comps hl
        split at h
        · rename_i hlast
          rw [hlast.1, ← Except.ok.inj h]
          exact .last hc (by simp [hl])
        rename_i hlast
        cases n with
        | zero => exact absurd h (by simp [next])
        | succ k =>
          refine .link hc hl ?_ (ihn k (Nat.lt_succ_self k) h)
          by_cases hrest : rest = []
          · exact .inr (Bool.of_not_eq_false fun hf ↦ hlast ⟨hrest, hf⟩)
          · exact .inl hrest

/-- **A walk splits at a directory.**  What comes after it is walked from there, with the links that
are left. -/
theorem walk_append (hrel : rel ≠ []) (h : d.walk true n cur p = .ok q)
    (hdir : d.tree q = some .dir) :
    ∃ m, d.walk follow n cur (p ++ rel) = d.walk follow m q rel := by
  induction walks_of_walk h with
  | done n cur => exact ⟨n, rfl⟩
  | skip hc _ ih =>
    rw [cons_append, walk_skip hc]
    exact ih (walk_skip hc ▸ h) hdir
  | up _ ih =>
    rw [cons_append, walk_up]
    exact ih (walk_up ▸ h) hdir
  | down hc hd _ ih =>
    rw [cons_append, walk_down hc hd]
    exact ih (walk_down hc hd ▸ h) hdir
  | last hc hd => exact absurd hdir hd
  | link hc hl hf _ ih =>
    rw [cons_append, walk_link hc hl (.inl (append_ne_nil_of_right_ne_nil _ hrel)),
      ← append_assoc]
    exact ih (walk_link hc hl hf ▸ h) hdir

/-- A walk along names that are not links ends at the path as it is written. -/
theorem eq_of_walk (hplain : ∀ s ∈ rel, Plain s) (hlink : NoLinks d cur rel)
    (h : d.walk follow n cur rel = .ok q) : q = cur ++ rel := by
  induction walks_of_walk h with
  | done n cur => rw [append_nil]
  | skip hc _ _ =>
    obtain ⟨h1, h2, -⟩ := hplain _ mem_cons_self
    exact absurd hc (by simp [h1, h2])
  | up _ _ => exact absurd rfl (hplain _ mem_cons_self).2.2
  | @down n cur rest q c hc hd _ ih =>
    rw [ih (fun s hs ↦ hplain s (mem_cons_of_mem _ hs)) ?_ (walk_down hc hd ▸ h),
      append_assoc, singleton_append]
    intro pre hpre a t
    rw [append_assoc]
    exact hlink (c :: pre) (cons_prefix_cons.mpr ⟨rfl, hpre⟩) a t
  | last _ _ => rfl
  | link hc hl _ _ _ =>
    exact absurd hl (hlink [_] (cons_prefix_cons.mpr ⟨rfl, nil_prefix⟩) _ _)

/-- Along directories, a walk goes all the way. -/
theorem walk_of_dirs (hplain : ∀ s ∈ rel, Plain s) (hdirs : Dirs d cur rel) :
    d.walk follow n cur rel = .ok (cur ++ rel) := by
  induction rel generalizing cur with
  | nil => rw [walk_nil, append_nil]
  | cons c rest ih =>
    rw [walk_down (hplain c mem_cons_self)
      (hdirs [c] (cons_prefix_cons.mpr ⟨rfl, nil_prefix⟩)),
      ih (fun s hs ↦ hplain s (mem_cons_of_mem _ hs)) ?_, append_assoc,
      singleton_append]
    intro pre hpre
    rw [append_assoc]
    exact hdirs (c :: pre) (cons_prefix_cons.mpr ⟨rfl, hpre⟩)

/-- What leads to a directory still does when nothing was removed. -/
theorem walk_of_kept (hkept : ∀ r n, d.tree r = some n → d'.tree r = some n)
    (h : d.walk true n cur p = .ok q) (hdir : d.tree q = some .dir) :
    d'.walk true n cur p = .ok q := by
  induction walks_of_walk h with
  | done n cur => exact walk_nil
  | skip hc _ ih => exact (walk_skip hc).trans (ih (walk_skip hc ▸ h) hdir)
  | up _ ih => exact walk_up.trans (ih (walk_up ▸ h) hdir)
  | down hc hd _ ih => exact (walk_down hc (hkept _ _ hd)).trans (ih (walk_down hc hd ▸ h) hdir)
  | last _ hd => exact absurd hdir hd
  | link hc hl hf _ ih =>
    exact (walk_link hc (hkept _ _ hl) hf).trans (ih (walk_link hc hl hf ▸ h) hdir)

theorem Leads.append (h : Leads d p q) (hplain : ∀ s ∈ rel, Plain s) (hdirs : Dirs d q rel) :
    Leads d (p ++ rel) (q ++ rel) := by
  refine ⟨?_, hdirs rel prefix_rfl⟩
  by_cases hrel : rel = []
  · rw [hrel, append_nil, append_nil, h.walk]
  · obtain ⟨m, hm⟩ := walk_append hrel h.walk h.dir
    rw [hm, walk_of_dirs hplain hdirs]

/-- `lstat` of a name in a directory. -/
theorem Leads.lstat (h : Leads d p q) (hc : Plain c) :
    d.lstat (p ++ [c]) = match d.tree (q ++ [c]) with
      | none => .error .noent
      | some n => .ok n := by
  obtain ⟨m, hm⟩ := walk_append (cons_ne_nil c []) h.walk h.dir
  have hwalk : d.walk false m q [c] = .ok (q ++ [c]) := by
    rw [walk_plain hc]
    split
    · rfl
    · exact walk_nil
    · rfl
    · rfl
  rw [Disk.lstat, at?, hm, hwalk]

/-- Nothing is below a file. -/
theorem Leads.lstat_file {ino : Nat} (h : Leads d p q) (hc : Plain c)
    (hfile : d.tree (q ++ [c]) = some (.file ino)) (hrel : rel ≠ []) :
    d.lstat (p ++ c :: rel) = .error .notdir := by
  obtain ⟨m, hm⟩ := walk_append (cons_ne_nil c rel) h.walk h.dir
  rw [Disk.lstat, at?, hm, walk_plain hc, hfile]
  simp only [hrel, if_false]

end Walk

/-! ## Directories have directories above them -/

/-- The root is a directory, what there is is in a directory, and the next inode is a new one. -/
structure WellFormed (d : Disk) : Prop where
  root : d.tree [] = some .dir
  parent : ∀ p s, d.tree (p ++ [s]) ≠ none → d.tree p = some .dir
  fresh : ∀ p i, d.tree p = some (.file i) → i < d.nextIno

section WellFormed

variable {d d' : Disk} {follow : Bool} {n : Nat} {cur p q rel : List Text}

section

variable (h : d.WellFormed)

include h

theorem WellFormed.dropLast (hp : d.tree p = some .dir) :
    d.tree p.dropLast = some .dir := by
  rcases eq_nil_or_concat p with rfl | ⟨q, s, rfl⟩
  · exact hp
  · rw [concat_eq_append] at hp ⊢
    rw [dropLast_concat]
    exact h.parent q s (by simp [hp])

/-- Nothing is below a path at which there is nothing. -/
theorem WellFormed.eq_none (hnone : d.tree p = none) (rel : List Text) :
    d.tree (p ++ rel) = none := by
  induction rel using List.reverseRecOn with
  | nil => rw [append_nil, hnone]
  | append_singleton rel s ih =>
    by_contra hsome
    rw [← append_assoc] at hsome
    exact absurd (h.parent _ s hsome) (by simp [ih])

/-- Where a walk ends there is a directory, or there is one right above. -/
theorem WellFormed.walk (hcur : d.tree cur = some .dir)
    (hw : d.walk follow n cur p = .ok q) :
    d.tree q = some .dir ∨ ∃ r s, q = r ++ [s] ∧ d.tree r = some .dir := by
  induction walks_of_walk hw with
  | done n cur => exact .inl hcur
  | skip hc _ ih => exact ih hcur (walk_skip hc ▸ hw)
  | up _ ih => exact ih (h.dropLast hcur) (walk_up ▸ hw)
  | down hc hd _ ih => exact ih hd (walk_down hc hd ▸ hw)
  | last _ _ => exact .inr ⟨_, _, rfl, hcur⟩
  | link hc hl hf _ ih =>
    refine ih ?_ (walk_link hc hl hf ▸ hw)
    split
    · exact h.root
    · exact hcur

/-- A path that can be walked has a beginning that leads to a directory. -/
theorem WellFormed.walk_left (hcur : d.tree cur = some .dir) (hrel : rel ≠ [])
    (hw : d.walk true n cur (p ++ rel) = .ok q) :
    ∃ r, d.walk true n cur p = .ok r ∧ d.tree r = some .dir := by
  have hpath := walks_of_walk hw
  clear hw
  generalize hp' : p ++ rel = path at hpath
  induction hpath generalizing p <;> rcases p with _ | ⟨c', p⟩ <;> try exact ⟨_, walk_nil, hcur⟩
  case done.cons => cases hp'
  case skip.cons hc _ ih =>
    obtain ⟨rfl, hrest⟩ := List.cons.inj hp'
    rw [walk_skip hc]
    exact ih hcur hrest
  case up.cons ih =>
    obtain ⟨rfl, hrest⟩ := List.cons.inj hp'
    rw [walk_up]
    exact ih (h.dropLast hcur) hrest
  case down.cons hc hd _ ih =>
    obtain ⟨rfl, hrest⟩ := List.cons.inj hp'
    rw [walk_down hc hd]
    exact ih hd hrest
  case last.cons => exact absurd (append_eq_nil_iff.mp (List.cons.inj hp').2).2 hrel
  case link.cons hc hl _ _ ih =>
    obtain ⟨rfl, rfl⟩ := List.cons.inj hp'
    rw [walk_link hc hl (.inr rfl)]
    refine ih ?_ (append_assoc _ _ _)
    split
    · exact h.root
    · exact hcur

theorem WellFormed.put {r : List Text} {s : Text} {m : Node}
    (hr : d.tree r = some .dir) (hnone : d.tree (r ++ [s]) = none)
    (hfile : ∀ i, m = .file i → i < d.nextIno) : (d.put (r ++ [s]) m).WellFormed where
  root := by
    simp only [Disk.put]
    rw [if_neg (by simp), h.root]
  parent q t hq := by
    simp only [Disk.put] at hq ⊢
    split at hq
    · rename_i heq
      rw [(append_inj' heq rfl).1, if_neg (by simp)]
      exact hr
    · have hdir := h.parent q t hq
      rw [if_neg fun heq ↦ by rw [heq, hnone] at hdir; exact absurd hdir (by simp)]
      exact hdir
  fresh q i hq := by
    simp only [Disk.put] at hq
    split at hq
    · exact hfile i (Option.some_inj.mp hq)
    · exact h.fresh q i hq

theorem WellFormed.write (ino : Nat) (bytes : List UInt8) :
    (d.write ino bytes).WellFormed :=
  ⟨h.root, h.parent, h.fresh⟩

theorem WellFormed.mkdir (fault : Bool) (p : List Text) :
    (d.mkdir fault p).1.WellFormed := by
  unfold Disk.mkdir
  split
  · exact h
  rename_i q hw
  split
  · exact h
  rename_i hnone
  split
  · exact h
  · rcases h.walk h.root hw with hd | ⟨r, s, rfl, hr⟩
    · exact absurd hd (by simp [not_not.mp hnone])
    · exact h.put hr (not_not.mp hnone) (by simp)

theorem WellFormed.openTrunc {fault : Bool} {i : Nat}
    (ho : d.openTrunc fault p = .ok (d', i)) : d'.WellFormed := by
  revert ho
  fun_cases Disk.openTrunc d fault p <;> rintro ⟨⟩
  next hw _ hnone =>
    rcases h.walk h.root hw with hd | ⟨r, s, rfl, hr⟩
    · exact absurd hd (by simp [hnone])
    · have hbump : WellFormed { d with nextIno := d.nextIno + 1 } :=
        ⟨h.root, h.parent, fun p i hp ↦ (h.fresh p i hp).trans (Nat.lt_succ_self _)⟩
      exact (hbump.put hr hnone fun i hi ↦ by
        rw [← Node.file.inj hi]; exact Nat.lt_succ_self _).write _ _
  next => exact h.write _ _

theorem WellFormed.mkdirAll {faults : Nat → Bool} {rev : List Text} {k : Nat} :
    (Disk.mkdirAll faults rev k d).1.WellFormed := by
  induction rev with
  | nil => exact h
  | cons s rev ih =>
    unfold Disk.mkdirAll
    split
    · exact h
    · exact h
    split
    · rename_i d' k' e heq
      rw [heq] at ih
      exact ih
    · rename_i d' k' heq
      rw [heq] at ih
      have hm := ih.mkdir (faults k') (s :: rev).reverse
      split <;> rename_i hmk <;> rw [hmk] at hm <;> exact hm

end

/-- There is nothing to do for `os.MkdirAll` where the path leads to a directory. -/
theorem mkdirAll_of_leads {faults : Nat → Bool} {k : Nat} (h : Leads d p q) :
    Disk.mkdirAll faults p.reverse k d = (d, k, none) := by
  cases hp : p.reverse with
  | nil => rfl
  | cons s rev =>
    have hstat : d.stat (s :: rev).reverse = .ok .dir := by
      rw [← hp, reverse_reverse, stat, at?, h.walk]
      simp only [h.dir]
    unfold Disk.mkdirAll
    rw [hstat]

end WellFormed

/-! ## Adding to a disk -/

/-- The paths along a relative path at which there is nothing. -/
def missing (d : Disk) : List Text → List Text → List (List Text)
  | _, [] => []
  | cur, s :: rest =>
    (if d.tree (cur ++ [s]) = none then [cur ++ [s]] else []) ++ d.missing (cur ++ [s]) rest

/-- Between two disks nothing was removed, only paths in `new` were added, none of them a link, and
only the bytes of inodes in `inos` were changed. -/
structure Adds (d d' : Disk) (new : List (List Text)) (inos : Nat → Prop) : Prop where
  kept : ∀ p n, d.tree p = some n → d'.tree p = some n
  added : ∀ p, d'.tree p ≠ d.tree p → p ∈ new
  noLink : ∀ p a t, d'.tree p = some (.link a t) → d.tree p = some (.link a t)
  newFile : ∀ p i, d'.tree p = some (.file i) → d.tree p = some (.file i) ∨ d.nextIno ≤ i
  data : ∀ i, d'.data i ≠ d.data i → inos i
  nextIno : d.nextIno ≤ d'.nextIno

section Adds

variable {d d' d'' : Disk} {new new' : List (List Text)} {inos inos' : Nat → Prop}
  {cur p q rel pre : List Text} {follow : Bool}

theorem length_missing_le (d : Disk) (cur rel : List Text) : (d.missing cur rel).length ≤ rel.length := by
  induction rel generalizing cur with
  | nil => exact le_refl _
  | cons s rest ih =>
    have := ih (cur ++ [s])
    rw [missing, length_append, length_cons]
    split
    · rw [length_singleton]
      omega
    · rw [length_nil]
      omega

theorem mem_missing (hne : pre ≠ []) (hpre : pre <+: rel) (hnone : d.tree (cur ++ pre) = none) :
    cur ++ pre ∈ d.missing cur rel := by
  induction rel generalizing cur pre with
  | nil => exact absurd (prefix_nil.mp hpre) hne
  | cons s rest ih =>
    cases pre with
    | nil => exact absurd rfl hne
    | cons s' pre =>
      obtain ⟨rfl, hpre'⟩ := cons_prefix_cons.mp hpre
      rw [missing, mem_append]
      by_cases hnil : pre = []
      · subst hnil
        exact .inl (by rw [if_pos hnone]; exact mem_singleton_self _)
      · refine .inr ?_
        have hassoc : cur ++ s' :: pre = cur ++ [s'] ++ pre := by rw [append_assoc]; rfl
        rw [hassoc] at hnone ⊢
        exact ih hnil hpre' hnone

/-- What is missing was named on the way. -/
theorem of_mem_missing (h : p ∈ d.missing cur rel) :
    ∃ pre, pre ≠ [] ∧ pre <+: rel ∧ p = cur ++ pre ∧ d.tree p = none := by
  induction rel generalizing cur with
  | nil => exact absurd h (by simp [missing])
  | cons s rest ih =>
    rcases mem_append.mp h with h | h
    · split at h
      · rename_i hnone
        rw [mem_singleton.mp h]
        exact ⟨[s], by simp, cons_prefix_cons.mpr ⟨rfl, nil_prefix⟩, rfl, hnone⟩
      · cases h
    · obtain ⟨pre, hne, hpre, rfl, hnone⟩ := ih h
      exact ⟨s :: pre, by simp, cons_prefix_cons.mpr ⟨rfl, hpre⟩,
        by rw [append_assoc]; rfl, hnone⟩

theorem Adds.refl (d : Disk) : Adds d d new inos :=
  ⟨fun _ _ h ↦ h, fun _ h ↦ absurd rfl h, fun _ _ _ h ↦ h, fun _ _ h ↦ .inl h,
    fun _ h ↦ absurd rfl h, le_refl _⟩

section

variable (h : Adds d d' new inos)

include h

theorem Adds.mono (hnew : ∀ p ∈ new, p ∈ new') (hinos : ∀ i, inos i → inos' i) :
    Adds d d' new' inos' where
  kept := h.kept
  added p hp := hnew p (h.added p hp)
  noLink := h.noLink
  newFile := h.newFile
  data i hi := hinos i (h.data i hi)
  nextIno := h.nextIno

theorem Adds.trans (h' : Adds d' d'' new inos) : Adds d d'' new inos where
  kept p n hp := h'.kept p n (h.kept p n hp)
  added p hp := by
    by_cases heq : d''.tree p = d'.tree p
    · exact h.added p (heq ▸ hp)
    · exact h'.added p heq
  noLink p a t hp := h.noLink p a t (h'.noLink p a t hp)
  newFile p i hp := by
    rcases h'.newFile p i hp with hp' | hle
    · exact h.newFile p i hp'
    · exact .inr (h.nextIno.trans hle)
  data i hi := by
    by_cases heq : d''.data i = d'.data i
    · exact h.data i (heq ▸ hi)
    · exact h'.data i heq
  nextIno := h.nextIno.trans h'.nextIno

/-- Only where there was nothing was anything added. -/
theorem Adds.eq_none (hne : d'.tree p ≠ d.tree p) : d.tree p = none := by
  cases hp : d.tree p with
  | none => rfl
  | some n => exact absurd ((h.kept p n hp).trans hp.symm) hne

theorem Adds.noLinks (hno : NoLinks d cur rel) : NoLinks d' cur rel :=
  fun pre hpre a t hl ↦ hno pre hpre a t (h.noLink _ a t hl)

theorem Adds.leads (hl : Leads d p q) : Leads d' p q :=
  ⟨walk_of_kept h.kept hl.walk hl.dir, h.kept q .dir hl.dir⟩

end

/-- A path below a directory, with no links on it, leads to the path as it is written. -/
theorem Leads.eq_of_walk (h : Leads d p q) (hrel : rel ≠ []) (hplain : ∀ s ∈ rel, Plain s)
    (hno : NoLinks d q rel) {r : List Text} (hw : d.walk follow maxLinks [] (p ++ rel) = .ok r) :
    r = q ++ rel := by
  obtain ⟨m, hm⟩ := walk_append hrel h.walk h.dir
  exact Disk.eq_of_walk hplain hno (hm ▸ hw)

theorem adds_put {n : Node} (hnone : d.tree p = none) (hmem : p ∈ new)
    (hlink : ∀ a t, n ≠ .link a t) (hfile : ∀ i, n = .file i → d.nextIno ≤ i) :
    Adds d (d.put p n) new inos where
  kept q m hq := by
    simp only [put]
    rw [if_neg fun heq ↦ by rw [heq, hnone] at hq; exact absurd hq (by simp), hq]
  added q hq := by
    by_cases heq : q = p
    · exact heq ▸ hmem
    · exact absurd (if_neg heq) hq
  noLink q a t hq := by
    simp only [put] at hq
    split at hq
    · exact absurd (Option.some_inj.mp hq) (hlink a t)
    · exact hq
  newFile q i hq := by
    simp only [put] at hq
    split at hq
    · exact .inr (hfile i (Option.some_inj.mp hq))
    · exact .inl hq
  data _ hi := absurd rfl hi
  nextIno := le_refl _

theorem adds_write {i : Nat} (bytes : List UInt8) (hi : inos i) : Adds d (d.write i bytes) new inos where
  kept _ _ h := h
  added _ h := absurd rfl h
  noLink _ _ _ h := h
  newFile _ _ h := .inl h
  data j hj := by
    by_cases heq : j = i
    · exact heq ▸ hi
    · exact absurd (if_neg heq) hj
  nextIno := le_refl _

theorem adds_mkdir (h : Leads d p q) (hrel : rel ≠ []) (hplain : ∀ s ∈ rel, Plain s)
    (hno : NoLinks d q rel) (fault : Bool) :
    Adds d (d.mkdir fault (p ++ rel)).1 (d.missing q rel) inos := by
  unfold mkdir
  split
  · exact Adds.refl d
  rename_i r hw
  split
  · exact Adds.refl d
  rename_i hnone
  split
  · exact Adds.refl d
  · obtain rfl := h.eq_of_walk hrel hplain hno hw
    exact adds_put (not_not.mp hnone) (mem_missing hrel prefix_rfl (not_not.mp hnone))
      (by simp) (by simp)

/-- What is missing later was missing before. -/
theorem Adds.missing_subset (h : Adds d d' new inos) (hp : p ∈ d'.missing cur rel) :
    p ∈ d.missing cur rel := by
  obtain ⟨pre, hne, hpre, rfl, hnone⟩ := of_mem_missing hp
  refine mem_missing hne hpre ?_
  cases hd : d.tree (cur ++ pre) with
  | none => rfl
  | some n => exact absurd (h.kept _ n hd) (by simp [hnone])

theorem missing_prefix_subset (hpre : pre <+: rel) (hp : p ∈ d.missing cur pre) :
    p ∈ d.missing cur rel := by
  obtain ⟨q, hne, hq, rfl, hnone⟩ := of_mem_missing hp
  exact mem_missing hne (hq.trans hpre) hnone

/-- **`os.MkdirAll` below a directory**, along a path with no links, makes directories along that
path only. -/
theorem adds_mkdirAll {faults : Nat → Bool} {rev : List Text} {k : Nat} (h : Leads d p q)
    (hplain : ∀ s ∈ rev, Plain s) (hno : NoLinks d q rev.reverse) :
    Adds d (mkdirAll faults (rev ++ p.reverse) k d).1 (d.missing q rev.reverse) inos := by
  induction rev with
  | nil =>
    rw [nil_append, mkdirAll_of_leads h]
    exact Adds.refl d
  | cons s rev ih =>
    have hpath : (s :: (rev ++ p.reverse)).reverse = p ++ (s :: rev).reverse := by simp
    have hpre : rev.reverse <+: (s :: rev).reverse := by
      rw [reverse_cons]
      exact prefix_append _ _
    have hrec := ih (fun t ht ↦ hplain t (mem_cons_of_mem _ ht)) (hno.of_prefix hpre)
    have hall := hrec.mono (fun _ ↦ missing_prefix_subset hpre) fun _ hi ↦ hi
    rw [cons_append]
    unfold mkdirAll
    split
    · exact Adds.refl d
    · exact Adds.refl d
    split
    · rename_i d' k' e heq
      rw [heq] at hall
      exact hall
    rename_i d' k' heq
    rw [heq] at hall
    rw [hpath]
    have hmk : Adds d' (d'.mkdir (faults k') (p ++ (s :: rev).reverse)).1
        (d.missing q (s :: rev).reverse) inos :=
      (adds_mkdir (hall.leads h) (by simp)
        (fun t ht ↦ hplain t (mem_reverse.mp ht)) (hall.noLinks hno) _).mono
        (fun _ ↦ hall.missing_subset) fun _ hi ↦ hi
    split
    · rename_i d'' hres
      rw [hres] at hmk
      exact hall.trans hmk
    · rename_i d'' e hres
      rw [hres] at hmk
      exact hall.trans hmk

/-- Opening a file below a directory, along a path with no links, makes or cuts that file. -/
theorem adds_openTrunc (h : Leads d p q) (hrel : rel ≠ []) (hplain : ∀ s ∈ rel, Plain s)
    (hno : NoLinks d q rel) {fault : Bool} {i : Nat}
    (hinos : ∀ i, d.nextIno ≤ i ∨ d.tree (q ++ rel) = some (.file i) → inos i)
    (ho : d.openTrunc fault (p ++ rel) = .ok (d', i)) :
    Adds d d' (d.missing q rel) inos ∧ inos i := by
  revert ho
  fun_cases openTrunc d fault (p ++ rel) <;> rintro ⟨⟩
  next hw _ hnone =>
    obtain rfl := h.eq_of_walk hrel hplain hno hw
    have hi : inos d.nextIno := hinos _ (.inl (le_refl _))
    have hput : Adds d (d.put (q ++ rel) (.file d.nextIno)) (d.missing q rel) inos :=
      adds_put hnone (mem_missing hrel prefix_rfl hnone) (by simp)
        fun j hj ↦ (Node.file.inj hj).le
    have hbump : Adds (d.put (q ++ rel) (.file d.nextIno))
        { d.put (q ++ rel) (.file d.nextIno) with nextIno := d.nextIno + 1 } (d.missing q rel)
        inos :=
      ⟨fun _ _ h ↦ h, fun _ h ↦ absurd rfl h, fun _ _ _ h ↦ h, fun _ _ h ↦ .inl h,
        fun _ h ↦ absurd rfl h, Nat.le_succ _⟩
    exact ⟨(hput.trans hbump).trans (adds_write [] hi), hi⟩
  next hw _ hfile =>
    obtain rfl := h.eq_of_walk hrel hplain hno hw
    have hi : inos i := hinos _ (.inr hfile)
    exact ⟨adds_write [] hi, hi⟩

end Adds

end Disk
