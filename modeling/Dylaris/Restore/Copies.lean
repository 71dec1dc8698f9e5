import Dylaris.Restore.Model

/-!
# Where the server is

`Whole` says of a tree that it is the server, old or restored; `HasArchives` that the backups kept in
the old one are in it.  The cleanup goes one level into every directory it does not take, so a
directory in there with the name of a leftover does not count: it is the remains of a sub-server's
restore, or passes for one.

`Somewhere P s holder` is how the invariant of the machine speaks of such a tree: it is in `holder`,
or out of reach of everything but time — under a name that no cleanup takes and that is not the
server's own.  The rest of the file is what each operation on the disk does to that.
-/

set_option autoImplicit false

namespace Dylaris.Restore

open Option Shelf State

/-! ## The server, old or restored -/

/-- What is at the path is not in a directory that the cleanup takes, and is not one. -/
def Lasting (p : Path) (nd : Node) : Prop :=
  ∀ h, p.head? = some h → cleanupMatches h = true → p = [h] ∧ nd ≠ .dir

/-- `t` is the tree `r`: but for the entries named in `apart`, nothing is in `t` that is not in `r`,
and nothing is missing that the cleanup did not take. -/
structure IsCopy (apart : List String) (r t : Tree) : Prop where
  sound : ∀ p nd, t p = some nd → (∃ h ∈ apart, p.head? = some h) ∨ r p = some nd
  complete : ∀ p nd, r p = some nd → (∀ h ∈ apart, p.head? ≠ some h) → Lasting p nd →
    t p = some nd

/-- The complete restored tree.  The entries that belong to the node are not the archive's. -/
def IsRestored (cfg : Config) (t : Tree) : Prop :=
  ∃ k r, extractAll (cfg.stagePath k) cfg.archive = some r ∧ IsCopy nodeOwnedRootEntries r t

/-- The complete old tree, or the complete restored one. -/
def Whole (cfg : Config) (old t : Tree) : Prop := IsCopy [] old t ∨ IsRestored cfg t

/-- The backup archives of the old tree are there, byte for byte. -/
def HasArchives (old t : Tree) : Prop := ∀ p, p.head? = some backupDirName → t p = old p

/-- Whatever is in the tree is below an entry of it. -/
def Rooted (t : Tree) : Prop := ∀ h p nd, p.head? = some h → t p = some nd → (t [h]).isSome

theorem IsCopy.refl (apart : List String) (t : Tree) : IsCopy apart t t :=
  ⟨fun _ _ h ↦ .inr h, fun _ _ h _ _ ↦ h⟩

variable {t : Tree} {m : String}

/-- The cleanup inside of a copy. -/
theorem IsCopy.cleaned {apart : List String} {r : Tree} (h : IsCopy apart r t)
    (hm : cleanupMatches m = true) (hdir : t [m] = some .dir) (left : Removal) :
    IsCopy apart r (t.removeEntry m left) where
  sound p nd hp := h.sound p nd (Tree.removeEntry_sub hp)
  complete p nd hr hapart hlast := by
    by_cases hhead : p.head? = some m
    · -- The entry itself is a directory here, so it is one in `r`: the path does not last.
      obtain ⟨rfl, hnd⟩ := hlast m hhead hm
      rcases h.sound _ _ hdir with ⟨a, ha, hhead'⟩ | hrdir
      · exact absurd hhead' (hapart a ha)
      · rw [hr, some_inj] at hrdir
        exact absurd hrdir hnd
    · rw [Tree.removeEntry_of_ne hhead]
      exact h.complete p nd hr hapart hlast

variable {t' : Tree}

/-- A change to the entries that stand apart. -/
theorem IsCopy.of_apart {apart : List String} {r : Tree} (h : IsCopy apart r t)
    (heq : ∀ p, (∀ a ∈ apart, p.head? ≠ some a) → t' p = t p) : IsCopy apart r t' where
  sound p nd hp := by
    by_cases hapart : ∃ a ∈ apart, p.head? = some a
    · exact .inl hapart
    · push Not at hapart
      rw [heq p hapart] at hp
      exact h.sound p nd hp
  complete p nd hr hapart hlast := by
    rw [heq p hapart]
    exact h.complete p nd hr hapart hlast

variable {cfg : Config}

theorem IsRestored.cleaned (h : IsRestored cfg t)
    (hm : cleanupMatches m = true) (hdir : t [m] = some .dir) (left : Removal) :
    IsRestored cfg (t.removeEntry m left) := by
  obtain ⟨k, r, hr, hcopy⟩ := h
  exact ⟨k, r, hr, hcopy.cleaned hm hdir left⟩

variable {name : String}

theorem IsRestored.of_nodeOwned
    (h : IsRestored cfg t) (hname : name ∈ nodeOwnedRootEntries)
    (heq : ∀ p, p.head? ≠ some name → t' p = t p) : IsRestored cfg t' := by
  obtain ⟨k, r, hr, hcopy⟩ := h
  exact ⟨k, r, hr, hcopy.of_apart fun p hp ↦ heq p (hp name hname)⟩

variable {old : Tree}

theorem Whole.cleaned (h : Whole cfg old t)
    (hm : cleanupMatches m = true) (hdir : t [m] = some .dir) (left : Removal) :
    Whole cfg old (t.removeEntry m left) := by
  rcases h with h | h
  · exact .inl (h.cleaned hm hdir left)
  · exact .inr (h.cleaned hm hdir left)

theorem HasArchives.of_ne (h : HasArchives old t)
    (hname : backupDirName ≠ name) (heq : ∀ p, p.head? ≠ some name → t' p = t p) :
    HasArchives old t' := by
  intro p hp
  rw [heq p (by rw [hp]; exact fun hn ↦ hname (Option.some.inj hn))]
  exact h p hp

theorem HasArchives.cleaned (h : HasArchives old t)
    (hm : cleanupMatches m = true) (left : Removal) : HasArchives old (t.removeEntry m left) := by
  refine h.of_ne ?_ fun p hp ↦ Tree.removeEntry_of_ne hp
  rintro rfl
  cases hm

/-! ## Where it is -/

/-- A tree with `P` is out of reach: under a name that the cleanup does not take, and not the
server's. -/
def Aside (cfg : Config) (P : Tree → Prop) (s : State) : Prop :=
  ∃ n d, s.dir n = some d ∧ cleanupMatches n = false ∧ n ≠ cfg.uuid ∧ P d.tree

/-- A tree with `P` is out of reach, or in `holder`. -/
def Somewhere (cfg : Config) (P : Tree → Prop) (s : State) (holder : Option String) : Prop :=
  Aside cfg P s ∨ ∃ n d, holder = some n ∧ s.dir n = some d ∧ P d.tree

section

variable {cfg : Config} {P : Tree → Prop} {s s' : State} {holder : Option String} {n : String}

section

variable (h : Somewhere cfg P s holder)

include h

/-- When the holder is nothing, or is not there, the tree is out of reach. -/
theorem Somewhere.aside
    (hnone : ∀ n, holder = some n → s.dir n = none) : Aside cfg P s := by
  rcases h with h | ⟨n, d, hn, hd, -⟩
  · exact h
  · rw [hnone n hn] at hd
    cases hd

/-- A holder that can only be the server's directory. -/
theorem Somewhere.toServer
    (hserver : ∀ n, holder = some n → n = cfg.uuid) : Somewhere cfg P s (some cfg.uuid) := by
  rcases h with h | ⟨n, d, hn, hd, hP⟩
  · exact .inl h
  · exact .inr ⟨n, d, by rw [hserver n hn], hd, hP⟩

/-- What a step does to the directories out of reach, and to the holder, decides. -/
theorem Somewhere.imp {holder' : Option String}
    (haside : Aside cfg P s → Aside cfg P s')
    (hold : ∀ n d, holder = some n → s.dir n = some d → P d.tree →
      ∃ n' d', holder' = some n' ∧ s'.dir n' = some d' ∧ P d'.tree) :
    Somewhere cfg P s' holder' := by
  rcases h with h | ⟨n, d, hn, hd, hP⟩
  · exact .inl (haside h)
  · exact .inr (hold n d hn hd hP)

end

/-- A step that leaves every directory but one alone, that one being the server's or one the cleanup
takes, leaves alone what is out of reach. -/
theorem Aside.of_ne (h : Aside cfg P s) (hn : cleanupMatches n = true ∨ n = cfg.uuid)
    (hdir : ∀ m, m ≠ n → s'.dir m = s.dir m) : Aside cfg P s' := by
  obtain ⟨m, d, hd, hsafe, hne, hP⟩ := h
  refine ⟨m, d, ?_, hsafe, hne, hP⟩
  rw [hdir m, hd]
  rintro rfl
  rcases hn with hn | hn
  · rw [hsafe] at hn
    cases hn
  · exact hne hn

/-- A step that leaves the holder and what is out of reach alone. -/
theorem Somewhere.of_ne (h : Somewhere cfg P s holder)
    (hn : cleanupMatches n = true ∨ n = cfg.uuid) (hholder : holder ≠ some n)
    (hdir : ∀ m, m ≠ n → s'.dir m = s.dir m) : Somewhere cfg P s' holder := by
  refine h.imp (fun h ↦ h.of_ne hn hdir) fun m d hm hd hP ↦ ⟨m, d, hm, ?_, hP⟩
  rw [hdir m, hd]
  rintro rfl
  exact hholder hm

/-! ### The operations -/

variable {m : String}

theorem dir_removeAll_of_ne (left : Removal) (h : m ≠ n) :
    (s.removeAll n left).dir m = s.dir m := by
  cases left with
  | complete =>
    rw [dir, removeAll, get_remove, if_neg h]
    rfl
  | partly gone =>
    rw [dir, removeAll, get_modify, if_neg h]
    rfl

variable {d : Dir}

theorem dir_setDir_self (h : s.dir n = some d) (d' : Dir) : (s.setDir n d').dir n = some d' := by
  have hget : Shelf.get s.dirs n = some d := h
  rw [dir, setDir, get_modify, if_pos rfl, hget, map_some]

theorem dir_setDir_of_ne (d : Dir) (h : m ≠ n) : (s.setDir n d).dir m = s.dir m := by
  rw [dir, setDir, get_modify, if_neg h]
  rfl

theorem dir_removeEntry_self (h : s.dir n = some d) (name : String) (left : Removal) :
    ∃ mtime, (s.removeEntry n name left).dir n = some ⟨d.tree.removeEntry name left, mtime⟩ := by
  have hget : Shelf.get s.dirs n = some d := h
  refine ⟨if (d.tree [name]).isSome then s.now else d.mtime, ?_⟩
  rw [dir, removeEntry, get_modify, if_pos rfl, hget, map_some]

theorem dir_removeEntry_of_ne (left : Removal) (h : m ≠ n) :
    (s.removeEntry n name left).dir m = s.dir m := by
  rw [dir, removeEntry, get_modify, if_neg h]
  rfl

theorem dir_graft_self (h : s.dir n = some d) (name : String) (source : Tree) :
    (s.graft n name source).dir n = some ⟨d.tree.graft name source, s.now⟩ := by
  have hget : Shelf.get s.dirs n = some d := h
  rw [dir, graft, get_modify, if_pos rfl, hget, map_some]

theorem dir_graft_of_ne (source : Tree) (h : m ≠ n) :
    (s.graft n name source).dir m = s.dir m := by
  rw [dir, graft, get_modify, if_neg h]
  rfl

variable {a b : String}

section

variable (h : s.rename a b = some s')

include h

/-- **What a rename does**, to every name and to the rest of the state. -/
theorem rename_eq_some :
    ∃ d, s.dir a = some d ∧ s.dir b = none ∧ s' = { s with dirs := s'.dirs } ∧
      ∀ n, s'.dir n = if n = b then some d else if n = a then none else s.dir n := by
  obtain ⟨dirs, hdirs, rfl⟩ := map_eq_some_iff.mp h
  obtain ⟨d, ha, hb, hget⟩ := rename_eq_some hdirs
  exact ⟨d, ha, hb, rfl, hget⟩

theorem dir_rename_of_ne (ha : n ≠ a) (hb : n ≠ b) :
    s'.dir n = s.dir n := by
  obtain ⟨d, -, -, -, hget⟩ := rename_eq_some h
  rw [hget, if_neg hb, if_neg ha]

theorem ownStages_rename : s'.ownStages = s.ownStages := by
  obtain ⟨d, -, -, hrest, -⟩ := rename_eq_some h
  rw [hrest]

theorem deleted_rename : s'.deleted = s.deleted := by
  obtain ⟨d, -, -, hrest, -⟩ := rename_eq_some h
  rw [hrest]

end

theorem deleted_removeAll (left : Removal) : (s.removeAll n left).deleted = s.deleted := by
  cases left <;> rfl

/-- A rename of the server's directory, or of one that the cleanup takes. -/
theorem Aside.rename (h : Aside cfg P s)
    (ha : cleanupMatches a = true ∨ a = cfg.uuid) (hs : s.rename a b = some s') :
    Aside cfg P s' := by
  obtain ⟨m, d, hd, hsafe, hne, hP⟩ := h
  obtain ⟨x, -, hb, -, hget⟩ := rename_eq_some hs
  have hmb : m ≠ b := by
    rintro rfl
    rw [hb] at hd
    cases hd
  have hma : m ≠ a := by
    rintro rfl
    rcases ha with ha | ha
    · rw [hsafe] at ha
      cases ha
    · exact hne ha
  exact ⟨m, d, by rw [hget, if_neg hmb, if_neg hma, hd], hsafe, hne, hP⟩

/-- The holder is renamed. -/
theorem Somewhere.rename (h : Somewhere cfg P s (some a))
    (ha : cleanupMatches a = true ∨ a = cfg.uuid) (hs : s.rename a b = some s') :
    Somewhere cfg P s' (some b) := by
  refine h.imp (fun h ↦ h.rename ha hs) ?_
  rintro n d hn hd hP
  cases hn
  obtain ⟨x, hx, -, -, hget⟩ := rename_eq_some hs
  rw [hx, some_inj] at hd
  exact ⟨b, d, rfl, by rw [hget, if_pos rfl, hd], hP⟩

/-- Another directory than the holder is renamed. -/
theorem Somewhere.rename_of_ne (h : Somewhere cfg P s holder)
    (ha : cleanupMatches a = true ∨ a = cfg.uuid) (hholder : holder ≠ some a)
    (hs : s.rename a b = some s') : Somewhere cfg P s' holder := by
  refine h.imp (fun h ↦ h.rename ha hs) fun n d hn hd hP ↦ ⟨n, d, hn, ?_, hP⟩
  obtain ⟨x, -, hb, -, hget⟩ := rename_eq_some hs
  have hnb : n ≠ b := by
    rintro rfl
    rw [hb] at hd
    cases hd
  have hna : n ≠ a := by
    rintro rfl
    exact hholder hn
  rw [hget, if_neg hnb, if_neg hna, hd]

/-- What a directory holds is cleaned from the inside. -/
theorem dir_cleanupWithin {shared : Bool} {mtime : Int} {left : Removal}
    (h : cleanupWithin s n m shared mtime left = some s')
    (hP : ∀ t, P t → cleanupMatches m = true → t [m] = some .dir → P (t.removeEntry m left))
    {n' : String} (hd : s.dir n' = some d) (hPd : P d.tree) :
    ∃ d', s'.dir n' = some d' ∧ P d'.tree := by
  obtain ⟨x, hx, h⟩ := bind_eq_some_iff.mp h
  split at h
  · rename_i hcond
    cases h
    by_cases hn : n' = n
    · subst hn
      rw [hx, some_inj] at hd
      obtain ⟨mtime, hself⟩ := dir_removeEntry_self hx m left
      subst hd
      exact ⟨_, hself, hP _ hPd (cleanupMatches_of_removes hcond.2.2) hcond.2.1⟩
    · exact ⟨d, by rw [dir_removeEntry_of_ne left hn, hd], hPd⟩
  · cases h

end

end Dylaris.Restore
