import Dylaris.Storage.Fence

/-!
# No write is lost in a storage move

At every moment one path is the server's *home*: what was written is there, and every writer that knows
a path knows that one.  A move makes the copy its home with the command that points the key at it, and
touches the old tree only afterwards.

The key says which path the home is, and a lookup that cannot read it goes by the trees it finds.  With a
second tree about, which a move may have left, that is a guess, and the guess may be wrong; and a copy
that passes over an entry is not the whole tree (`not_no_write_lost`).  The result is about the runs
without either.
-/

set_option autoImplicit false

namespace Dylaris.Storage

open Machine List Option Function

/-! ## Lookups that do not guess -/

/-- A scan of the disks finds one tree at most, and the one the key names. -/
def Node.SoleCopy (d : Disks) (s : Node) : Prop :=
  (∀ p ∈ d.paths, ∀ q ∈ d.paths, s.isDir p = true → s.isDir q = true → p = q) ∧
    ∀ k ∈ s.named d, s.isDir k = true

instance (d : Disks) (s : Node) : Decidable (s.SoleCopy d) := inferInstanceAs (Decidable (_ ∧ _))

/-- A lookup that scans the disks does not have to guess. -/
def noGuess (d : Disks) (s : Node) : Label → Prop
  | .scan _ | .resolveScan => s.SoleCopy d
  | _ => True

instance (d : Disks) (s : Node) (a : Label) : Decidable (noGuess d s a) := by
  cases a <;> unfold noGuess <;> infer_instance

/-- No lookup guesses, the walk of a copy passes over no entry, and the node does not die. -/
def keepsAll (d : Disks) (s : Node) : Event → Prop
  | .act a => noGuess d s a
  | .passOver | .die _ => False

instance (d : Disks) (s : Node) : (a : Event) → Decidable (keepsAll d s a)
  | .act a => inferInstanceAs (Decidable (noGuess d s a))
  | .passOver | .die _ => isFalse id

/-! ## The home of the server -/

section Home

variable (d : Disks) (s : Node) (home : String)

/-- Every tree is at the home; where there is none, the home is where the first writer makes one. -/
def Sole : Prop :=
  (∀ p ∈ d.paths, s.isDir p = true → p = home) ∧
    ((∀ p ∈ d.paths, s.isDir p = false) → home = d.first)

/-- The home can be told: the key names it, or the trees leave no choice. -/
def Known : Prop := s.named d = some home ∨ s.named d = none ∧ Sole d s home

/-- There are two trees, and no key. -/
def Unknown : Prop := s.named d = none ∧
  ∃ p ∈ d.paths, ∃ q ∈ d.paths, p ≠ q ∧ s.isDir p = true ∧ s.isDir q = true

/-- A move copies from the home, to another path. -/
def From (src dst : String) : Prop := src = home ∧ dst ≠ home ∧ dst ∈ d.paths

/-- What is true of the move in each of its phases. -/
def MoveOk : Prop :=
  match s.move with
  | none | some .releasing | some .closing => True
  | some (.scanning dst) => dst ∈ d.paths
  | some (.fencing src dst) =>
    From d home src dst ∧ Known d s home ∧ (s.named d = none → home ∈ d.paths ∧ s.isDir home = true)
  | some (.clearing src dst) | some (.checking src dst) | some (.opening src dst _) =>
    From d home src dst
  | some (.copying src dst _ todo) =>
    From d home src dst ∧ ∀ f, f ∉ todo → content (s.trees dst) f = content (s.trees src) f
  | some (.recording src dst) =>
    From d home src dst ∧ ∀ f, content (s.trees dst) f = content (s.trees src) f
  | some (.deleting src _) => src ≠ home

/-- The path at which a writer writes, or which it is about to record. -/
def Writer.path : Writer → Option String
  | .ready p | .recording p => some p
  | _ => none

/-- Everything that has been written is at the home. -/
structure Home : Prop where
  kept {f : String} {r : Option (List UInt8)} : s.reported f = some r → content (s.trees home) f = r
  writer {w : Writer} {p : String} : w ∈ s.parties → w.path = some p → p = home ∧ Known d s home
  move : MoveOk d s home
  told : s.moving = none → Known d s home ∨ Unknown d s
  busy : s.moving.isSome = true →
    s.named d = some home ∨ s.named d = none ∧ home ∈ d.paths ∧ s.isDir home = true

end Home

/-! ## Trees -/

section Trees

variable {tree : Option Files} {f g : String} {r : Option (List UInt8)}

theorem content_writeFile : content (writeFile tree f r) g = if g = f then r else content tree g := by
  cases r with
  | some c =>
    cases tree with
    | none =>
      rw [writeFile, content, bind_some, Shelf.get_put]
      split <;> rfl
    | some files =>
      rw [writeFile, content, bind_some, Shelf.get_put]
      rfl
  | none =>
    cases tree with
    | none =>
      rw [writeFile, content, content]
      simp
    | some files =>
      rw [writeFile, map_some, content, bind_some, Shelf.get_remove]
      rfl

theorem isSome_writeFile (h : tree.isSome = true) : (writeFile tree f r).isSome = true := by
  cases r with
  | some c => rfl
  | none => rwa [writeFile, isSome_map]

theorem content_of_not_mem {files : Files} (h : f ∉ files.map Prod.fst) :
    content (some files) f = none := by
  rw [content, bind_some, Shelf.get, map_eq_none_iff, Table.lookup_eq_none_iff]
  intro file hfile hlabel
  exact h (mem_map.mpr ⟨file, hfile, some_inj.mp hlabel⟩)

end Trees

section Lemmas

variable {d : Disks} {s s' : Node} {home : String}

theorem mem_paths_of_named {k : String} (h : s.named d = some k) : k ∈ d.paths := by
  rw [Node.named, filter_eq_some_iff] at h
  simpa using h.2

theorem isDir_setTree {p q : String} {tree : Option Files} :
    (s.setTree p tree).isDir q = if q = p then tree.isSome else s.isDir q := by
  rw [Node.isDir, Node.setTree]
  dsimp only
  rw [update_apply]
  split <;> rfl

/-- Where the home can be told, the key names no other path. -/
theorem Known.eq_of_named {k : String} (h : Known d s home) (hk : s.named d = some k) : k = home := by
  rcases h with h | ⟨h, -⟩
  · exact some_inj.mp (hk.symm.trans h)
  · rw [hk] at h
    cases h

/-- The key is made to name the home. -/
theorem Known.record (h : Known d s home) (htrees : s'.trees = s.trees) (hkey : s'.key = some home) :
    Known d s' home := by
  have hnamed : s'.named d = if d.paths.contains home then some home else none := by
    rw [Node.named, hkey, filter_some]
  by_cases hmem : home ∈ d.paths
  · exact .inl (by rw [hnamed, if_pos (contains_iff_mem.mpr hmem)])
  · refine .inr ⟨by rw [hnamed, if_neg (by simpa using hmem)], ?_⟩
    rcases h with h | ⟨-, h⟩
    · exact absurd (mem_paths_of_named h) hmem
    · rw [Sole]
      simp only [Node.isDir, htrees]
      exact h

/-- A write at the home. -/
theorem Known.write (h : Known d s home) {f : String} {r : Option (List UInt8)} {ok : Bool} :
    Known d (s.write home f r ok) home := by
  have hdir : ∀ {p : String}, (s.write home f r ok).isDir p =
      if p = home then (writeFile (s.trees home) f r).isSome else s.isDir p := isDir_setTree
  rcases h with h | ⟨h, hsole, hfirst⟩
  · exact .inl h
  · refine .inr ⟨h, ?_, ?_⟩
    · intro p hp hp'
      by_contra hne
      rw [hdir, if_neg hne] at hp'
      exact hne (hsole p hp hp')
    · intro hnone
      refine hfirst fun p hp ↦ ?_
      have hp' := hnone p hp
      rw [hdir] at hp'
      split at hp'
      · rename_i heq
        rw [heq, ← Bool.not_eq_true]
        intro hdir'
        rw [isSome_writeFile hdir'] at hp'
        cases hp'
      · exact hp'

theorem not_unknown_of_soleCopy (h : s.SoleCopy d) : ¬Unknown d s := by
  rintro ⟨-, p, hp, q, hq, hne, hpd, hqd⟩
  exact hne (h.1 p hp q hq hpd hqd)

/-- **A scan that does not guess finds the home.** -/
theorem Known.found (h : Known d s home) (hsole : s.SoleCopy d) :
    (s.found d).getD d.first = home := by
  cases hfound : s.found d with
  | some p =>
    have hp : p ∈ d.paths := mem_of_find?_eq_some hfound
    have hpd : s.isDir p = true := find?_some hfound
    rcases h with h | ⟨-, h, -⟩
    · exact hsole.1 p hp home (mem_paths_of_named h) hpd (hsole.2 home h)
    · exact h p hp hpd
  | none =>
    have hnone : ∀ p ∈ d.paths, s.isDir p = false := by
      intro p hp
      simpa using find?_eq_none.mp hfound p hp
    rcases h with h | ⟨-, -, h⟩
    · have := hnone home (mem_paths_of_named h)
      rw [hsole.2 home h] at this
      cases this
    · exact (h hnone).symm

end Lemmas

/-! ## The steps -/

namespace Home

variable {d : Disks} {s s' : Node} {home : String} {i : Nat} {w : Writer}

section

variable (h : Home d s home)

include h

/-- The home can be told while a scan that does not guess is made. -/
theorem known (hmoving : s.moving = none) (hsole : s.SoleCopy d) :
    Known d s home :=
  (h.told hmoving).resolve_right (not_unknown_of_soleCopy hsole)

/-- A writer goes on: the path it comes to know is the home. -/
theorem setWriter {w' : Writer}
    (hw' : ∀ p, w'.path = some p → p = home ∧ Known d s home) : Home d (s.setWriter i w') home where
  kept := h.kept
  writer := by
    intro v p hv hp
    rcases mem_or_eq_of_mem_set hv with hv | rfl
    · exact h.writer hv hp
    · exact hw' p hp
  move := h.move
  told := h.told
  busy := h.busy

theorem hold (refuseMoving : Bool) : Home d (s.hold refuseMoving) home := by
  have hwriter : ∀ w : Writer, w.path = none → ∀ {v : Writer} {p : String},
      v ∈ s.parties ++ [w] → v.path = some p → p = home ∧ Known d s home := by
    intro w hw v p hv hp
    rcases mem_append.mp hv with hv | hv
    · exact h.writer hv hp
    · rw [mem_singleton.mp hv, hw] at hp
      cases hp
  rw [Node.hold]
  split
  · exact ⟨h.kept, hwriter _ rfl, h.move, h.told, h.busy⟩
  · exact ⟨h.kept, hwriter _ rfl, h.move, h.told, h.busy⟩

theorem getKey (hmoving : s.moving = none) (ok : Bool) :
    Home d (s.getKey d i ok) home := by
  refine h.setWriter fun p hp ↦ ?_
  split at hp
  · cases hp
  · rename_i val hval
    split at hp
    · rename_i hmem
      obtain rfl : val = p := some_inj.mp hp
      have hkey : s.key = some val := by
        rw [Node.got] at hval
        split at hval
        · exact (filter_eq_some_iff.mp hval).1
        · cases hval
      have hnamed : s.named d = some val := by
        rw [Node.named, hkey, filter_some, if_pos hmem]
      rcases h.told hmoving with hknown | hunknown
      · exact ⟨hknown.eq_of_named hnamed, hknown⟩
      · rw [hunknown.1] at hnamed
        cases hnamed
    · cases hp

theorem scan (hmoving : s.moving = none) (hsole : s.SoleCopy d) (keyed : Bool) :
    Home d (s.scan d i keyed) home := by
  have hknown := h.known hmoving hsole
  have hfound := hknown.found hsole
  refine h.setWriter fun p hp ↦ ⟨?_, hknown⟩
  cases hf : s.found d with
  | none =>
    rw [hf] at hp hfound
    cases hp
    exact hfound
  | some q =>
    rw [hf] at hp hfound
    dsimp only at hp
    split at hp
    · cases hp
      exact hfound
    · cases hp
      exact hfound

end

/-- The move of a state in which the fence does not stand. -/
theorem moveOk_congr (h : MoveOk d s home) (hfenced : (s.move.map Move.fenced).getD false = false)
    (hmove : s'.move = s.move) (hknown : Known d s home → Known d s' home)
    (hdir : s'.named d = none → s.named d = none ∧
      (s.isDir home = true → s'.isDir home = true)) : MoveOk d s' home := by
  rw [MoveOk, hmove]
  rw [MoveOk] at h
  cases hm : s.move with
  | none => trivial
  | some m =>
    rw [hm] at h hfenced
    cases m with
    | scanning dst => exact h
    | fencing src dst =>
      refine ⟨h.1, hknown h.2.1, fun hnone ↦ ?_⟩
      obtain ⟨hnone, hkeep⟩ := hdir hnone
      exact ⟨(h.2.2 hnone).1, hkeep (h.2.2 hnone).2⟩
    | closing => trivial
    | _ => cases hfenced

theorem setKey (h : Home d s home) (hf : Fenced s) (hw : s.parties[i]? = some (.recording home))
    (outcome : Outcome) : Home d (s.setKey i home outcome) home := by
  obtain ⟨-, hknown⟩ := h.writer (mem_of_getElem? hw) rfl
  have hmoving := hf.moving_eq_none hw (by simp) (by simp) rfl
  have hset : Home d (s.setWriter i (.ready home)) home := h.setWriter fun p hp ↦ by
    cases hp
    exact ⟨rfl, hknown⟩
  rw [Node.setKey]
  split
  · -- The key names the home now.
    have hknown' : ∀ {s' : Node}, s'.trees = s.trees → s'.key = some home → Known d s' home :=
      fun htrees hkey ↦ hknown.record htrees hkey
    refine ⟨hset.kept, ?_, ?_, fun _ ↦ .inl (hknown' rfl rfl), ?_⟩
    · intro v p hv hp
      exact ⟨(hset.writer hv hp).1, hknown' rfl rfl⟩
    · refine moveOk_congr (s := s) h.move ?_ rfl (fun _ ↦ hknown' rfl rfl) fun hnone ↦ ⟨?_, id⟩
      · rw [← hf.fence, hmoving]
        rfl
      · rcases hknown with hnamed | ⟨hnamed, -⟩
        · have hmem := mem_paths_of_named hnamed
          rw [Node.named, filter_some, if_pos (contains_iff_mem.mpr hmem)] at hnone
          cases hnone
        · exact hnamed
    · intro hsome
      have : s.moving.isSome = true := hsome
      rw [hmoving] at this
      cases this
  · exact hset

theorem write (h : Home d s home) (hf : Fenced s) (hw : s.parties[i]? = some (.ready home))
    (f : String) (result : Option (List UInt8)) (ok : Bool) :
    Home d (s.write home f result ok) home := by
  obtain ⟨-, hknown⟩ := h.writer (mem_of_getElem? hw) rfl
  have hmoving := hf.moving_eq_none hw (by simp) (by simp) rfl
  have htree : (s.write home f result ok).trees home = writeFile (s.trees home) f result :=
    update_self ..
  refine ⟨?_, ?_, ?_, fun _ ↦ .inl hknown.write, ?_⟩
  · intro g r hg
    rw [htree, content_writeFile]
    have hg' : Function.update s.reported f (if ok then some result else none) g = some r := hg
    rw [update_apply] at hg'
    split at hg'
    · split at hg'
      · rw [if_pos (by assumption)]
        exact some_inj.mp hg'
      · cases hg'
    · rw [if_neg (by assumption)]
      exact h.kept hg'
  · intro v p hv hp
    exact ⟨(h.writer hv hp).1, hknown.write⟩
  · refine moveOk_congr h.move ?_ rfl (fun _ ↦ hknown.write) fun hnone ↦ ⟨hnone, fun hdir ↦ ?_⟩
    · rw [← hf.fence, hmoving]
      rfl
    · rw [Node.isDir, htree]
      exact isSome_writeFile hdir
  · intro hsome
    have : s.moving.isSome = true := hsome
    rw [hmoving] at this
    cases this

/-! ### The move -/

/-- The move is refused, or goes on to its scan. -/
theorem setMove (h : Home d s home) (hmove : MoveOk d s' home) (hs' : s' = { s with move := s'.move }) :
    Home d s' home := by
  rw [hs'] at hmove ⊢
  exact ⟨h.kept, h.writer, hmove, h.told, h.busy⟩

variable {dst : String}

theorem resolved (h : Home d s home) (hknown : Known d s home)
    (hdir : s.named d = none → home ∈ d.paths ∧ s.isDir home = true)
    (hdst : dst ∈ d.paths) : Home d (s.resolved home dst) home := by
  refine h.setMove ?_ rfl
  rw [MoveOk, Node.resolved]
  dsimp only
  by_cases heq : home = dst
  · rw [if_pos heq]
    trivial
  · rw [if_neg heq]
    exact ⟨⟨rfl, Ne.symm heq, hdst⟩, hknown, hdir⟩

theorem resolve (h : Home d s home) (hmoving : s.moving = none) (target : String) (ok : Bool) :
    Home d (s.resolve d target ok) home := by
  rw [Node.resolve]
  split
  · rename_i htarget
    rw [contains_iff_mem] at htarget
    split
    · rename_i val hval
      obtain ⟨hgot, hmem⟩ := filter_eq_some_iff.mp hval
      have hkey : s.key = some val := by
        rw [Node.got] at hgot
        split at hgot
        · exact (filter_eq_some_iff.mp hgot).1
        · cases hgot
      have hnamed : s.named d = some val := by
        rw [Node.named, hkey, filter_some, if_pos hmem]
      rcases h.told hmoving with hknown | hunknown
      · obtain rfl := hknown.eq_of_named hnamed
        exact h.resolved hknown (by simp [hnamed]) htarget
      · rw [hunknown.1] at hnamed
        cases hnamed
    · exact h.setMove htarget rfl
  · exact h

theorem resolveScan (h : Home d s home) (hmoving : s.moving = none) (hsole : s.SoleCopy d)
    {target : String} (hmove : s.move = some (.scanning target)) :
    Home d (s.resolveScan d target) home := by
  have hknown := h.known hmoving hsole
  have hfound := hknown.found hsole
  have htarget : target ∈ d.paths := by
    have := h.move
    rw [MoveOk, hmove] at this
    exact this
  rw [Node.resolveScan]
  split
  · exact h.setMove trivial rfl
  · rename_i src hsrc
    split
    · exact h.setMove trivial rfl
    · rw [hsrc, getD_some] at hfound
      subst hfound
      exact h.resolved hknown
        (fun _ ↦ ⟨mem_of_find?_eq_some hsrc, find?_some hsrc⟩) htarget

variable {src : String}

theorem fence (h : Home d s home)
    (hmove : s.move = some (.fencing src dst)) : Home d (s.fence src dst) home := by
  have hok := h.move
  rw [MoveOk, hmove] at hok
  obtain ⟨hfrom, hknown, hdir⟩ := hok
  rw [Node.fence]
  split
  · exact h.setMove trivial rfl
  · refine ⟨h.kept, h.writer, hfrom, (by simp), fun _ ↦ ?_⟩
    rcases hknown with hnamed | ⟨hnamed, -⟩
    · exact .inl hnamed
    · exact .inr ⟨hnamed, hdir hnamed⟩

/-- While the fence stands, no writer knows a path. -/
theorem path_eq_none (hf : Fenced s) (hmoving : s.moving.isSome = true) (hw : w ∈ s.parties) :
    w.path = none := by
  obtain ⟨ch, hch⟩ := isSome_iff_exists.mp hmoving
  rcases hf.quiet hch w hw with rfl | rfl | hholds
  · rfl
  · rfl
  · cases w <;> first | rfl | cases hholds

variable {m : Move}

/-- Behind the fence the move changes a tree that is not the home. -/
theorem setTree (h : Home d s home) (hf : Fenced s) (hmoving : s.moving.isSome = true) {p : String}
    (hp : p ≠ home) {tree : Option Files}
    (hmove : MoveOk d ((s.setTree p tree).setMove m) home) :
    Home d ((s.setTree p tree).setMove m) home := by
  have htree : ((s.setTree p tree).setMove m).trees home = s.trees home :=
    update_of_ne (Ne.symm hp) ..
  refine ⟨?_, ?_, hmove, ?_, ?_⟩
  · intro f r hf
    rw [htree]
    exact h.kept hf
  · intro v q hv hq
    rw [path_eq_none hf hmoving hv] at hq
    cases hq
  · intro hnone
    have : s.moving = none := hnone
    rw [this] at hmoving
    cases hmoving
  · intro _
    rw [Node.isDir, htree]
    exact h.busy hmoving

/-- The phases that follow one another behind the fence. -/
theorem moving_of_fenced (hf : Fenced s) (hmove : s.move = some m)
    (hm : m.fenced = true) : s.moving.isSome = true := by
  rw [hf.fence, hmove]
  exact hm

theorem clear (h : Home d s home) (hf : Fenced s)
    (hmove : s.move = some (.clearing src dst)) (left : Option (List String)) :
    Home d (s.clear src dst left) home := by
  have hok := h.move
  rw [MoveOk, hmove] at hok
  refine h.setTree hf (moving_of_fenced hf hmove rfl) hok.2.1 ?_
  rw [MoveOk, Node.setMove]
  dsimp only
  by_cases hleft : left = none
  · rw [if_pos hleft]
    exact hok
  · rw [if_neg hleft]
    trivial

theorem checkSpace (h : Home d s home) (hmove : s.move = some (.checking src dst)) (free : Nat) :
    Home d (s.checkSpace src dst free) home := by
  have hok := h.move
  rw [MoveOk, hmove] at hok
  refine h.setMove ?_ rfl
  rw [MoveOk, Node.checkSpace, Node.setMove]
  dsimp only
  by_cases hfull : 0 < dirSize (s.trees src) ∧
      free < (dirSize (s.trees src) + 512 * 1024 * 1024) % 2 ^ 64
  · rw [if_pos hfull]
    trivial
  · rw [if_neg hfull]
    exact hok

variable {srcSize : Nat}

section

variable (h : Home d s home) (hf : Fenced s)

include h hf

theorem openSource
    {files : Files} (hmove : s.move = some (.opening src dst srcSize))
    (hfiles : s.trees src = some files) : Home d (s.openSource src dst srcSize files) home := by
  have hok := h.move
  rw [MoveOk, hmove] at hok
  obtain ⟨rfl, hne, hdst⟩ := hok
  refine h.setTree hf (moving_of_fenced hf hmove rfl) hne ⟨⟨rfl, hne, hdst⟩, fun f hnot ↦ ?_⟩
  have hdsttree : ((s.setTree dst (some [])).setMove
      (.copying src dst srcSize (files.map Prod.fst))).trees dst = some [] := update_self ..
  have hsrctree : ((s.setTree dst (some [])).setMove
      (.copying src dst srcSize (files.map Prod.fst))).trees src = some files :=
    (update_of_ne (Ne.symm hne) ..).trans hfiles
  rw [hdsttree, hsrctree, content_of_not_mem hnot]
  rfl

theorem copyFile {f : String}
    {todo : List String} {c : List UInt8}
    (hmove : s.move = some (.copying src dst srcSize (f :: todo)))
    (hc : content (s.trees src) f = some c) :
    Home d ((s.setTree dst (writeFile (s.trees dst) f (some c))).setMove
      (.copying src dst srcSize todo)) home := by
  have hok := h.move
  rw [MoveOk, hmove] at hok
  obtain ⟨⟨rfl, hne, hdst⟩, hcopied⟩ := hok
  refine h.setTree hf (moving_of_fenced hf hmove rfl) hne ⟨⟨rfl, hne, hdst⟩, fun g hnot ↦ ?_⟩
  show content (update s.trees dst _ dst) g = content (update s.trees dst _ src) g
  rw [update_self, update_of_ne (Ne.symm hne), content_writeFile]
  split
  · rename_i hg
    rw [hg, hc]
  · rename_i hg
    exact hcopied g (by simp [hg, hnot])

theorem discard (hmove : s.move = some m)
    (hm : m.fenced = true) (hdst : dst ≠ home) (left : Option (List String)) :
    Home d (s.discard dst left) home :=
  h.setTree hf (moving_of_fenced hf hmove hm) hdst trivial

theorem verify
    (hmove : s.move = some (.copying src dst srcSize [])) (left : Option (List String)) :
    Home d (s.verify src dst srcSize left) home := by
  have hok := h.move
  rw [MoveOk, hmove] at hok
  obtain ⟨hfrom, hcopied⟩ := hok
  rw [Node.verify]
  split
  · exact h.discard hf hmove rfl hfrom.2.1 left
  · exact h.setMove ⟨hfrom, fun f ↦ hcopied f not_mem_nil⟩ rfl

/-- The key is pointed at the copy, which becomes the home. -/
theorem recordTarget
    (hmove : s.move = some (.recording src dst)) (outcome : Outcome) :
    ∃ home', Home d (s.recordTarget src dst outcome) home' := by
  have hok := h.move
  rw [MoveOk, hmove] at hok
  obtain ⟨⟨rfl, hne, hdst⟩, hcopied⟩ := hok
  have hmoving := moving_of_fenced hf hmove rfl
  have hwriter : ∀ {v : Writer} {q : String} (P : Prop), v ∈ s.parties → v.path = some q → P := by
    intro v q P hv hq
    rw [path_eq_none hf hmoving hv] at hq
    cases hq
  have htold : s.moving ≠ none := by
    intro hnone
    rw [hnone] at hmoving
    cases hmoving
  cases outcome with
  | failed => exact ⟨src, h.kept, hwriter _, trivial, h.told, h.busy⟩
  | ok =>
    have hnamed : ∀ {s' : Node}, s'.key = some dst → s'.named d = some dst := by
      intro s' hkey
      rw [Node.named, hkey, filter_some, if_pos (contains_iff_mem.mpr hdst)]
    refine ⟨dst, fun hr ↦ (hcopied _).trans (h.kept hr), hwriter _, Ne.symm hne,
      fun hnone ↦ absurd hnone htold, fun _ ↦ .inl (hnamed rfl)⟩
  | lost =>
    have hnamed : ∀ {s' : Node}, s'.key = some dst → s'.named d = some dst := by
      intro s' hkey
      rw [Node.named, hkey, filter_some, if_pos (contains_iff_mem.mpr hdst)]
    refine ⟨dst, fun hr ↦ (hcopied _).trans (h.kept hr), hwriter _, trivial,
      fun hnone ↦ absurd hnone htold, fun _ ↦ .inl (hnamed rfl)⟩

theorem unfence (hmove : s.move = some .releasing) :
    Home d { s with moving := none, move := some .closing } home := by
  have hmoving := moving_of_fenced hf hmove rfl
  refine ⟨h.kept, ?_, trivial, fun _ ↦ ?_, (by simp)⟩
  · intro v q hv hq
    rw [path_eq_none hf hmoving hv] at hq
    cases hq
  · rcases h.busy hmoving with hnamed | ⟨hnamed, hmem, hdir⟩
    · exact .inl (.inl hnamed)
    · -- Without a key, a tree that the move has left makes the home a guess.
      by_cases hleft : ∃ p ∈ d.paths, s.isDir p = true ∧ p ≠ home
      · obtain ⟨p, hp, hpd, hne⟩ := hleft
        exact .inr ⟨hnamed, p, hp, home, hmem, hne, hpd, hdir⟩
      · refine .inl (.inr ⟨hnamed, ?_, ?_⟩)
        · intro p hp hpd
          by_contra hne
          exact hleft ⟨p, hp, hpd, hne⟩
        · intro hnone
          have hno : s.isDir home = false := hnone home hmem
          rw [hdir] at hno
          cases hno

theorem step {a : Label} (hok : noGuess d s a)
    (hs : Step d s a s') : ∃ home', Home d s' home' := by
  have hidle : (s.move.map Move.fenced).getD false = false → s.moving = none := by
    intro hno
    rw [← hf.fence] at hno
    simpa using hno
  cases hs with
  | hold refuseMoving => exact ⟨home, h.hold refuseMoving⟩
  | lookup hw hholds =>
    refine ⟨home, h.setWriter fun p hp ↦ ?_⟩
    split at hp <;> cases hp
  | resume hw hopen => exact ⟨home, h.setWriter fun p hp ↦ by cases hp⟩
  | getKey hw ok => exact ⟨home, h.getKey (hf.moving_eq_none hw (by simp) (by simp) rfl) ok⟩
  | scan hw => exact ⟨home, h.scan (hf.moving_eq_none hw (by simp) (by simp) rfl) hok _⟩
  | setKey hw outcome =>
    obtain ⟨rfl, -⟩ := h.writer (mem_of_getElem? hw) rfl
    exact ⟨_, h.setKey hf hw outcome⟩
  | write hw f result ok =>
    obtain ⟨rfl, -⟩ := h.writer (mem_of_getElem? hw) rfl
    exact ⟨_, h.write hf hw f result ok⟩
  | @release i w hw hholds =>
    have hset : Home d (s.setWriter i .released) home := h.setWriter fun p hp ↦ by cases hp
    exact ⟨home, hset.kept, hset.writer, hset.move, hset.told, hset.busy⟩
  | resolve hmove target ok => exact ⟨home, h.resolve (hidle (by rw [hmove]; rfl)) target ok⟩
  | resolveScan hmove => exact ⟨home, h.resolveScan (hidle (by rw [hmove]; rfl)) hok hmove⟩
  | fence hmove => exact ⟨home, h.fence hmove⟩
  | clear hmove left => exact ⟨home, h.clear hf hmove left⟩
  | checkSpace hmove free => exact ⟨home, h.checkSpace hmove free⟩
  | openSource hmove hfiles => exact ⟨home, h.openSource hf hmove hfiles⟩
  | copyFile hmove hc => exact ⟨home, h.copyFile hf hmove hc⟩
  | openFails hmove left =>
    have hmv := h.move
    rw [MoveOk, hmove] at hmv
    exact ⟨home, h.discard hf hmove rfl hmv.2.1 left⟩
  | copyFails hmove left =>
    have hmv := h.move
    rw [MoveOk, hmove] at hmv
    exact ⟨home, h.discard hf hmove rfl hmv.1.2.1 left⟩
  | verify hmove left => exact ⟨home, h.verify hf hmove left⟩
  | recordTarget hmove outcome => exact h.recordTarget hf hmove outcome
  | removeSource hmove left =>
    have hmv := h.move
    rw [MoveOk, hmove] at hmv
    exact ⟨home, h.setTree hf (moving_of_fenced hf hmove rfl) hmv trivial⟩
  | unfence hmove => exact ⟨home, h.unfence hf hmove⟩
  | closeCh hmove => exact ⟨home, h.kept, h.writer, trivial, h.told, h.busy⟩

end

end Home

variable {d : Disks} {key : Option String} {trees : String → Option Files}

theorem home_start : ∃ home, Home d (.start key trees) home := by
  have hhome : ∀ home, Known d (.start key trees) home ∨ Unknown d (.start key trees) →
      Home d (.start key trees) home :=
    fun home htold ↦ ⟨by simp [Node.start], by simp [Node.start], trivial, fun _ ↦ htold,
      by simp [Node.start]⟩
  cases hnamed : (Node.start key trees).named d with
  | some k => exact ⟨k, hhome k (.inl (.inl hnamed))⟩
  | none =>
    by_cases htwo : Unknown d (.start key trees)
    · exact ⟨d.first, hhome _ (.inr htwo)⟩
    · by_cases htree : ∃ p ∈ d.paths, (Node.start key trees).isDir p = true
      · obtain ⟨p, hp, hpd⟩ := htree
        refine ⟨p, hhome p (.inl (.inr ⟨hnamed, ?_, ?_⟩))⟩
        · intro q hq hqd
          by_contra hne
          exact htwo ⟨hnamed, q, hq, p, hp, hne, hqd, hpd⟩
        · intro hnone
          rw [hnone p hp] at hpd
          cases hpd
      · refine ⟨d.first, hhome _ (.inl (.inr ⟨hnamed, ?_, fun _ ↦ rfl⟩))⟩
        intro q hq hqd
        exact absurd ⟨q, hq, hqd⟩ htree

variable {s : Node}

theorem fenced_of_reach {ok : Node → Event → Prop}
    (h : Reach (Node.event d) ok (.start key trees) s) : Fenced s :=
  h.invariant (fenced_start key trees) fun _ _ _ hf _ hstep ↦ hf.event hstep

theorem home_of_reach (h : Reach (Node.event d) (keepsAll d) (.start key trees) s) :
    ∃ home, Home d s home := by
  induction h with
  | refl => exact home_start
  | @tail _ _ a hreach hok hstep ih =>
    obtain ⟨home, hhome⟩ := ih
    cases a with
    | act a => exact hhome.step (fenced_of_reach hreach) hok (step_of_step hstep)
    | passOver => exact hok.elim
    | die => exact hok.elim

theorem named_eq_home {home k : String} (h : Home d s home) (hk : s.named d = some k) :
    k = home := by
  cases hmoving : s.moving with
  | none =>
    rcases h.told hmoving with hknown | hunknown
    · exact hknown.eq_of_named hk
    · rw [hunknown.1] at hk
      cases hk
  | some ch =>
    rcases h.busy (by rw [hmoving]; rfl) with hnamed | ⟨hnamed, -⟩
    · exact some_inj.mp (hk.symm.trans hnamed)
    · rw [hnamed] at hk
      cases hk

/-- While the fence stands, a writer's step is none that needs a path. -/
theorem outside_of_moving (hf : Fenced s) {ch : Nat} (hch : s.moving = some ch) :
    (∀ i f result ok, s.step d (.write i f result ok) = none) ∧
      ∀ i, s.step d (.resume i) = none := by
  constructor
  · intro i f result ok
    rw [Node.step]
    split
    · rename_i hw
      have := hf.moving_eq_none hw (by simp) (by simp) rfl
      rw [hch] at this
      cases this
    · rfl
  · intro i
    rw [Node.step]
    split
    · rename_i ch' hw
      split
      · rfl
      · rename_i hopen
        have := hf.moving_eq_none hw (by simp) (fun ch'' h ↦ by cases h; exact hopen) rfl
        rw [hch] at this
        cases this
    · rfl

/-- **No write is lost in a storage move.**  For any storage key and any trees to begin with, any number
of writers and any number of moves one after the other:

* while the fence stands, no write is made, and a lookup that waits for the move goes on waiting;
* a writer that asks then is refused, if it must not wait, and else holds the server;
* the fence is refused while a hold is outstanding;
* and where no lookup has to guess and the copies pass over no entry, what was written with success is
  in the tree the storage key names, at the end of every move and at any other time, and no writer knows
  another path. -/
theorem no_write_lost (d : Disks) (key : Option String) (trees : String → Option Files) :
    (∀ s, Reach (Node.event d) anyStep (.start key trees) s →
      (∀ ch, s.moving = some ch →
        (∀ i f result ok, s.step d (.write i f result ok) = none) ∧
        (∀ i, s.step d (.resume i) = none) ∧
        ∀ refuseMoving, (s.hold refuseMoving).parties =
          s.parties ++ [if refuseMoving then .refused else .held]) ∧
      (∀ w ∈ s.parties, w.holds = true →
        ∀ s', s.step d .fence = some s' → s' = { s with move := none })) ∧
    (∀ s, Reach (Node.event d) (keepsAll d) (.start key trees) s → ∀ k, s.named d = some k →
      (∀ f r, s.reported f = some r → content (s.trees k) f = r) ∧
      ∀ p, .ready p ∈ s.parties → p = k) := by
  refine ⟨fun s h ↦ ⟨fun ch hch ↦ ?_, fun w hw hholds s' hstep ↦ ?_⟩, fun s h k hk ↦ ?_⟩
  · obtain ⟨hwrite, hresume⟩ := outside_of_moving (d := d) (fenced_of_reach h) hch
    refine ⟨hwrite, hresume, fun refuseMoving ↦ ?_⟩
    rw [Node.hold, hch]
    cases refuseMoving <;> rfl
  · have hpos : 0 < s.writers := by
      rw [(fenced_of_reach h).count]
      exact countP_pos_iff.mpr ⟨w, hw, hholds⟩
    cases step_of_step hstep with
    | fence hmove => rw [Node.fence, if_pos hpos]
  · obtain ⟨home, hhome⟩ := home_of_reach h
    obtain rfl := named_eq_home hhome hk
    exact ⟨fun f r hr ↦ hhome.kept hr, fun p hp ↦ (hhome.writer hp rfl).1⟩

/-! ## Runs of two disks -/

/-- A file is written to a server, and the server is moved to another disk. -/
def written : List Label :=
  [.hold false, .lookup 0, .getKey 0 true, .write 0 "f" (some [1]) true, .release 0]

def moved (target : String) (ok : Bool) : List Label :=
  ([.resolve target ok] : List Label) ++ (if ok then [] else [.resolveScan]) ++
    ([.fence, .clear none, .checkSpace (2 ^ 30), .openSource] : List Label)

def finished : List Label :=
  [.verify none, .recordTarget .ok, .removeSource none, .unfence, .closeCh]

def disks : Disks := ⟨"/a", ["/b", "/c"], by decide⟩

/-- The server's tree is at `/b`, and an earlier move has left one at `/a`. -/
def twoTrees (p : String) : Option Files := if p = "/a" ∨ p = "/b" then some [] else none

def withWorld (p : String) : Option Files :=
  if p = "/b" then some [("world", List.replicate 20 1)] else none

/-- The file is moved with the server. -/
theorem no_write_lost_moved : ∃ s,
    Reach (Node.event disks) (keepsAll disks) (.start (some "/b") twoTrees) s ∧
    s.named disks = some "/c" ∧ s.reported "f" = some (some [1]) ∧
    content (s.trees "/c") "f" = some [1] := by
  have hexec : (exec (Node.event disks) (keepsAll disks) (.start (some "/b") twoTrees)
      ((written ++ moved "/c" true ++ ([.copyFile] : List Label) ++ finished).map .act)).map
        (fun s ↦ (s.named disks, s.reported "f")) = some (some "/c", some (some [1])) := by
    decide +kernel
  obtain ⟨s, hs, hv⟩ := exists_reach_of_exec hexec
  obtain ⟨hnamed, hreported⟩ := Prod.mk.inj hv
  obtain ⟨hkept, -⟩ := (no_write_lost disks (some "/b") twoTrees).2 s hs "/c" hnamed
  exact ⟨s, hs, hnamed, hreported, hkept "f" _ hreported⟩

/-- A writer that may wait is not refused while a move runs.  With a second tree about, a move that gets no
answer from Redis takes the wrong one: it moves the tree at `/a`, points the key at the copy, and what was
written is not there.  And a file that the copy passes over is not there either. -/
theorem not_no_write_lost :
    (∃ s, Reach (Node.event disks) anyStep (.start (some "/b") twoTrees) s ∧ s.moving = some 0 ∧
      (s.hold false).parties = [.held]) ∧
    (∃ s, Reach (Node.event disks) anyStep (.start (some "/b") twoTrees) s ∧ s.move = none ∧
      s.named disks = some "/c" ∧ s.reported "f" = some (some [1]) ∧
      content (s.trees "/c") "f" = none) ∧
    ∃ s, Reach (Node.event disks) anyStep (.start (some "/b") withWorld) s ∧ s.move = none ∧
      s.named disks = some "/c" ∧ s.reported "f" = some (some [1]) ∧
      content (s.trees "/c") "f" = none :=
  ⟨exists_reach_of_any [.act (.resolve "/c" true), .act .fence] (by decide +kernel),
    exists_reach_of_any ((written ++ moved "/c" false ++ finished).map .act) (by decide +kernel),
    exists_reach_of_any ((written ++ moved "/c" true ++ ([.copyFile] : List Label)).map .act ++
      ([.passOver] : List Event) ++ finished.map .act) (by decide +kernel)⟩

end Dylaris.Storage
