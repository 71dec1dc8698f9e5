import Dylaris.Storage.NoLostWrite

/-!
# A storage move that is interrupted

`MigrateServerPath` may fail at each of its operations, and the node may die at any moment: in the middle
of an operation too, so that anything is left of the directory it was changing.

The server's files count as written when the run begins.  The key store answers, so that no lookup has to
scan the disks.
-/

set_option autoImplicit false

namespace Dylaris.Storage

open Machine List Option

/-! ## Runs in which the key store answers -/

/-- A write of a file of the server. -/
def Event.writes : Event → Bool
  | .act (.write ..) => true
  | _ => false

/-- The server is on `p`, and its tree there is what has been written. -/
def Node.serving (p : String) (trees : String → Option Files) : Node :=
  { Node.start (some p) trees with reported := fun f ↦ some (content (trees p) f) }

/-- The key store is intact: a `GET` of the key is answered. -/
def answered (_ : Node) : Event → Prop
  | .act (.getKey _ ok) | .act (.resolve _ ok) => ok = true
  | _ => True

/-- And the copy passes over nothing. -/
def copiesAll (s : Node) (a : Event) : Prop := answered s a ∧ a ≠ .passOver

instance (s : Node) (a : Event) : Decidable (answered s a) := by
  unfold answered
  split <;> infer_instance

instance (s : Node) (a : Event) : Decidable (copiesAll s a) := inferInstanceAs (Decidable (_ ∧ _))

/-! ## The key names a path -/

/-- The writer scans the disks, or records what it has found there. -/
def Writer.scans : Writer → Bool
  | .scanning _ | .recording _ => true
  | _ => false

/-- A phase of the move of which the key says nothing. -/
def Move.ordinary : Move → Bool
  | .scanning _ | .deleting .. => false
  | _ => true

/-- The key names a path of the node, nobody scans, and the source goes when the key names the target. -/
structure Named (d : Disks) (s : Node) : Prop where
  named : (s.named d).isSome = true
  looks : ∀ w ∈ s.parties, w.scans = false
  scans : ∀ dst, s.move ≠ some (.scanning dst)
  target : ∀ src dst, s.move = some (.deleting src dst) → s.key = some dst

section Named

variable {d : Disks} {s s' : Node} {home : String}

section

variable (h : Named d s)

include h

theorem Named.key : ∃ k ∈ d.paths, s.key = some k ∧ s.named d = some k := by
  obtain ⟨k, hk⟩ := isSome_iff_exists.mp h.named
  exact ⟨k, mem_paths_of_named hk, (filter_eq_some_iff.mp hk).1, hk⟩

/-- A `GET` that is answered gives a path of the node. -/
theorem Named.got : ∃ k, s.got true = some k ∧ d.paths.contains k = true := by
  obtain ⟨k, hk, hkey, -⟩ := h.key
  have hne : k ≠ "" := fun heq ↦ d.absolute (heq ▸ hk)
  exact ⟨k, by simp [Node.got, hkey, hne], contains_iff_mem.mpr hk⟩

theorem Named.keep (hkey : s'.key = s.key)
    (hparties : ∀ w ∈ s'.parties, w ∈ s.parties ∨ w.scans = false)
    (hmove : s'.move = s.move ∨ ∀ m, s'.move = some m → m.ordinary = true) : Named d s' where
  named := by
    rw [Node.named, hkey]
    exact h.named
  looks w hw := (hparties w hw).elim (h.looks w) id
  scans dst := by
    rcases hmove with hmove | hmove
    · exact hmove ▸ h.scans dst
    · exact fun heq ↦ Bool.false_ne_true (hmove _ heq)
  target src dst heq := by
    rw [hkey]
    rcases hmove with hmove | hmove
    · exact h.target src dst (hmove ▸ heq)
    · exact absurd (hmove _ heq) Bool.false_ne_true

theorem Named.setWriter (i : Nat) {w : Writer} (hw : w.scans = false) :
    Named d (s.setWriter i w) := by
  refine h.keep rfl (fun v hv ↦ ?_) (.inl rfl)
  rcases mem_or_eq_of_mem_set hv with hv | rfl
  · exact .inl hv
  · exact .inr hw

/-- The move goes on. -/
theorem Named.goes (hkey : s'.key = s.key) (hparties : s'.parties = s.parties)
    (hmove : ∀ m, s'.move = some m → m.ordinary = true) : Named d s' :=
  h.keep hkey (fun _ hw ↦ .inl (hparties ▸ hw)) (.inr hmove)

theorem Named.resolve (target : String) : Named d (s.resolve d target true) := by
  obtain ⟨k, hgot, hk⟩ := h.got
  rw [Node.resolve, hgot, filter_some, if_pos hk]
  split
  · refine h.goes rfl rfl fun m hm ↦ ?_
    dsimp only [Node.resolved] at hm
    split at hm <;> cases hm
    rfl
  · exact h

theorem Named.recordTarget {src dst : String} (hdst : dst ∈ d.paths)
    (outcome : Outcome) : Named d (s.recordTarget src dst outcome) where
  named := by
    rw [Node.named, Node.recordTarget]
    dsimp only
    split
    · rw [filter_some, if_pos (contains_iff_mem.mpr hdst)]
      rfl
    · exact h.named
  looks := h.looks
  scans dst' := by
    rw [Node.recordTarget]
    dsimp only
    split <;> simp
  target src' dst' heq := by
    rw [Node.recordTarget] at heq ⊢
    dsimp only at heq ⊢
    split at heq <;> cases heq
    rename_i hok
    rw [hok]
    rfl

/-- **A step of the node** whose `GET`s are answered. -/
theorem Named.step (hhome : Home d s home) {a : Label} (ha : answered s (.act a))
    (hs : Step d s a s') : Named d s' := by
  cases hs with
  | hold refuseMoving =>
    have happend : ∀ w : Writer, w.scans = false → ∀ v ∈ s.parties ++ [w],
        v ∈ s.parties ∨ v.scans = false := by
      intro w hw v hv
      rcases mem_append.mp hv with hv | hv
      · exact .inl hv
      · exact .inr (mem_singleton.mp hv ▸ hw)
    rw [Node.hold]
    split <;> exact h.keep rfl (happend _ rfl) (.inl rfl)
  | lookup => exact h.setWriter _ (by split <;> rfl)
  | resume => exact h.setWriter _ rfl
  | getKey hw ok =>
    obtain ⟨k, hgot, hk⟩ := h.got
    have hok : ok = true := ha
    exact h.setWriter _ (by rw [hok, hgot]; simp only [hk, if_true]; rfl)
  | scan hw | setKey hw => exact absurd (h.looks _ (mem_of_getElem? hw)) (by simp [Writer.scans])
  | write => exact h.keep rfl (fun _ ↦ .inl) (.inl rfl)
  | release => exact (h.setWriter _ (w := .released) rfl).keep rfl (fun _ ↦ .inl) (.inl rfl)
  | resolve hmove target ok =>
    have hok : ok = true := ha
    exact hok ▸ h.resolve target
  | resolveScan hmove => exact absurd hmove (h.scans _)
  | fence hmove =>
    rw [Node.fence]
    split <;> exact h.goes rfl rfl fun m hm ↦ by cases hm <;> rfl
  | clear | checkSpace =>
    refine h.goes rfl rfl fun m hm ↦ ?_
    cases hm
    split <;> rfl
  | verify hmove left =>
    rw [Node.verify]
    split <;> exact h.goes rfl rfl fun m hm ↦ by cases hm; rfl
  | recordTarget hmove outcome =>
    have hok := hhome.move
    rw [MoveOk, hmove] at hok
    exact h.recordTarget hok.1.2.2 outcome
  | openSource | copyFile | openFails | copyFails | removeSource | unfence | closeCh =>
    exact h.goes rfl rfl fun m hm ↦ by cases hm <;> rfl

theorem Named.noGuess {a : Label} (hs : Step d s a s') : noGuess d s a := by
  cases hs with
  | scan hw => exact absurd (h.looks _ (mem_of_getElem? hw)) (by simp [Writer.scans])
  | resolveScan hmove => exact absurd hmove (h.scans _)
  | _ => trivial

end

/-- **A death of the node** leaves the home as it is. -/
theorem Home.die (h : Home d s home) (hnamed : s.named d = some home) (left : Option Files) :
    Home d (s.die left) home := by
  have hne : ∀ p, s.move.bind Move.changing = some p → p ≠ home := by
    intro p hp
    obtain ⟨m, hm, hp⟩ := bind_eq_some_iff.mp hp
    have hok := h.move
    rw [MoveOk, hm] at hok
    cases m <;> cases hp
    case clearing | opening => exact hok.2.1
    case copying => exact hok.1.2.1
    case deleting => exact hok
  have htree : (s.die left).trees home = s.trees home := by
    dsimp only [Node.die, Node.start]
    cases hp : s.move.bind Move.changing with
    | none => rfl
    | some p => exact Function.update_of_ne (Ne.symm (hne p hp)) ..
  exact ⟨fun hr ↦ htree ▸ h.kept hr, by simp [Node.die, Node.start], trivial,
    fun _ ↦ .inl (.inl hnamed), by simp [Node.die, Node.start]⟩

end Named

section Runs

variable {d : Disks} {p : String} {trees : String → Option Files} {s s' : Node}

/-- The tree that the key names is the server's. -/
structure Whole (d : Disks) (s : Node) : Prop where
  fenced : Fenced s
  named : Named d s
  home : ∃ home, Home d s home

theorem Whole.start (hp : p ∈ d.paths) : Whole d (.serving p trees) := by
  have hnamed : (Node.serving p trees).named d = some p := by
    exact (filter_some ..).trans (if_pos (contains_iff_mem.mpr hp))
  refine ⟨⟨rfl, rfl, ?_, ?_⟩, ⟨by rw [hnamed]; rfl, ?_, ?_, ?_⟩, p, fun hr ↦ some_inj.mp hr, ?_,
    trivial, fun _ ↦ .inl (.inl hnamed), ?_⟩
  all_goals simp [Node.serving, Node.start]

theorem Whole.event (h : Whole d s) {a : Event} (ha : copiesAll s a) (hs : s.event d a = some s') :
    Whole d s' := by
  obtain ⟨home, hhome⟩ := h.home
  have hfenced := h.fenced.event hs
  cases a with
  | act a =>
    have hstep := step_of_step hs
    exact ⟨hfenced, h.named.step hhome ha.1 hstep,
      hhome.step h.fenced (h.named.noGuess hstep) hstep⟩
  | passOver => exact absurd rfl ha.2
  | die left =>
    cases hs
    obtain ⟨k, -, -, hk⟩ := h.named.key
    obtain rfl := named_eq_home hhome hk
    exact ⟨hfenced, ⟨h.named.named, nofun, nofun, nofun⟩, k, hhome.die hk left⟩

/-- What the server's tree is to be is changed by writes alone. -/
theorem reported_of_event {a : Event} (hs : s.event d a = some s') (ha : a.writes = false) :
    s'.reported = s.reported := by
  cases a with
  | die => exact some_inj.mp hs ▸ rfl
  | passOver =>
    rw [Node.event] at hs
    split at hs <;> cases hs
    rfl
  | act a =>
    cases step_of_step hs with
    | write => cases ha
    | hold | resolve | resolveScan | fence | verify =>
      simp only [Node.hold, Node.resolve, Node.resolveScan, Node.resolved, Node.fence, Node.verify]
      repeat' split
      all_goals rfl
    | _ => rfl

/-- **A storage move never leaves the server on a partial tree.**  In any run of moves, lookups and writes,
with failures and deaths of the node anywhere, in which the key store is intact and the copies pass over no
entry: the storage key names a path of the node where every file is as it was written last; nothing but a
write changes what that is; a lookup has got that path; and a source is removed while the key names the
target. -/
theorem move_never_partial (d : Disks) (p : String) (hp : p ∈ d.paths)
    (trees : String → Option Files) (s : Node)
    (h : Reach (Node.event d) copiesAll (.serving p trees) s) :
    ∃ k ∈ d.paths, s.key = some k ∧
      (∀ f r, s.reported f = some r → content (s.trees k) f = r) ∧
      (∀ a s', s.event d a = some s' → a.writes = false → s'.reported = s.reported) ∧
      (∀ q, .ready q ∈ s.parties → q = k) ∧
      ∀ src dst, s.move = some (.deleting src dst) → dst = k ∧ src ≠ k := by
  have hw : Whole d s := h.invariant (.start hp) fun _ _ _ hw ha hs ↦ hw.event ha hs
  obtain ⟨home, hhome⟩ := hw.home
  obtain ⟨k, hk, hkey, hnamed⟩ := hw.named.key
  obtain rfl := named_eq_home hhome hnamed
  refine ⟨k, hk, hkey, fun f r ↦ hhome.kept, fun a s' ↦ reported_of_event,
    fun q hq ↦ (hhome.writer hq rfl).1, fun src dst hmove ↦ ⟨?_, ?_⟩⟩
  · exact some_inj.mp ((hw.named.target src dst hmove).symm.trans hkey)
  · have hok := hhome.move
    rw [MoveOk, hmove] at hok
    exact hok

end Runs

/-! ## A move of a server with two files -/

def twoFiles (p : String) : Option Files :=
  if p = "/a" then some [("world", List.replicate 20 1), ("ops", [2])] else none

/-- A move to `/b`, up to its `SET`. -/
def recorded : List Label :=
  moved "/b" true ++ ([.copyFile, .copyFile, .verify none, .recordTarget .ok] : List Label)

/-- The node dies while the source is removed, and the server is moved back. -/
def movedBack : List Event :=
  recorded.map .act ++ ([.die (some [("ops", [2])])] : List Event) ++
    (moved "/a" true ++ ([.copyFile, .copyFile] : List Label) ++ finished).map .act

theorem move_never_partial_back : "/a" ∈ disks.paths ∧ ∃ s,
    Reach (Node.event disks) copiesAll (.serving "/a" twoFiles) s ∧ s.key = some "/a" ∧
      content (s.trees "/a") "ops" = some [2] := by
  have hp : "/a" ∈ disks.paths := by decide
  have hrun : (exec (Node.event disks) copiesAll (.serving "/a" twoFiles) movedBack).map
      (fun s ↦ (s.key, s.reported "ops")) = some (some "/a", some (some [2])) := by decide +kernel
  obtain ⟨s, hreach, hs⟩ := exists_reach_of_exec hrun
  obtain ⟨hkey, hops⟩ := Prod.mk.inj hs
  obtain ⟨k, -, hk, hwhole, -⟩ := move_never_partial disks "/a" hp twoFiles s hreach
  obtain rfl : k = "/a" := some_inj.mp (hk.symm.trans hkey)
  exact ⟨hp, s, hreach, hkey, hwhole _ _ hops⟩

/-- The copy passes over a file that it cannot `lstat`. -/
def movedPart : List Event :=
  (moved "/b" true ++ ([.copyFile] : List Label)).map .act ++ ([.passOver] : List Event) ++
    finished.map .act

/-- **A move that passes over a file** loses it: the sizes are close enough, the key names the copy, and
the source is gone. -/
theorem not_move_never_partial : ∃ s,
    Reach (Node.event disks) answered (.serving "/a" twoFiles) s ∧ s.move = none ∧
      s.key = some "/b" ∧ s.reported "ops" = some (some [2]) ∧
      content (s.trees "/b") "ops" = none ∧ s.isDir "/a" = false :=
  exists_reach_of_any movedPart (by decide +kernel)

end Dylaris.Storage
