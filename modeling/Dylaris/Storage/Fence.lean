import Dylaris.Storage.Move

/-!
# The fence of a storage move

The move sets its mark and looks at the writers' in one section, and so does a writer that does not
wait; a writer that waits sets its mark first and looks at the move's afterwards, in its lookup.  So while
the fence stands, no writer knows a path: `Fenced.quiet`.
-/

set_option autoImplicit false

namespace Dylaris.Storage

open Machine List Option

/-- The fence stands. -/
def Move.fenced : Move → Bool
  | .clearing .. | .checking .. | .opening .. | .copying .. | .recording .. | .deleting .. | .releasing =>
    true
  | .scanning .. | .fencing .. | .closing => false

/-- A writer that has not got past the channel. -/
def Writer.Outside (ch : Nat) (w : Writer) : Prop :=
  w = .held ∨ w = .waiting ch ∨ w.holds = false

/-- The marks of the writers and of the move. -/
structure Fenced (s : Node) : Prop where
  count : s.writers = s.parties.countP Writer.holds
  fence : s.moving.isSome = (s.move.map Move.fenced).getD false
  open_of_moving {ch : Nat} : s.moving = some ch → s.openCh = some ch
  quiet {ch : Nat} : s.moving = some ch → ∀ w ∈ s.parties, w.Outside ch

namespace Fenced

variable {d : Disks} {s s' : Node} {i : Nat} {w w' : Writer}

section

variable (h : Fenced s)

include h

/-- The fence does not stand while a writer is past it. -/
theorem moving_eq_none (hw : s.parties[i]? = some w) (hheld : w ≠ .held)
    (hwaiting : ∀ ch, w = .waiting ch → s.openCh ≠ some ch) (hholds : w.holds = true) :
    s.moving = none := by
  rw [← not_isSome_iff_eq_none, isSome_iff_exists]
  rintro ⟨ch, hch⟩
  rcases h.quiet hch w (mem_of_getElem? hw) with hw | hw | hw
  · exact hheld hw
  · exact hwaiting ch hw (h.open_of_moving hch)
  · rw [hholds] at hw
    cases hw

/-- A writer goes on, holding the server as before. -/
theorem setWriter (hw : s.parties[i]? = some w) (hholds : w'.holds = w.holds)
    (hquiet : ∀ ch, s.moving = some ch → w'.Outside ch) : Fenced (s.setWriter i w') where
  count := by
    obtain ⟨hi, rfl⟩ := List.getElem?_eq_some_iff.mp hw
    have hpos : s.parties[i].holds = true → 0 < s.parties.countP Writer.holds := fun hp ↦
      countP_pos_iff.mpr ⟨_, getElem_mem hi, hp⟩
    have hset : (s.parties.set i w').countP Writer.holds = s.parties.countP Writer.holds := by
      rw [countP_set hi, hholds]
      split
      · have := hpos (by assumption)
        omega
      · omega
    exact h.count.trans hset.symm
  fence := h.fence
  open_of_moving := h.open_of_moving
  quiet := by
    intro ch hch v hv
    rcases mem_or_eq_of_mem_set hv with hv | rfl
    · exact h.quiet hch v hv
    · exact hquiet ch hch

/-- The move goes on, and the fence stands as before. -/
theorem of_move (hparties : s'.parties = s.parties) (hwriters : s'.writers = s.writers)
    (hmoving : s'.moving = s.moving) (hopen : s'.openCh = s.openCh)
    (hmove : (s'.move.map Move.fenced).getD false = (s.move.map Move.fenced).getD false) :
    Fenced s' where
  count := by rw [hwriters, hparties, h.count]
  fence := by rw [hmoving, hmove, h.fence]
  open_of_moving := by
    intro ch hch
    rw [hmoving] at hch
    rw [hopen]
    exact h.open_of_moving hch
  quiet := by
    intro ch hch
    rw [hmoving] at hch
    rw [hparties]
    exact h.quiet hch

theorem hold (refuseMoving : Bool) : Fenced (s.hold refuseMoving) := by
  rw [Node.hold]
  split
  · refine ⟨?_, h.fence, h.open_of_moving, ?_⟩
    · rw [countP_append, ← h.count]
      rfl
    intro ch hch w hw
    rcases mem_append.mp hw with hw | hw
    · exact h.quiet hch w hw
    · rw [mem_singleton.mp hw]
      exact .inr (.inr rfl)
  · refine ⟨?_, h.fence, h.open_of_moving, ?_⟩
    · rw [countP_append, ← h.count]
      rfl
    intro ch hch w hw
    rcases mem_append.mp hw with hw | hw
    · exact h.quiet hch w hw
    · rw [mem_singleton.mp hw]
      exact .inl rfl

theorem lookup (hw : s.parties[i]? = some w) (hholds : w.holds = true) :
    Fenced (s.lookup i) := by
  refine h.setWriter hw ?_ ?_
  · rw [hholds]
    split <;> rfl
  · intro ch hch
    rw [hch]
    exact .inr (.inl rfl)

theorem release (hw : s.parties[i]? = some w) (hholds : w.holds = true) :
    Fenced (s.release i) where
  count := by
    obtain ⟨hi, rfl⟩ := List.getElem?_eq_some_iff.mp hw
    rw [Node.release, Node.setWriter, countP_set hi, hholds, ← h.count]
    rfl
  fence := h.fence
  open_of_moving := h.open_of_moving
  quiet := by
    intro ch hch v hv
    rcases mem_or_eq_of_mem_set hv with hv | rfl
    · exact h.quiet hch v hv
    · exact .inr (.inr rfl)

/-- The move fences: no writer holds the server. -/
theorem fence_step {src dst : String} (hmove : s.move = some (.fencing src dst)) :
    Fenced (s.fence src dst) := by
  rw [Node.fence]
  split
  · exact h.of_move rfl rfl rfl rfl (by rw [hmove]; rfl)
  refine ⟨h.count, rfl, fun hch ↦ hch, ?_⟩
  intro ch _ w hw
  have hnone : s.parties.countP Writer.holds = 0 := by
    rw [← h.count]
    omega
  have := countP_eq_zero.mp hnone w hw
  exact .inr (.inr (by simpa using this))

theorem step {a : Label} (hs : Step d s a s') : Fenced s' := by
  -- A writer that is past the channel goes on: the fence does not stand.
  have hpast : ∀ {i : Nat} {w : Writer} (w' : Writer), s.parties[i]? = some w → w ≠ .held →
      (∀ ch, w = .waiting ch → s.openCh ≠ some ch) → w.holds = true → w'.holds = true →
      Fenced (s.setWriter i w') := by
    intro i w w' hw hheld hwaiting hholds hholds'
    refine h.setWriter hw (hholds'.trans hholds.symm) fun ch hch ↦ ?_
    rw [h.moving_eq_none hw hheld hwaiting hholds] at hch
    cases hch
  cases hs with
  | hold refuseMoving => exact h.hold refuseMoving
  | lookup hw hholds => exact h.lookup hw hholds
  | resume hw hopen =>
    refine hpast _ hw (by simp) (fun ch hch ↦ ?_) rfl rfl
    cases hch
    exact hopen
  | getKey hw ok | scan hw =>
    refine hpast _ hw (by simp) (by simp) rfl ?_
    repeat' split
    all_goals rfl
  | setKey hw outcome =>
    exact (hpast (.ready _) hw (by simp) (by simp) rfl rfl).of_move rfl rfl rfl rfl rfl
  | write => exact h.of_move rfl rfl rfl rfl rfl
  | release hw hholds => exact h.release hw hholds
  | resolve hmove target ok =>
    rw [Node.resolve]
    split
    · split
      · rw [Node.resolved]
        refine h.of_move rfl rfl rfl rfl ?_
        dsimp only
        rw [hmove]
        split <;> rfl
      · exact h.of_move rfl rfl rfl rfl (by rw [hmove]; rfl)
    · exact h
  | resolveScan hmove =>
    rw [Node.resolveScan]
    split
    · exact h.of_move rfl rfl rfl rfl (by rw [hmove]; rfl)
    split
    · exact h.of_move rfl rfl rfl rfl (by rw [hmove]; rfl)
    rw [Node.resolved]
    refine h.of_move rfl rfl rfl rfl ?_
    dsimp only
    rw [hmove]
    split <;> rfl
  | fence hmove => exact h.fence_step hmove
  | clear hmove | checkSpace hmove | recordTarget hmove =>
    refine h.of_move rfl rfl rfl rfl ?_
    rw [hmove]
    show (Move.fenced (if _ then _ else _)) = _
    split <;> rfl
  | openSource hmove | copyFile hmove | openFails hmove | copyFails hmove | removeSource hmove =>
    exact h.of_move rfl rfl rfl rfl (by rw [hmove]; rfl)
  | verify hmove left =>
    rw [Node.verify]
    split <;> exact h.of_move rfl rfl rfl rfl (by rw [hmove]; rfl)
  | unfence hmove => exact ⟨h.count, rfl, by simp, by simp⟩
  | closeCh hmove =>
    have hnone : s.moving = none := by
      have := h.fence
      rw [hmove] at this
      simpa [Move.fenced] using this
    exact ⟨h.count, by rw [hnone]; rfl, by simp [hnone], by simp [hnone]⟩

end

end Fenced

theorem Fenced.event {d : Disks} {s s' : Node} (h : Fenced s) {a : Event} (hs : s.event d a = some s') :
    Fenced s' := by
  cases a with
  | act a => exact h.step (step_of_step hs)
  | passOver =>
    rw [Node.event] at hs
    split at hs <;> cases hs
    rename_i hmove
    exact h.of_move rfl rfl rfl rfl (by rw [hmove]; rfl)
  | die left =>
    cases hs
    exact ⟨rfl, rfl, nofun, nofun⟩

theorem fenced_start (key : Option String) (trees : String → Option Files) :
    Fenced (.start key trees) :=
  ⟨rfl, rfl, by simp [Node.start], by simp [Node.start]⟩

end Dylaris.Storage
