import Dylaris.Library.Places
import Dylaris.Power.Commands

/-!
# The last stop wins

The newest of a server's commands is a stop or a kill.  From the moment it is noted, every look of an
older start or restart finds it, so what could still bring the container up is a start that has looked
for the last time before that.  A newest stop waits for the lock, which such a start holds, and stops
the container after it (`StopInv`); an action that takes its place at the lock meanwhile is a stop
itself.  A newest kill does not wait (`KillInv`).

That is so when the note does not come in between two steps of an older start: for a kill, its last
look and the start of the container; for a stop, its first look and its place at the lock.  `Clear`
says so, and that the newest command is not dropped as stale and Docker carries out the stops.
-/

set_option autoImplicit false

namespace Dylaris.Power

open Machine List Option Places Prod Node

/-! ## The condition -/

/-- The container is about to be started. -/
def Stage.starting? : Stage → Bool
  | .starting .. => true
  | _ => false

/-- What a turn of the command at `c` meets, where the newest one is at `b`. -/
def ClearTurn (b c : Nat) (n : Node) (cmd : Cmd) (io : Io) : Prop :=
  match cmd.stage with
  | .queued => c = b → stalePowerAction cmd.action cmd.issuedAt io.now io.desired = false
  | .fresh =>
    c = b → (cmd.action = .stop → ∀ x ∈ n.cmds, x.action.starts = true → x.stage ≠ .checked) ∧
      (cmd.action = .kill → ∀ x ∈ n.cmds, x.stage.starting? = false)
  | .killing => n.running = true → io.ok = true
  | .stopping _ => cmd.action.starts = false → n.running = true → io.ok = true
  | _ => True

instance (b c : Nat) (n : Node) (cmd : Cmd) (io : Io) : Decidable (ClearTurn b c n cmd io) := by
  unfold ClearTurn
  split <;> infer_instance

/-- The newest command is not stale, Docker carries out the stops and kills of a running container, and
the newest command is noted when no start is between its first look and the lock (a stop), or between
its last look and the start of the container (a kill). -/
def Clear (b : Nat) (n : Node) : Act → Prop
  | .lock _ => True
  | .cmd c io => ∀ cmd ∈ n.cmds[c]?, ClearTurn b c n cmd io

instance (b : Nat) (n : Node) (a : Act) : Decidable (Clear b n a) := by
  cases a <;> unfold Clear <;> infer_instance

/-! ## What a turn does -/

/-- The node after a turn of the command at `c`. -/
abbrev Node.put (n' n : Node) (c : Nat) (cmd : Cmd) (st : Stage) : Node :=
  { n' with cmds := n.cmds.set c { cmd with stage := st } }

/-- The turns of a command, by what they leave behind. -/
inductive Turns (n : Node) (c : Cmd) (io : Io) : Node → Stage → Prop
  | stale (hs : c.stage = .queued)
      (hstale : stalePowerAction c.action c.issuedAt io.now io.desired = true) : Turns n c io n .done
  | fresh (hs : c.stage = .queued) : Turns n c io n .fresh
  | noteStop (hs : c.stage = .fresh) (ha : c.action = .stop) :
      Turns n c io { n with lastStop := noteStop n.lastStop c.issuedAt } .checked
  | noteKill (hs : c.stage = .fresh) (ha : c.action = .kill) :
      Turns n c io { n with lastStop := noteStop n.lastStop c.issuedAt } .killing
  | overtaken (hs : c.stage = .fresh) (ha : c.action.starts = true) : Turns n c io n .done
  | notOvertaken (hs : c.stage = .fresh) (ha : c.action.starts = true)
      (hlook : stopNotedAfter n.lastStop c.issuedAt = false) : Turns n c io n .checked
  | kill (hs : c.stage = .killing) : Turns n c io { n with running := n.running && !io.ok } .done
  | register (hs : c.stage = .checked) :
      Turns n c io { n with lock := n.lock.register c.action.name none }
        (.locking n.lock.parties.length)
  | acquire {i : Nat} {p : Party} (hs : c.stage = .locking i) (hp : n.lock.parties[i]? = some p)
      (hphase : p.phase = .running) : Turns n c io n (.locked i)
  | dropped {i : Nat} {p : Party} (hs : c.stage = .locking i) (hp : n.lock.parties[i]? = some p)
      (hphase : p.phase = .dropped) : Turns n c io n .done
  | late {i : Nat} (hs : c.stage = .locked i) (ha : c.action.starts = true) :
      Turns n c io n (.releasing i)
  | stop {i : Nat} (hs : c.stage = .locked i) (ha : c.action.starts = false) :
      Turns n c io n (.stopping i)
  | guard {i : Nat} {st : Stage} (hs : c.stage = .locked i) (ha : c.action.starts = true)
      (hst : st = .stopping i ∨ st = .pulled i) :
      Turns n c io { n with abandon := some c.issuedAt } st
  | stopped {i : Nat} (hs : c.stage = .stopping i) :
      Turns n c io { n with running := n.running && !io.ok } (.releasing i)
  | stoppedAgain {i : Nat} (hs : c.stage = .stopping i) (ha : c.action = .restart) :
      Turns n c io { n with running := n.running && !io.ok } (.pulled i)
  | abandoned {i : Nat} (hs : c.stage = .pulled i) : Turns n c io n (.releasing i)
  | prepare {i : Nat} (hs : c.stage = .pulled i) : Turns n c io n (.preparing i)
  | created {i : Nat} (hs : c.stage = .preparing i) (gone : Bool) :
      Turns n c io { n with running := n.running && !gone } (.created i)
  | notCreated {i : Nat} (hs : c.stage = .preparing i) (gone : Bool) :
      Turns n c io { n with running := n.running && !gone } (.releasing i)
  | leaves {i : Nat} (hs : c.stage = .created i) : Turns n c io n (.releasing i)
  | start {i : Nat} (hs : c.stage = .created i) (hlook : n.startAbandoned = false) :
      Turns n c io n (.starting i false)
  | started {i : Nat} {retried : Bool} (hs : c.stage = .starting i retried) (running : Bool) :
      Turns n c io { n with running := running } (.releasing i)
  | retry {i : Nat} {retried : Bool} (hs : c.stage = .starting i retried) :
      Turns n c io { n with running := false } (.starting i true)
  | release {i : Nat} {l : Lock} (hs : c.stage = .releasing i)
      (hl : n.lock.step (.setInactive i) = some l) :
      Turns n c io { n with lock := l, abandon := none } (.leaving i)
  | leave {i : Nat} {l : Lock} (hs : c.stage = .leaving i) (hl : n.lock.step (.leave i) = some l) :
      Turns n c io { n with lock := l } .done

theorem turns_of_turn {n : Node} {c : Cmd} {io : Io} {r : Node × Stage} (h : c.turn n io = some r) :
    Turns n c io r.1 r.2 := by
  have hlook (hs : c.stage = .fresh) (ha : c.action.starts = true) : Turns n c io n
      (if overtakenByStop c.action n.lastStop c.issuedAt then .done else .checked) := by
    split
    · exact .overtaken hs ha
    · rename_i hnot
      exact .notOvertaken hs ha (by simpa [overtakenByStop, ha] using hnot)
  cases hs : c.stage with simp only [Cmd.turn, hs] at h
  | queued =>
    cases h
    dsimp only
    split
    · exact .stale hs ‹_›
    · exact .fresh hs
  | fresh =>
    cases ha : c.action with simp only [ha] at h
    | stop =>
      cases h
      exact .noteStop hs ha
    | kill =>
      cases h
      exact .noteKill hs ha
    | start | restart =>
      cases h
      rw [← ha]
      exact hlook hs (by rw [ha]; rfl)
  | killing =>
    cases h
    exact .kill hs
  | checked =>
    cases h
    exact .register hs
  | locking i =>
    split at h <;> cases h
    · obtain ⟨p, hp, hphase⟩ := map_eq_some_iff.mp ‹_›
      exact .acquire hs hp hphase
    · obtain ⟨p, hp, hphase⟩ := map_eq_some_iff.mp ‹_›
      exact .dropped hs hp hphase
  | locked i =>
    split at h
    · rename_i hlate
      cases h
      exact .late hs (Bool.and_eq_true_iff.mp hlate).1
    · cases ha : c.action with (simp only [ha] at h; cases h)
      | restart => exact .guard hs (by rw [ha]; rfl) (.inl rfl)
      | start => exact .guard hs (by rw [ha]; rfl) (.inr rfl)
      | stop | kill => exact .stop hs (by rw [ha]; rfl)
  | stopping i =>
    cases h
    dsimp only
    split
    · rename_i hagain
      exact .stoppedAgain hs hagain.1
    · exact .stopped hs
  | pulled i =>
    cases h
    dsimp only
    split
    · exact .abandoned hs
    · exact .prepare hs
  | preparing i =>
    cases h
    dsimp only
    split
    · exact .created hs _
    · exact .notCreated hs _
  | created i =>
    cases h
    dsimp only
    split
    · exact .leaves hs
    · exact .start hs (by simpa using ‹¬ n.startAbandoned›)
  | starting i retried =>
    split at h
    · cases h
      exact .started hs _
    · split at h <;> cases h
      · exact .retry hs
      · exact .started hs n.running
  | releasing i =>
    obtain ⟨l, hl, rfl⟩ := map_eq_some_iff.mp h
    exact .release hs hl
  | leaving i =>
    obtain ⟨l, hl, rfl⟩ := map_eq_some_iff.mp h
    exact .leave hs hl
  | done => cases h

/-! ## The parties of the lock -/

section Parties

variable {l l' : Lock} {a : Label} {i j : Nat} {p q : Party}

/-- The party has not been sent away and may still run. -/
structure Party.Alive (p : Party) : Prop where
  closes : p.closes = 0
  phase : p.phase = .waiting ∨ p.phase = .turned ∨ p.phase = .running

section

variable (ha : a.waits = true) (h : l.step a = some l')

include ha h

/-- A step inside `lockServerPower` is one of a party that waits, has the turn or gives it back. -/
theorem waits_cases :
    ∃ j q phase, l.parties[j]? = some q ∧ l'.parties = (l.goto j q phase).parties ∧
      (q.phase = .waiting ∧ phase = .turned ∨
        q.phase = .waiting ∧ q.closes ≠ 0 ∧ phase = .dropped ∨
        q.phase = .turned ∧ q.closes = 0 ∧ phase = .running ∨
        q.phase = .turned ∧ q.closes ≠ 0 ∧ phase = .givingBack ∨
        q.phase = .givingBack ∧ phase = .dropped) := by
  cases a with
  | takeTurn j =>
    obtain ⟨q, hq, hphase, h⟩ := of_party_bind h
    split at h <;> cases h
    exact ⟨j, q, .turned, hq, rfl, .inl ⟨hphase, rfl⟩⟩
  | kicked j =>
    obtain ⟨q, hq, hphase, h⟩ := of_party_bind h
    obtain ⟨hkick, h⟩ := ite_none_left_eq_some.mp h
    cases h
    exact ⟨j, q, .dropped, hq, rfl, .inr (.inl ⟨hphase, hkick, rfl⟩)⟩
  | check j =>
    obtain ⟨q, hq, hphase, rfl⟩ := of_party_map h
    by_cases hkick : q.closes = 0
    · exact ⟨j, q, .running, hq, by rw [if_pos hkick], .inr (.inr (.inl ⟨hphase, hkick, rfl⟩))⟩
    · exact ⟨j, q, .givingBack, hq, by rw [if_neg hkick],
        .inr (.inr (.inr (.inl ⟨hphase, hkick, rfl⟩)))⟩
  | giveBack j =>
    obtain ⟨q, hq, hphase, h⟩ := of_party_bind h
    split at h <;> cases h
    exact ⟨j, q, .dropped, hq, rfl, .inr (.inr (.inr (.inr ⟨hphase, rfl⟩)))⟩
  | lock | setInactive | leave | tryLock | enter => exact absurd ha (by simp [Label.waits])

/-- Whoever runs goes on running while others come to the lock. -/
theorem running_of_waits
    (hp : l.parties[i]? = some p) (hr : p.phase = .running) : l'.parties[i]? = some p := by
  obtain ⟨j, q, phase, hq, hparties, hcases⟩ := waits_cases ha h
  have hij : i ≠ j := by
    rintro rfl
    obtain rfl : p = q := some_inj.mp (hp.symm.trans hq)
    rw [hr] at hcases
    exact absurd hcases (by simp)
  rw [hparties, goto_ne hij, hp]

theorem alive_of_waits
    (hp : l.parties[i]? = some p) (hal : p.Alive) : ∃ p', l'.parties[i]? = some p' ∧ p'.Alive := by
  obtain ⟨j, q, phase, hq, hparties, hcases⟩ := waits_cases ha h
  by_cases hij : i = j
  · subst hij
    obtain rfl : p = q := some_inj.mp (hp.symm.trans hq)
    refine ⟨{ p with phase := phase }, by rw [hparties, goto_self hp], hal.closes, ?_⟩
    rcases hcases with ⟨-, rfl⟩ | ⟨-, hkick, -⟩ | ⟨-, -, rfl⟩ | ⟨-, hkick, -⟩
      | ⟨hgiving, -⟩
    · exact .inr (.inl rfl)
    · exact absurd hal.closes hkick
    · exact .inr (.inr rfl)
    · exact absurd hal.closes hkick
    · have := hal.phase
      rw [hgiving] at this
      exact absurd this (by simp)
  · exact ⟨p, by rw [hparties, goto_ne hij, hp], hal⟩

theorem length_of_waits :
    l'.parties.length = l.parties.length := by
  obtain ⟨j, q, phase, -, hparties, -⟩ := waits_cases ha h
  rw [hparties, Lock.goto, length_set]

end

/-- A release changes the one that leaves, and no other party. -/
theorem setInactive_cases (h : l.step (.setInactive j) = some l') :
    ∃ q, l.parties[j]? = some q ∧ q.phase = .running ∧ l'.parties = (l.goto j q .leaving).parties := by
  obtain ⟨q, hq, hphase, rfl⟩ := of_party_map h
  exact ⟨q, hq, hphase, rfl⟩

theorem leave_cases (h : l.step (.leave j) = some l') :
    ∃ q, l.parties[j]? = some q ∧ q.phase = .leaving ∧ l'.parties = (l.goto j q .done).parties := by
  obtain ⟨q, hq, hphase, h⟩ := of_party_bind h
  split at h <;> cases h
  exact ⟨q, hq, hphase, rfl⟩

end Parties

/-! ## Who holds the lock -/

/-- The place of a command at the lock. -/
def Stage.party : Stage → Option Nat
  | .locking i | .locked i | .stopping i | .pulled i | .preparing i | .created i | .starting i _
  | .releasing i | .leaving i => some i
  | .queued | .fresh | .killing | .checked | .done => none

/-- The same, while the command has the lock. -/
def Stage.holds : Stage → Option Nat
  | .locked i | .stopping i | .pulled i | .preparing i | .created i | .starting i _
  | .releasing i => some i
  | .queued | .fresh | .killing | .checked | .locking _ | .leaving _ | .done => none

/-- A start or restart has set its guard and will look at it. -/
def Stage.guarded : Stage → Bool
  | .stopping _ | .pulled _ | .preparing _ | .created _ => true
  | _ => false

/-- The lock and the commands at it. -/
structure Held (n : Node) : Prop where
  turn : OneTurn n.lock
  there {c i : Nat} {cmd : Cmd} : n.cmds[c]? = some cmd → cmd.stage.party = some i →
    i < n.lock.parties.length
  own {c d i : Nat} {cmd cmd' : Cmd} : n.cmds[c]? = some cmd → n.cmds[d]? = some cmd' →
    cmd.stage.party = some i → cmd'.stage.party = some i → c = d
  runs {c i : Nat} {cmd : Cmd} : n.cmds[c]? = some cmd → cmd.stage.holds = some i →
    ∃ p, n.lock.parties[i]? = some p ∧ p.phase = .running
  guard {c : Nat} {cmd : Cmd} : n.cmds[c]? = some cmd → cmd.stage.guarded = true →
    cmd.action.starts = true → n.abandon = some cmd.issuedAt

section Held

variable {n n' : Node} {c d i j : Nat} {cmd cmd' : Cmd} {st : Stage} {io : Io}

theorem party_of_holds (h : st.holds = some i) : st.party = some i := by
  cases st <;> first | exact h | exact absurd h (by simp [Stage.holds])

theorem holds_of_guarded (h : st.guarded = true) : ∃ i, st.holds = some i := by
  cases st <;> first | exact ⟨_, rfl⟩ | exact absurd h (by simp [Stage.guarded])

section

variable (h : Held n)

include h

/-- One command has the lock. -/
theorem Held.exclusive (hc : n.cmds[c]? = some cmd) (hd : n.cmds[d]? = some cmd')
    (hi : cmd.stage.holds = some i) (hj : cmd'.stage.holds = some j) : c = d := by
  obtain ⟨p, hp, hpr⟩ := h.runs hc hi
  obtain ⟨q, hq, hqr⟩ := h.runs hd hj
  obtain rfl : i = j := h.turn.one hp hq (by rw [hpr]; rfl) (by rw [hqr]; rfl)
  exact h.own hc hd (party_of_holds hi) (party_of_holds hj)

/-- What a turn has to keep: the others still have what they had at the lock, and the command itself
has what its next stage says. -/
theorem Held.set (n' : Node) (hc : n.cmds[c]? = some cmd) (hturn : OneTurn n'.lock)
    (hlen : n.lock.parties.length ≤ n'.lock.parties.length)
    (hrun : ∀ {i p}, n.lock.parties[i]? = some p → p.phase = .running → cmd.stage.party ≠ some i →
      ∃ p', n'.lock.parties[i]? = some p' ∧ p'.phase = .running)
    (hparty : ∀ {i}, st.party = some i → i < n'.lock.parties.length ∧
      (cmd.stage.party = some i ∨ n.lock.parties.length ≤ i))
    (hholds : ∀ {i}, st.holds = some i → ∃ p, n'.lock.parties[i]? = some p ∧ p.phase = .running)
    (habandon : n'.abandon = n.abandon ∨ ∃ i, cmd.stage.holds = some i)
    (hguard : st.guarded = true → cmd.action.starts = true → n'.abandon = some cmd.issuedAt) :
    Held (n'.put n c cmd st) where
  turn := hturn
  there hd hi := by
    rcases getElem?_set hd with ⟨rfl, rfl⟩ | ⟨-, hd⟩
    · exact (hparty hi).1
    · exact Nat.lt_of_lt_of_le (h.there hd hi) hlen
  own hd he hi hj := by
    -- A new place is taken by nobody else.
    have hother : ∀ {d i : Nat} {x : Cmd}, n.cmds[d]? = some x → d ≠ c → x.stage.party = some i →
        st.party ≠ some i := by
      intro d i x hx hne hxi hi
      rcases (hparty hi).2 with hold | hnew
      · exact hne (h.own hx hc hxi hold)
      · exact absurd (h.there hx hxi) (Nat.not_lt.mpr hnew)
    rcases getElem?_set hd with ⟨rfl, rfl⟩ | ⟨hdc, hd₀⟩
    · rcases getElem?_set he with ⟨rfl, -⟩ | ⟨hec, he₀⟩
      · rfl
      · exact absurd hi (hother he₀ hec hj)
    · rcases getElem?_set he with ⟨rfl, rfl⟩ | ⟨-, he₀⟩
      · exact absurd hj (hother hd₀ hdc hi)
      · exact h.own hd₀ he₀ hi hj
  runs hd hi := by
    rcases getElem?_set hd with ⟨rfl, rfl⟩ | ⟨hne, hd⟩
    · exact hholds hi
    · obtain ⟨p, hp, hpr⟩ := h.runs hd hi
      exact hrun hp hpr fun hcmd ↦ hne (h.own hd hc (party_of_holds hi) hcmd)
  guard hd hg hs := by
    rcases getElem?_set hd with ⟨rfl, rfl⟩ | ⟨hne, hd⟩
    · exact hguard hg hs
    · rcases habandon with hsame | ⟨i, hi⟩
      · exact hsame.trans (h.guard hd hg hs)
      · obtain ⟨j, hj⟩ := holds_of_guarded hg
        exact absurd (h.exclusive hd hc hj hi) hne

section

variable (hc : n.cmds[c]? = some cmd)

include hc

/-- A turn that leaves the lock as it is. -/
theorem Held.move (hlock : n'.lock = n.lock)
    (hparty : ∀ {i}, st.party = some i → cmd.stage.party = some i)
    (hholds : ∀ {i}, st.holds = some i → ∃ p, n.lock.parties[i]? = some p ∧ p.phase = .running)
    (habandon : n'.abandon = n.abandon ∨ ∃ i, cmd.stage.holds = some i)
    (hguard : st.guarded = true → cmd.action.starts = true → n'.abandon = some cmd.issuedAt) :
    Held (n'.put n c cmd st) := by
  refine h.set n' hc (hlock ▸ h.turn) (Nat.le_of_eq (by rw [hlock]))
    (fun hp hr _ ↦ ⟨_, hlock ▸ hp, hr⟩)
    (fun hi ↦ ⟨by rw [hlock]; exact h.there hc (hparty hi), .inl (hparty hi)⟩)
    (fun hi ↦ by rw [hlock]; exact hholds hi) habandon hguard

/-- A turn of the command that has the lock and keeps it. -/
theorem Held.keep (hi : cmd.stage.holds = some i)
    (hst : st.holds = some i) (hlock : n'.lock = n.lock)
    (hguard : st.guarded = true → cmd.action.starts = true → n'.abandon = some cmd.issuedAt) :
    Held (n'.put n c cmd st) := by
  refine h.move hc hlock (fun hj ↦ ?_) (fun hj ↦ ?_) (.inr ⟨i, hi⟩) hguard
  · rw [party_of_holds hst] at hj
    rw [party_of_holds hi, hj]
  · rw [hst] at hj
    rw [← some_inj.mp hj]
    exact h.runs hc hi

theorem Held.register :
    Held { n with lock := n.lock.register cmd.action.name none
                  cmds := n.cmds.set c { cmd with stage := .locking n.lock.parties.length } } := by
  have hlen : (n.lock.register cmd.action.name none).parties.length = n.lock.parties.length + 1 := by
    rw [Lock.register, length_append, length_kick, length_singleton]
  refine h.set { n with lock := n.lock.register cmd.action.name none } hc (h.turn.register _ _)
    (by rw [hlen]; exact Nat.le_succ _) ?_ ?_
    (by simp [Stage.holds]) (.inl rfl) (by simp [Stage.guarded])
  · intro i p hp hr _
    refine ⟨_, register_old hp, ?_⟩
    split
    · exact hr
    · exact hr
  · intro i hi
    cases hi
    exact ⟨by rw [hlen]; exact Nat.lt_succ_self _, .inr (Nat.le_refl _)⟩

/-- The lock is given back: the party goes on to a phase in which it no longer runs. -/
theorem Held.giveBack (hi : cmd.stage.party = some i)
    {a : Label} {l : Lock} (hl : n.lock.step a = some l) {q : Party} {phase : Phase}
    (hq : n.lock.parties[i]? = some q) (hparties : l.parties = (n.lock.goto i q phase).parties)
    (hst : st = .leaving i ∨ st = .done) {abandon : Option Int}
    (habandon : abandon = n.abandon ∨ cmd.stage.holds = some i) :
    Held { n with lock := l, abandon := abandon, cmds := n.cmds.set c { cmd with stage := st } } := by
  have hlen : l.parties.length = n.lock.parties.length := by
    rw [hparties, Lock.goto, length_set]
  refine h.set { n with lock := l, abandon := abandon } hc (h.turn.step (step_of_step hl))
    (Nat.le_of_eq hlen.symm) ?_ ?_ ?_ (habandon.imp id fun hh ↦ ⟨i, hh⟩) ?_
  · intro j p hp hr hne
    have hji : j ≠ i := by
      rintro rfl
      exact hne hi
    exact ⟨p, by rw [hparties, goto_ne hji, hp], hr⟩
  · intro j hj
    rcases hst with rfl | rfl
    · cases hj
      exact ⟨by rw [hlen]; exact h.there hc hi, .inl hi⟩
    · exact absurd hj (by simp [Stage.party])
  · rcases hst with rfl | rfl
    · simp [Stage.holds]
    · simp [Stage.holds]
  · rcases hst with rfl | rfl
    · simp [Stage.guarded]
    · simp [Stage.guarded]

/-- **Every turn of a command** keeps the lock's order. -/
theorem Held.cmdTurn (ht : Turns n cmd io n' st) :
    Held (n'.put n c cmd st) := by
  cases ht with
  | stale | fresh | noteStop | noteKill | overtaken | notOvertaken | kill | dropped =>
    exact h.move hc rfl (by simp [Stage.party]) (by simp [Stage.holds]) (.inl rfl)
      (by simp [Stage.guarded])
  | register hs => exact h.register hc
  | acquire hs hp hphase =>
    refine h.move hc rfl (by simp [Stage.party, hs]) (fun hj ↦ ?_) (.inl rfl)
      (by simp [Stage.guarded])
    cases hj
    exact ⟨_, hp, hphase⟩
  | late hs | abandoned hs | leaves hs | notCreated hs | started hs | stopped hs | start hs
  | retry hs => exact h.keep hc (by rw [hs]; rfl) rfl rfl (by simp [Stage.guarded])
  | stop hs ha => exact h.keep hc (by rw [hs]; rfl) rfl rfl (by simp [ha])
  | guard hs ha hst =>
    refine h.keep hc (by rw [hs]; rfl) ?_ rfl fun _ _ ↦ rfl
    rcases hst with rfl | rfl
    · rfl
    · rfl
  | stoppedAgain hs ha | prepare hs | created hs =>
    exact h.keep hc (by rw [hs]; rfl) rfl rfl fun _ hst ↦ h.guard hc (by rw [hs]; rfl) hst
  | release hs hl =>
    obtain ⟨q, hq, -, hparties⟩ := setInactive_cases hl
    exact h.giveBack hc (by rw [hs]; rfl) hl hq hparties (.inl rfl) (.inr (by rw [hs]; rfl))
  | leave hs hl =>
    obtain ⟨q, hq, -, hparties⟩ := leave_cases hl
    exact h.giveBack hc (by rw [hs]; rfl) hl hq hparties (.inr rfl) (.inl rfl)

end

/-- A step inside `lockServerPower`. -/
theorem Held.lockStep {a : Label} {l : Lock} (ha : a.waits = true)
    (hl : n.lock.step a = some l) : Held { n with lock := l } where
  turn := h.turn.step (step_of_step hl)
  there hc hi := by
    rw [length_of_waits ha hl]
    exact h.there hc hi
  own := h.own
  runs hc hi := by
    obtain ⟨p, hp, hr⟩ := h.runs hc hi
    exact ⟨p, running_of_waits ha hl hp hr, hr⟩
  guard := h.guard

end

theorem getElem?_start {cmds : List (Action × Int)} {running : Bool} {lastStop : Option Int} {c : Nat}
    {cmd : Cmd} (hc : (start cmds running lastStop).cmds[c]? = some cmd) :
    cmds[c]? = some (cmd.action, cmd.issuedAt) ∧ cmd.stage = .queued := by
  rw [start, getElem?_map] at hc
  obtain ⟨x, hx, rfl⟩ := map_eq_some_iff.mp hc
  exact ⟨hx, rfl⟩

theorem Held.ofStart (cmds : List (Action × Int)) (running : Bool) (lastStop : Option Int) :
    Held (.start cmds running lastStop) := by
  refine ⟨serialised_start.turn, ?_, ?_, ?_, ?_⟩
  · intro c i cmd hc hi
    exact absurd hi (by simp [(getElem?_start hc).2, Stage.party])
  · intro c d i cmd cmd' hc _ hi
    exact absurd hi (by simp [(getElem?_start hc).2, Stage.party])
  · intro c i cmd hc hi
    exact absurd hi (by simp [(getElem?_start hc).2, Stage.holds])
  · intro c cmd hc hg
    exact absurd hg (by simp [(getElem?_start hc).2, Stage.guarded])

end Held

/-! ## The newest command -/

/-- A stop or kill issued at `T` or later has been noted. -/
def Noted (T : Int) (n : Node) : Prop := ∃ t, n.lastStop = some t ∧ T ≤ t

/-- Stages in which the container is brought up. -/
def Stage.bringsUp : Stage → Bool
  | .pulled _ | .preparing _ | .created _ | .starting .. => true
  | _ => false

/-- The newest command is at `b` and was issued at `T`. -/
structure Newest (b : Nat) (T : Int) (a : Action) (n : Node) : Prop where
  there : b < n.cmds.length
  is {cmd : Cmd} : n.cmds[b]? = some cmd → cmd.action = a ∧ cmd.issuedAt = T
  older {c : Nat} {cmd : Cmd} : n.cmds[c]? = some cmd → c ≠ b → cmd.issuedAt < T ∧ cmd.issuedAt ≠ 0
  /-- Only a start or restart brings the container up. -/
  brings {c : Nat} {cmd : Cmd} : n.cmds[c]? = some cmd → cmd.stage.bringsUp = true →
    cmd.action.starts = true

section Newest

variable {n n' : Node} {b c : Nat} {cmd : Cmd} {st : Stage} {io : Io} {T : Int} {a : Action}

theorem noteStop_ge (last : Option Int) {issuedAt : Int} (h : issuedAt ≠ 0) :
    ∃ t, noteStop last issuedAt = some t ∧ issuedAt ≤ t := by
  cases last with
  | none => exact ⟨_, if_neg h, Int.le_refl _⟩
  | some old => exact ⟨_, if_neg h, Int.le_max_right _ _⟩

theorem noteStop_mono (issuedAt : Int) {t : Int} :
    ∃ t', noteStop (some t) issuedAt = some t' ∧ t ≤ t' := by
  unfold noteStop
  split
  · exact ⟨t, rfl, Int.le_refl _⟩
  · exact ⟨_, rfl, Int.le_max_left _ _⟩

theorem Noted.turn (h : Noted T n) (ht : Turns n cmd io n' st) : Noted T n' := by
  obtain ⟨t, hlast, hle⟩ := h
  cases ht with
  | noteStop | noteKill =>
    obtain ⟨t', hlast', hle'⟩ := noteStop_mono cmd.issuedAt (t := t)
    exact ⟨t', by rw [← hlast', ← hlast], Int.le_trans hle hle'⟩
  | _ => exact ⟨t, hlast, hle⟩

/-- An older command that looks finds the note. -/
theorem Noted.found (h : Noted T n) {issuedAt : Int} (hlt : issuedAt < T) (h0 : issuedAt ≠ 0) :
    stopNotedAfter n.lastStop issuedAt = true := by
  obtain ⟨t, hlast, hle⟩ := h
  simp [stopNotedAfter, hlast, h0, Int.lt_of_lt_of_le hlt hle]

theorem Newest.turn (h : Newest b T a n) (hc : n.cmds[c]? = some cmd) (ht : Turns n cmd io n' st) :
    Newest b T a (n'.put n c cmd st) where
  there := by
    rw [length_set]
    exact h.there
  is hd := by
    rcases getElem?_set hd with ⟨rfl, rfl⟩ | ⟨-, hd⟩
    · exact (h.is hc :)
    · exact h.is hd
  older hd hne := by
    rcases getElem?_set hd with ⟨rfl, rfl⟩ | ⟨-, hd⟩
    · exact (h.older hc hne :)
    · exact h.older hd hne
  brings hd hup := by
    rcases getElem?_set hd with ⟨rfl, rfl⟩ | ⟨-, hd⟩
    · cases ht with
      | guard _ ha => exact ha
      | stoppedAgain _ ha => exact (congrArg Action.starts ha).trans rfl
      | prepare hs | created hs | start hs | retry hs => exact (h.brings hc (by rw [hs]; rfl) :)
      | _ => exact absurd hup (by simp [Stage.bringsUp])
    · exact h.brings hd hup

/-- A start or restart is not the newest command. -/
theorem Newest.ne (h : Newest b T a n) (hc : n.cmds[c]? = some cmd) (ha : a.starts = false)
    (hstarts : cmd.action.starts = true) : c ≠ b := by
  rintro rfl
  rw [(h.is hc).1, ha] at hstarts
  cases hstarts

/-- Nobody is about to start the container. -/
def Idle (n : Node) : Prop := ∀ x ∈ n.cmds, x.stage.starting? = false

/-- Once the newest command has been noted, no older one gets to the start of the container: the last
look is at the guard, which has the time of the command itself. -/
theorem Idle.turn (h : Idle n) (hheld : Held n) (hnew : Newest b T a n) (ha : a.starts = false)
    (hnoted : Noted T n) (hc : n.cmds[c]? = some cmd) (ht : Turns n cmd io n' st) :
    Idle (n'.put n c cmd st) := by
  intro x hx
  rcases mem_or_eq_of_mem_set hx with hx | rfl
  · exact h x hx
  · cases ht with
    | start hs hlook =>
      have hstarts := hnew.brings hc (by rw [hs]; rfl)
      obtain ⟨hlt, h0⟩ := hnew.older hc (hnew.ne hc ha hstarts)
      rw [startAbandoned, hheld.guard hc (by rw [hs]; rfl) hstarts] at hlook
      exact absurd ((hnoted.found hlt h0).symm.trans hlook) (by simp)
    | retry hs => exact absurd (h cmd (mem_of_getElem? hc)) (by simp [hs, Stage.starting?])
    | guard _ _ hst =>
      rcases hst with rfl | rfl
      · rfl
      · rfl
    | _ => rfl

/-- While nobody is about to start it, the container does not come up. -/
theorem Idle.running (h : Idle n) (hc : n.cmds[c]? = some cmd) (ht : Turns n cmd io n' st)
    (hrun : n.running = false) : n'.running = false := by
  cases ht with
  | started hs | retry hs => exact absurd (h cmd (mem_of_getElem? hc)) (by simp [hs, Stage.starting?])
  | kill | stopped | stoppedAgain | created | notCreated => simp [hrun]
  | _ => exact hrun

end Newest

/-! ## A newest kill -/

section Runs

variable {n n' : Node} {b c d : Nat} {cmd x : Cmd} {st : Stage} {io : Io} {T : Int}

/-- The command has been noted or has looked. -/
def Stage.past : Stage → Bool
  | .queued | .fresh => false
  | _ => true

/-- A stop or kill that is not stale gets past its note by noting itself. -/
theorem note_of_turns (ht : Turns n cmd io n' st) (hclear : ClearTurn b b n cmd io)
    (hpast : cmd.stage.past = false) (hst : st.past = true) (ha : cmd.action.starts = false) :
    cmd.stage = .fresh ∧ n' = { n with lastStop := noteStop n.lastStop cmd.issuedAt } ∧
      (cmd.action = .stop ∧ st = .checked ∨ cmd.action = .kill ∧ st = .killing) := by
  cases ht with
  | stale hs hstale =>
    rw [ClearTurn, hs] at hclear
    exact absurd (hstale.symm.trans (hclear rfl)) (by simp)
  | fresh => exact absurd hst (by simp [Stage.past])
  | noteStop hs hstop => exact ⟨hs, rfl, .inl ⟨hstop, rfl⟩⟩
  | noteKill hs hkill => exact ⟨hs, rfl, .inr ⟨hkill, rfl⟩⟩
  | overtaken _ hstarts | notOvertaken _ hstarts => exact absurd (ha.symm.trans hstarts) (by simp)
  | kill hs | register hs | acquire hs | dropped hs | late hs | stop hs | guard hs | stopped hs
  | stoppedAgain hs | abandoned hs | prepare hs | created hs | notCreated hs | leaves hs | start hs
  | started hs | retry hs | release hs | leave hs =>
    rw [hs] at hpast
    exact absurd hpast (by simp [Stage.past])

/-- What holds once a newest kill has been noted. -/
structure KillInv (b : Nat) (T : Int) (n : Node) : Prop where
  noted : Noted T n
  idle : Idle n
  killed {cmd : Cmd} : n.cmds[b]? = some cmd → cmd.stage = .killing ∨ n.running = false

theorem KillInv.turn (h : KillInv b T n) (hheld : Held n) (hnew : Newest b T .kill n)
    (hc : n.cmds[c]? = some cmd) (hclear : ClearTurn b c n cmd io) (ht : Turns n cmd io n' st) :
    KillInv b T (n'.put n c cmd st) where
  noted := (h.noted.turn ht :)
  idle := h.idle.turn hheld hnew rfl h.noted hc ht
  killed hd := by
    rcases getElem?_set hd with ⟨rfl, rfl⟩ | ⟨-, hd⟩
    · rcases h.killed hc with hs | hrun
      · rw [ClearTurn, hs] at hclear
        cases ht with
        | kill =>
          cases hrun : n.running with
          | false => exact .inr (by simp)
          | true => exact .inr (by simp [hclear hrun])
        | _ => simp_all
      · exact .inr (h.idle.running hc ht hrun :)
    · exact (h.killed hd).imp id fun hrun ↦ (h.idle.running hc ht hrun :)

theorem KillInv.ofNote (hnew : Newest b T .kill n) (hT : T ≠ 0) (hc : n.cmds[b]? = some cmd)
    (hclear : ClearTurn b b n cmd io) (ht : Turns n cmd io n' st) (hpast : cmd.stage.past = false)
    (hst : st.past = true) :
    KillInv b T (n'.put n b cmd st) := by
  obtain ⟨ha, rfl⟩ := hnew.is hc
  obtain ⟨hs, rfl, ⟨hstop, -⟩ | ⟨-, rfl⟩⟩ := note_of_turns ht hclear hpast hst (by rw [ha]; rfl)
  · exact absurd (ha.symm.trans hstop) (by simp)
  rw [ClearTurn, hs] at hclear
  refine ⟨noteStop_ge _ hT, fun x hx ↦ ?_, fun hd ↦ ?_⟩
  · rcases mem_or_eq_of_mem_set hx with hx | rfl
    · exact (hclear rfl).2 ha x hx
    · rfl
  · rw [getElem?_set_self hc] at hd
    exact .inl (by rw [← some_inj.mp hd])

/-! ## A newest stop -/

/-- The command is on its way to the container, and nobody has sent it away. -/
def Stage.Due (st : Stage) (l : Lock) : Prop :=
  match st with
  | .checked | .locked _ | .stopping _ => True
  | .locking i => ∃ p, l.parties[i]? = some p ∧ p.Alive
  | _ => False

/-- What holds once a newest stop has been noted: a stop is on its way to the container, or the
container is down for good. -/
structure StopInv (T : Int) (n : Node) : Prop where
  noted : Noted T n
  /-- No older start comes to the lock any more, so that it sends no stop away there. -/
  looked {x : Cmd} : x ∈ n.cmds → x.action.starts = true → x.stage ≠ .checked
  stops :
    (∃ (d : Nat) (x : Cmd), n.cmds[d]? = some x ∧ x.action.starts = false ∧ x.stage.Due n.lock) ∨
      (n.running = false ∧ Idle n)

/-- A stop that is due goes on to the container, and stops it. -/
theorem due_turn (hheld : Held n) (hc : n.cmds[c]? = some cmd) (hclear : ClearTurn b c n cmd io)
    (ht : Turns n cmd io n' st) (ha : cmd.action.starts = false) (hdue : cmd.stage.Due n.lock) :
    st.Due n'.lock ∨
      (n'.running = false ∧ Idle (n'.put n c cmd st)) := by
  cases ht with
  | register => exact .inl ⟨_, register_new, rfl, .inl rfl⟩
  | acquire => exact .inl trivial
  | dropped hs hp hphase =>
    rw [hs] at hdue
    obtain ⟨q, hq, hal⟩ := hdue
    obtain rfl := some_inj.mp (hp.symm.trans hq)
    have := hal.phase
    rw [hphase] at this
    exact absurd this (by simp)
  | stop => exact .inl trivial
  | late _ hstarts | guard _ hstarts => exact absurd (ha.symm.trans hstarts) (by simp)
  | stoppedAgain _ hrestart => exact absurd ha (by simp [hrestart, Action.starts])
  | stopped hs =>
    rw [ClearTurn, hs] at hclear
    refine .inr ⟨?_, fun x hx ↦ ?_⟩
    · cases hrun : n.running with
      | false => simp
      | true => simp [hclear ha hrun]
    -- The lock is this command's, so that nobody else is at the container.
    rcases mem_or_eq_of_mem_set hx with hx | rfl
    · obtain ⟨d, hd⟩ := mem_iff_getElem?.mp hx
      cases hstage : x.stage with
      | starting i retried =>
        obtain rfl := hheld.exclusive hc hd (by rw [hs]; rfl) (by rw [hstage]; rfl)
        obtain rfl := some_inj.mp (hc.symm.trans hd)
        exact absurd (hs.symm.trans hstage) (by simp)
      | _ => rfl
    · rfl
  | stale hs | fresh hs | noteStop hs | noteKill hs | overtaken hs | notOvertaken hs | kill hs
  | abandoned hs | prepare hs | created hs | notCreated hs | leaves hs | start hs | started hs
  | retry hs | release hs | leave hs =>
    rw [hs] at hdue
    exact hdue.elim

variable {l : Lock} {a : Action}

/-- A party that goes on changes nothing for the others. -/
theorem due_goto {l' : Lock} {j : Nat} {q : Party} {phase : Phase} (hdue : st.Due l)
    (hparties : l'.parties = (l.goto j q phase).parties) (hne : st.party ≠ some j) : st.Due l' := by
  cases st with
  | locking i =>
    obtain ⟨p, hp, hal⟩ := hdue
    have hij : i ≠ j := fun h ↦ hne (congrArg some h)
    exact ⟨p, by rw [hparties, goto_ne hij, hp], hal⟩
  | _ => exact hdue

/-- Another command's turn leaves a stop that is due alone, unless it comes to the lock. -/
theorem due_other (hheld : Held n) (hc : n.cmds[c]? = some cmd) (hd : n.cmds[d]? = some x)
    (hne : d ≠ c) (ht : Turns n cmd io n' st) (hchecked : cmd.stage ≠ .checked)
    (hdue : x.stage.Due n.lock) : x.stage.Due n'.lock := by
  cases ht with
  | register hs => exact absurd hs hchecked
  | release hs hl =>
    obtain ⟨q, -, -, hparties⟩ := setInactive_cases hl
    exact due_goto hdue hparties fun hj ↦ hne (hheld.own hd hc hj (by rw [hs]; rfl))
  | leave hs hl =>
    obtain ⟨q, -, -, hparties⟩ := leave_cases hl
    exact due_goto hdue hparties fun hj ↦ hne (hheld.own hd hc hj (by rw [hs]; rfl))
  | _ => exact hdue

theorem due_of_waits {l' : Lock} {a : Label} (ha : a.waits = true) (hl : l.step a = some l')
    (hdue : st.Due l) : st.Due l' := by
  cases st with
  | locking i =>
    obtain ⟨p, hp, hal⟩ := hdue
    exact alive_of_waits ha hl hp hal
  | _ => exact hdue

theorem StopInv.turn (h : StopInv T n) (hheld : Held n) (hnew : Newest b T .stop n)
    (hc : n.cmds[c]? = some cmd) (hclear : ClearTurn b c n cmd io) (ht : Turns n cmd io n' st) :
    StopInv T (n'.put n c cmd st) where
  noted := (h.noted.turn ht :)
  looked hx hstarts := by
    rcases mem_or_eq_of_mem_set hx with hx | rfl
    · exact h.looked hx hstarts
    · cases ht with
      | notOvertaken _ _ hlook =>
        obtain ⟨hlt, h0⟩ := hnew.older hc (hnew.ne hc rfl hstarts)
        exact absurd ((h.noted.found hlt h0).symm.trans hlook) (by simp)
      | noteStop _ ha => exact absurd hstarts (by simp [ha, Action.starts])
      | guard _ _ hst => rcases hst with rfl | rfl <;> simp
      | _ => simp
  stops := by
    rcases h.stops with ⟨d, x, hd, hx, hdue⟩ | ⟨hrun, hidle⟩
    · by_cases hdc : d = c
      · subst hdc
        obtain rfl := some_inj.mp (hd.symm.trans hc)
        exact (due_turn hheld hc hclear ht hx hdue).imp
          (fun hst ↦ ⟨d, _, getElem?_set_self hc, hx, hst⟩) id
      · by_cases hchecked : cmd.stage = .checked
        · cases hstarts : cmd.action.starts with
          | true => exact absurd hchecked (h.looked (mem_of_getElem? hc) hstarts)
          | false =>
            refine (due_turn hheld hc hclear ht hstarts (by rw [hchecked]; trivial)).imp
              (fun hst ↦ ⟨c, _, getElem?_set_self hc, hstarts, hst⟩) id
        · exact .inl ⟨d, x, by rw [← hd]; exact getElem?_set_ne (Ne.symm hdc), hx,
            (due_other hheld hc hd hdc ht hchecked hdue :)⟩
    · exact .inr ⟨(hidle.running hc ht hrun :), hidle.turn hheld hnew rfl h.noted hc ht⟩

theorem StopInv.ofNote (hnew : Newest b T .stop n) (hT : T ≠ 0) (hc : n.cmds[b]? = some cmd)
    (hclear : ClearTurn b b n cmd io) (ht : Turns n cmd io n' st) (hpast : cmd.stage.past = false)
    (hst : st.past = true) :
    StopInv T (n'.put n b cmd st) := by
  obtain ⟨ha, rfl⟩ := hnew.is hc
  obtain ⟨hs, rfl, ⟨-, rfl⟩ | ⟨hkill, -⟩⟩ := note_of_turns ht hclear hpast hst (by rw [ha]; rfl)
  case inr => exact absurd (ha.symm.trans hkill) (by simp)
  rw [ClearTurn, hs] at hclear
  refine ⟨noteStop_ge _ hT, fun {x} hx hstarts ↦ ?_,
    .inl ⟨b, _, getElem?_set_self hc, by rw [ha]; rfl, trivial⟩⟩
  rcases mem_or_eq_of_mem_set hx with hx | rfl
  · exact (hclear rfl).1 ha x hx hstarts
  · exact absurd hstarts (by simp [ha, Action.starts])

/-- The invariant of a run. -/
structure Wins (b : Nat) (T : Int) (a : Action) (n : Node) : Prop where
  held : Held n
  newest : Newest b T a n
  stop : a = .stop → ∀ {x}, n.cmds[b]? = some x → x.stage.past = true → StopInv T n
  kill : a = .kill → ∀ {x}, n.cmds[b]? = some x → x.stage.past = true → KillInv b T n

/-- What holds once the newest command has been noted: it comes with the note and is kept. -/
theorem past_turn {P : Node → Prop} (h : ∀ {x}, n.cmds[b]? = some x → x.stage.past = true → P n)
    (hc : n.cmds[c]? = some cmd)
    (hturn : P n → P (n'.put n c cmd st))
    (hnote : c = b → cmd.stage.past = false → st.past = true →
      P (n'.put n c cmd st))
    (hx : (n.cmds.set c { cmd with stage := st })[b]? = some x) (hpast : x.stage.past = true) :
    P (n'.put n c cmd st) := by
  rcases getElem?_set hx with ⟨rfl, rfl⟩ | ⟨-, hd⟩
  · cases hcmd : cmd.stage.past with
    | true => exact hturn (h hc hcmd)
    | false => exact hnote rfl hcmd hpast
  · exact hturn (h hd hpast)

theorem Wins.turn (h : Wins b T a n) (hT : T ≠ 0) (hc : n.cmds[c]? = some cmd)
    (hclear : ClearTurn b c n cmd io) (ht : Turns n cmd io n' st) :
    Wins b T a (n'.put n c cmd st) where
  held := h.held.cmdTurn hc ht
  newest := h.newest.turn hc ht
  stop ha _ hx hpast := by
    have hnew := ha ▸ h.newest
    refine past_turn (h.stop ha) hc (fun hs ↦ hs.turn h.held hnew hc hclear ht) ?_ hx hpast
    rintro rfl hbefore hafter
    exact .ofNote hnew hT hc hclear ht hbefore hafter
  kill ha _ hx hpast := by
    have hnew := ha ▸ h.newest
    refine past_turn (h.kill ha) hc (fun hk ↦ hk.turn h.held hnew hc hclear ht) ?_ hx hpast
    rintro rfl hbefore hafter
    exact .ofNote hnew hT hc hclear ht hbefore hafter

theorem Wins.lockStep (h : Wins b T a n) {w : Label} (hw : w.waits = true)
    (hl : n.lock.step w = some l) : Wins b T a { n with lock := l } where
  held := h.held.lockStep hw hl
  newest := ⟨h.newest.there, h.newest.is, h.newest.older, h.newest.brings⟩
  stop ha _ hx hpast := by
    have hs := h.stop ha hx hpast
    refine ⟨hs.noted, hs.looked, hs.stops.imp ?_ id⟩
    rintro ⟨d, x, hd, hstarts, hdue⟩
    exact ⟨d, x, hd, hstarts, due_of_waits hw hl hdue⟩
  kill ha _ hx hpast := by
    have hk := h.kill ha hx hpast
    exact ⟨hk.noted, hk.idle, hk.killed⟩

theorem Wins.step {m : Node} {act : Act} (h : Wins b T a n) (hT : T ≠ 0)
    (hclear : Clear b n act) (hstep : n.step act = some m) : Wins b T a m := by
  cases act with
  | lock w =>
    obtain ⟨hw, hstep⟩ := ite_none_right_eq_some.mp hstep
    obtain ⟨l, hl, rfl⟩ := map_eq_some_iff.mp hstep
    exact h.lockStep hw hl
  | cmd c io =>
    obtain ⟨cmd, hc, hstep⟩ := bind_eq_some_iff.mp hstep
    obtain ⟨r, hr, rfl⟩ := map_eq_some_iff.mp hstep
    exact h.turn hT hc (hclear cmd hc) (turns_of_turn hr)

/-- The commands have different times, so that all but the newest are older. -/
theorem newest_start {cmds : List (Action × Int)} {running : Bool} {lastStop : Option Int}
    (hdiff : (cmds.map snd).Nodup) (hissued : ∀ x ∈ cmds, x.2 ≠ 0)
    (hb : cmds[b]? = some (a, T)) (hlast : ∀ x ∈ cmds, x.2 ≤ T) :
    Newest b T a (.start cmds running lastStop) := by
  refine ⟨?_, fun {cmd} hc ↦ ?_, fun {c cmd} hc hne ↦ ?_, fun {c cmd} hc hup ↦ ?_⟩
  · rw [start, length_map]
    exact (List.getElem?_eq_some_iff.mp hb).1
  · have := some_inj.mp ((getElem?_start hc).1.symm.trans hb)
    exact ⟨congrArg fst this, congrArg snd this⟩
  · have hmem := mem_of_getElem? (getElem?_start hc).1
    refine ⟨Int.lt_iff_le_and_ne.mpr ⟨hlast _ hmem, fun heq ↦ hne ?_⟩, hissued _ hmem⟩
    have hlt : c < (cmds.map snd).length := by
      rw [length_map]
      exact (List.getElem?_eq_some_iff.mp (getElem?_start hc).1).1
    refine (getElem?_inj hlt hdiff).mp ?_
    rw [getElem?_map, getElem?_map, (getElem?_start hc).1, hb]
    exact congrArg some heq
  · rw [(getElem?_start hc).2] at hup
    exact absurd hup (by simp [Stage.bringsUp])

theorem wins_start {cmds : List (Action × Int)} {running : Bool} {lastStop : Option Int}
    (hdiff : (cmds.map snd).Nodup) (hissued : ∀ x ∈ cmds, x.2 ≠ 0)
    (hb : cmds[b]? = some (a, T)) (hlast : ∀ x ∈ cmds, x.2 ≤ T) :
    Wins b T a (.start cmds running lastStop) := by
  have hqueued : ∀ {x : Cmd}, (start cmds running lastStop).cmds[b]? = some x →
      x.stage.past = false := by
    intro x hx
    rw [(getElem?_start hx).2]
    rfl
  exact ⟨.ofStart cmds running lastStop, newest_start hdiff hissued hb hlast,
    fun _ _ hx hpast ↦ absurd ((hqueued hx).symm.trans hpast) (by simp),
    fun _ _ hx hpast ↦ absurd ((hqueued hx).symm.trans hpast) (by simp)⟩

/-- **The last stop wins.**  The commands of a server have different issue times, and the newest of
them, at `b`, is a stop or a kill.  In every run in which it is not dropped as stale, Docker carries
out the stops and kills of a running container, and it is not noted between an older start's first
look and its place at the lock (a stop) or an older start's last look and the start of the container
(a kill), the container does not run once all commands are done. -/
theorem last_stop_wins {cmds : List (Action × Int)} {running : Bool} {lastStop : Option Int}
    {a : Action} {m : Node} (hdiff : (cmds.map snd).Nodup) (hissued : ∀ x ∈ cmds, x.2 ≠ 0)
    (hb : cmds[b]? = some (a, T)) (ha : a = .stop ∨ a = .kill) (hlast : ∀ x ∈ cmds, x.2 ≤ T)
    (h : Reach step (Clear b) (.start cmds running lastStop) m)
    (hdone : ∀ x ∈ m.cmds, x.stage = .done) : m.running = false := by
  have hT : T ≠ 0 := hissued _ (mem_of_getElem? hb)
  have hw : Wins b T a m := h.invariant (wins_start hdiff hissued hb hlast)
    fun _ _ _ hn hok hstep ↦ hn.step hT hok hstep
  have hx := getElem?_eq_getElem hw.newest.there
  have hstage := hdone _ (mem_of_getElem? hx)
  rcases ha with rfl | rfl
  · rcases (hw.stop rfl hx (by rw [hstage]; rfl)).stops with ⟨d, y, hd, -, hdue⟩ | ⟨hrun, -⟩
    · rw [hdone y (mem_of_getElem? hd)] at hdue
      exact hdue.elim
    · exact hrun
  · rcases (hw.kill rfl hx (by rw [hstage]; rfl)).killed hx with hkilling | hrun
    · exact absurd (hstage.symm.trans hkilling) (by simp)
    · exact hrun

end Runs

/-- A turn for which Docker does what it is asked. -/
def plain : Io where
  now := 0
  desired := none
  ok := true
  removed := false
  retry := false

/-- The command at `c` takes so many turns. -/
def turns (c k : Nat) : List Act := List.replicate k (.cmd c plain)

/-- A party that waits gets the lock. -/
def enters (i : Nat) : List Act := [.lock (.takeTurn i), .lock (.check i)]

/-- A start comes up to the start of the container; the stop is noted and waits for the lock; the
container is started, and then stopped. -/
def stopAfterStart : List Act :=
  turns 0 3 ++ enters 0 ++ turns 0 5 ++ turns 1 3 ++ turns 0 3 ++ enters 1 ++ turns 1 5

theorem last_stop_wins_waited :
    ∃ n, Reach step (Clear 1) (.start [(.start, 1), (.stop, 2)] false none) n ∧
      n.cmds.map Cmd.stage = [.done, .done] ∧ n.lastStop = some 2 ∧ n.running = false := by
  have hrun : (exec step (Clear 1) (.start [(.start, 1), (.stop, 2)] false none)
      stopAfterStart).map (fun n ↦ (n.cmds.map Cmd.stage, n.lastStop)) =
      some ([.done, .done], some 2) := by decide +kernel
  obtain ⟨n, hn, hv⟩ := exists_reach_of_exec hrun
  obtain ⟨hstages, hlast⟩ := mk.inj hv
  refine ⟨n, hn, hstages, hlast, last_stop_wins (b := 1) (T := 2) (by decide) (by decide) rfl (.inl rfl)
    (by decide) hn fun x hx ↦ ?_⟩
  have := mem_map_of_mem (f := Cmd.stage) hx
  rw [hstages] at this
  simpa using this

/-- A stop from ten minutes ago finds that the server is to be online. -/
def staleStop : List Act := [.cmd 0 { plain with now := 601, desired := some "online" }]

/-- A kill is noted and carried out between the last look of a start and the start of the
container. -/
def killTooEarly : List Act :=
  turns 0 3 ++ enters 0 ++ turns 0 5 ++ turns 1 3 ++ turns 0 3

/-- A first start has started the container.  A second one has looked when the stop is noted, comes
to the lock after it and sends it away, and then finds it in the notes itself. -/
def stopSentAway : List Act :=
  turns 0 3 ++ enters 0 ++ turns 0 6 ++ turns 1 2 ++ turns 2 3 ++ turns 1 1 ++
    ([.lock (.kicked 1)] : List Act) ++ turns 2 1 ++ turns 0 2 ++ enters 2 ++ turns 1 4

/-- Without its conditions the last stop does not win: not when it is stale, not when a kill comes
right before the start of the container, and not when a start takes its place at the lock. -/
theorem not_last_stop_wins :
    (∃ n, Reach step anyStep (.start [(.stop, 1)] true none) n ∧
      (n.cmds.map Cmd.stage, n.running) = ([.done], true)) ∧
    (∃ n, Reach step anyStep (.start [(.start, 1), (.kill, 2)] false none) n ∧
      (n.cmds.map Cmd.stage, n.running) = ([.done, .done], true)) ∧
    (∃ n, Reach step anyStep (.start [(.start, 1), (.start, 2), (.stop, 3)] false none) n ∧
      (n.cmds.map Cmd.stage, n.running) = ([.done, .done, .done], true)) :=
  ⟨exists_reach_of_any staleStop (by decide +kernel), exists_reach_of_any killTooEarly (by decide +kernel),
    exists_reach_of_any stopSentAway (by decide +kernel)⟩

end Dylaris.Power
