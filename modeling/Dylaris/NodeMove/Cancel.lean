import Dylaris.Library.Machine
import Dylaris.Library.Places

/-!
# Cancelling a move

An admin cancels a move by setting a flag in Redis (`CancelMigration` in
`core/handlers/servers/migration_cancel.go`); the orchestrator looks at the flag in its waits before
the cutover and rolls the move back when it is there
(`core/services/migration_orchestrator.go`).  The flag is per server and says nothing about the move
it is meant for.  That it reaches the right one rests on three commands of the endpoint — is the
migration lock held, is the recorded phase one that can be cancelled, set the flag — and on the end of
a move, which deletes the flag and then the lock.

The model is one server, any number of moves and any number of cancels, one Redis command a step.  A
command may fail, or be applied and its reply lost.  The lock and the flag expire; a refresher puts
the lock back while its move is under way; a Core may die at any point.  A move may
also cut over, after which it no longer looks at the flag, or end for any other reason.

A move holds the lock from the `SETNX` that it won to its `Del`.  For each cancel the model keeps the
moves that held the lock when it found the lock held and when its flag was set.  `cancel_reaches_own`
says that a move rolled back for a cancel is among both, in every run in which the clean-up of a move
takes place and does not cross a cancel: `InOrder`.  Otherwise the move that the endpoint saw may end
before the flag is set, and the next move finds the flag.
-/

set_option autoImplicit false

open Machine

namespace Dylaris.NodeMove.Cancel

open List Option Places

/-- The recorded phase of the orchestration, as the endpoint tells them apart: no readable record,
the two that are before the cutover, and the others. -/
inductive OrchPhase
  | absent | starting | migrating | finalizing | terminal
deriving DecidableEq, Repr

/-- `isCancellableMigrationPhase`. -/
def OrchPhase.cancellable : OrchPhase → Bool
  | .absent | .starting | .migrating => true
  | .finalizing | .terminal => false

/-- Where a move stands. -/
inductive Stage
  | waiting
  | running
  /-- The server's row names the target. -/
  | cutOver
  /-- The deferred `Del` of the flag is next. -/
  | ended
  | cleared
  | done
  | dead
deriving DecidableEq, Repr

/-- A move of the server. -/
structure Move where
  stage : Stage
  /-- The cancel that the move was rolled back for. -/
  cause : Option Nat
deriving DecidableEq, Repr

/-- Between the `SETNX` that it won and its `Del`. -/
def Move.holds (m : Move) : Bool :=
  match m.stage with
  | .running | .cutOver | .ended | .cleared => true
  | .waiting | .done | .dead => false

/-- The move is still to delete the flag. -/
def Move.clears (m : Move) : Bool :=
  match m.stage with
  | .running | .cutOver | .ended => true
  | .waiting | .cleared | .done | .dead => false

/-- Where a call of the endpoint stands. -/
inductive CallStage
  | called
  | sawLock
  | sawPhase
  | answered
deriving DecidableEq, Repr

/-- A call of `CancelMigration`. -/
structure Call where
  stage : CallStage
  /-- The moves that held the lock when it found the lock held. -/
  checked : List Nat
  /-- The moves that held the lock when its flag was set. -/
  written : List Nat
deriving DecidableEq, Repr

/-- The call is between its look at the lock and its flag. -/
def Call.deciding (c : Call) : Bool :=
  match c.stage with
  | .sawLock | .sawPhase => true
  | .called | .answered => false

/-- The keys of the server, its moves and the calls. -/
structure World where
  /-- The lock, with the move that set it last. -/
  lock : Option Nat
  /-- The flag, with the call that set it. -/
  flag : Option Nat
  phase : OrchPhase
  moves : List Move
  calls : List Call
deriving DecidableEq, Repr

def init : World := ⟨none, none, .absent, [], []⟩

/-- The moves that hold the lock. -/
def World.holding (w : World) : List Nat :=
  (List.range w.moves.length).filter fun i ↦ (w.moves[i]?.map Move.holds).getD false

/-- What a move does. -/
inductive MoveOp
  | setNX (o : Outcome)
  /-- The wait for the lock runs out, or the leader changes. -/
  | giveUp
  /-- `writeStatus`. -/
  | writeStatus (p : OrchPhase) (o : Outcome)
  /-- `cancelRequested`; `failed` is an error of Redis. -/
  | poll (failed : Bool)
  | cutOver
  | finish
  | clearFlag (o : Outcome)
  | releaseLock (o : Outcome)
  | refresh (o : Outcome)
  | die
deriving DecidableEq, Repr

/-- What a call of the endpoint does. -/
inductive CallOp
  | lockExists (failed : Bool)
  | getPhase (failed : Bool)
  | setFlag (o : Outcome)
deriving DecidableEq, Repr

/-- A move or a call goes on, or a key expires. -/
inductive Label
  | request
  | move (i : Nat) (o : MoveOp)
  | call
  | cancel (c : Nat) (o : CallOp)
  | lockExpires
  | flagExpires
  | phaseExpires
deriving DecidableEq, Repr

def World.putMove (w : World) (i : Nat) (m : Move) : World := { w with moves := w.moves.set i m }

def World.putCall (w : World) (c : Nat) (k : Call) : World := { w with calls := w.calls.set c k }

/-- A Redis command, or another step, of the move at `i`. -/
def moveStep (w : World) (i : Nat) (m : Move) : MoveOp → Option World
  | .setNX o =>
    if m.stage = .waiting then
      match w.lock, o with
      | none, .ok => some { w.putMove i { m with stage := .running } with lock := some i }
      -- An error ends the request, also when the lock was taken.
      | none, .lost => some { w.putMove i { m with stage := .done } with lock := some i }
      | none, .failed => some (w.putMove i { m with stage := .done })
      | some _, .ok => some w
      | some _, _ => some (w.putMove i { m with stage := .done })
    else none
  | .giveUp => if m.stage = .waiting then some (w.putMove i { m with stage := .done }) else none
  | .writeStatus p o =>
    if m.stage = .done ∨ m.stage = .dead then none
    else some { w with phase := if o.applied then p else w.phase }
  | .poll failed =>
    if m.stage = .running then
      match w.flag, failed with
      | some c, false => some (w.putMove i { stage := .ended, cause := some c })
      | _, _ => some w
    else none
  | .cutOver => if m.stage = .running then some (w.putMove i { m with stage := .cutOver }) else none
  | .finish =>
    if m.stage = .running ∨ m.stage = .cutOver then some (w.putMove i { m with stage := .ended })
    else none
  | .clearFlag o =>
    if m.stage = .ended then
      some { w.putMove i { m with stage := .cleared } with flag := if o.applied then none else w.flag }
    else none
  | .releaseLock o =>
    if m.stage = .cleared then
      some { w.putMove i { m with stage := .done } with lock := if o.applied then none else w.lock }
    else none
  | .refresh o =>
    if m.holds then some { w with lock := if o.applied then some i else w.lock } else none
  | .die => if m.stage = .done then none else some (w.putMove i { m with stage := .dead })

/-- `migrationPhase`: a record that cannot be read counts as none. -/
def migrationPhase (failed : Bool) (record : OrchPhase) : OrchPhase :=
  if failed then .absent else record

/-- A Redis command of the call at `c`. -/
def callStep (w : World) (c : Nat) (k : Call) : CallOp → Option World
  | .lockExists failed =>
    if k.stage = .called then
      match w.lock, failed with
      | some _, false => some (w.putCall c { k with stage := .sawLock, checked := w.holding })
      | _, _ => some (w.putCall c { k with stage := .answered })
    else none
  | .getPhase failed =>
    if k.stage = .sawLock then
      if (migrationPhase failed w.phase).cancellable then
        some (w.putCall c { k with stage := .sawPhase })
      else some (w.putCall c { k with stage := .answered })
    else none
  | .setFlag o =>
    if k.stage = .sawPhase then
      if o.applied then
        some { w.putCall c { k with stage := .answered, written := w.holding } with flag := some c }
      else some (w.putCall c { k with stage := .answered })
    else none

def step (w : World) : Label → Option World
  | .request => some { w with moves := w.moves ++ [⟨.waiting, none⟩] }
  | .move i o => w.moves[i]?.bind fun m ↦ moveStep w i m o
  | .call => some { w with calls := w.calls ++ [⟨.called, [], []⟩] }
  | .cancel c o => w.calls[c]?.bind fun k ↦ callStep w c k o
  | .lockExpires => some { w with lock := none }
  | .flagExpires => some { w with flag := none }
  | .phaseExpires => some { w with phase := .absent }

/-! ## A cancel reaches the move it was accepted for -/

/-- The move at `i` holds the lock. -/
def World.Holds (w : World) (i : Nat) : Prop := ∃ m, w.moves[i]? = some m ∧ m.holds = true

variable {w w' : World}

theorem World.mem_holding {i : Nat} : i ∈ w.holding ↔ w.Holds i := by
  rw [holding, mem_filter, mem_range, Holds]
  constructor
  · rintro ⟨hi, h⟩
    rw [getElem?_eq_getElem hi] at h ⊢
    exact ⟨_, rfl, by simpa using h⟩
  · rintro ⟨m, hm, hholds⟩
    exact ⟨(List.getElem?_eq_some_iff.mp hm).1, by simp [hm, hholds]⟩

/-- The call at `c` has set its flag, and the move at `i` held the lock both when the call found the
lock held and when it set the flag. -/
def World.Reaches (w : World) (i c : Nat) : Prop :=
  ∃ k, w.calls[c]? = some k ∧ k.stage = .answered ∧ i ∈ k.checked ∧ i ∈ k.written

/-- The clean-up of a move takes place, and does not cross a cancel.  The deletes of the flag and of the
lock are applied; no call is between its look at the lock and its flag when a move deletes the flag, and
none looks at the lock between the two deletes.  The lock is not lost while a move holds it, the reply to
the `SETNX` that took it is not lost, and no Core dies with a move that holds it. -/
def InOrder (w : World) : Label → Prop
  | .move _ (.setNX o) => w.lock = none → o ≠ .lost
  | .move _ (.clearFlag o) => o.applied = true ∧ ∀ k ∈ w.calls, k.deciding = false
  | .move _ (.releaseLock o) => o.applied = true
  | .move i .die => i ∉ w.holding
  | .cancel _ (.lockExists _) => ∀ m ∈ w.moves, m.stage ≠ .cleared
  | .lockExpires => w.holding = []
  | _ => True

instance (w : World) : (a : Label) → Decidable (InOrder w a)
  | .move _ (.setNX _) | .move _ (.clearFlag _) | .move _ (.releaseLock _) | .move _ .die
  | .cancel _ (.lockExists _) | .lockExpires => by unfold InOrder; infer_instance
  | .move _ .giveUp | .move _ (.writeStatus ..) | .move _ (.poll _) | .move _ .cutOver
  | .move _ .finish | .move _ (.refresh _) | .cancel _ (.getPhase _) | .cancel _ (.setFlag _)
  | .request | .call | .flagExpires | .phaseExpires => isTrue trivial

/-- Some move is still to delete the flag. -/
def World.Clears (w : World) : Prop := ∃ (i : Nat) (m : Move), w.moves[i]? = some m ∧ m.clears = true

/-- The lock is there while a move holds it, and one move at most does.  A flag, or a call that may
still set one, is only there while that move is still to delete the flag; each deciding call found that
move, and the flag is meant for it, as was every flag for which a move was rolled back. -/
structure Own (w : World) : Prop where
  locked : w.lock ≠ none → ∃ i, w.Holds i
  free : w.lock = none → ∀ i, ¬ w.Holds i
  one : ∀ i j, w.Holds i → w.Holds j → i = j
  pending : w.flag ≠ none ∨ (∃ k ∈ w.calls, k.deciding = true) → w.Clears
  deciding : ∀ (c : Nat) (k : Call), w.calls[c]? = some k → k.deciding = true →
    ∀ i, w.Holds i → i ∈ k.checked
  flag : ∀ c, w.flag = some c → ∀ i, w.Holds i → w.Reaches i c
  cause : ∀ (i : Nat) (m : Move) (c : Nat), w.moves[i]? = some m → m.cause = some c → w.Reaches i c

theorem not_holds_init (i : Nat) : ¬ init.Holds i := by
  rintro ⟨m, hm, -⟩
  simp [init] at hm

theorem own_init : Own init where
  locked h := absurd rfl h
  free _ := not_holds_init
  one i j hi := absurd hi (not_holds_init i)
  pending h := by simp [init] at h
  deciding := by simp [init]
  flag := by simp [init]
  cause := by simp [init]

/-! ### Steps of a move -/

theorem Move.holds_of_clears {m : Move} (h : m.clears = true) : m.holds = true := by
  rw [Move.clears] at h
  rw [Move.holds]
  split at h <;> simp_all

section Moves

variable {i : Nat} {m m' : Move} (hm : w.moves[i]? = some m)

include hm

theorem holds_set {j : Nat} (hmoves : w'.moves = w.moves.set i m') :
    w'.Holds j ↔ (j = i ∧ m'.holds = true) ∨ (j ≠ i ∧ w.Holds j) := by
  constructor
  · rintro ⟨n, hn, hholds⟩
    rw [hmoves] at hn
    rcases getElem?_set hn with ⟨rfl, rfl⟩ | ⟨hne, hn⟩
    · exact .inl ⟨rfl, hholds⟩
    · exact .inr ⟨hne, n, hn, hholds⟩
  · rintro (⟨rfl, hholds⟩ | ⟨hne, n, hn, hholds⟩)
    · exact ⟨m', hmoves ▸ getElem?_set_self hm, hholds⟩
    · exact ⟨n, by rw [hmoves, List.getElem?_set_ne (Ne.symm hne), hn], hholds⟩

theorem holds_set_iff {j : Nat} (hholds : m'.holds = m.holds) (hmoves : w'.moves = w.moves.set i m') :
    w'.Holds j ↔ w.Holds j := by
  rw [holds_set hm hmoves]
  by_cases hji : j = i
  · subst hji
    simp [World.Holds, hm, hholds]
  · simp [hji]

theorem Own.cause_set (h : Own w) (hcause : ∀ c, m'.cause = some c → w.Reaches i c) :
    ∀ (j : Nat) (n : Move) (c : Nat), (w.moves.set i m')[j]? = some n → n.cause = some c →
      w.Reaches j c := by
  intro j n c hn hc
  rcases getElem?_set hn with ⟨rfl, rfl⟩ | ⟨-, hn⟩
  · exact hcause c hc
  · exact h.cause j n c hn hc

/-- A move keeps the lock or stays without it, and keeps what it has to do. -/
theorem Own.set (h : Own w) (hholds : m'.holds = m.holds) (hclears : m.clears = true → m'.clears = true)
    (hcause : ∀ c, m'.cause = some c → w.Reaches i c) : Own (w.putMove i m') := by
  have hsame : ∀ j, (w.putMove i m').Holds j ↔ w.Holds j := fun j ↦ holds_set_iff hm hholds rfl
  refine ⟨fun hlock ↦ ?_, fun hlock j hj ↦ h.free hlock j ((hsame j).mp hj),
    fun j k hj hk ↦ h.one j k ((hsame j).mp hj) ((hsame k).mp hk), fun hopen ↦ ?_,
    fun c k hk hd j hj ↦ h.deciding c k hk hd j ((hsame j).mp hj),
    fun c hc j hj ↦ h.flag c hc j ((hsame j).mp hj), h.cause_set hm hcause⟩
  · obtain ⟨j, hj⟩ := h.locked hlock
    exact ⟨j, (hsame j).mpr hj⟩
  · obtain ⟨j, n, hn, hj⟩ := h.pending hopen
    by_cases hji : j = i
    · subst hji
      obtain rfl := some_inj.mp (hn.symm.trans hm)
      exact ⟨j, m', getElem?_set_self hm, hclears hj⟩
    · exact ⟨j, n, (List.getElem?_set_ne (Ne.symm hji)).trans hn, hj⟩

omit hm in
/-- Where a move takes the lock, nothing is left of a cancel. -/
theorem Own.none_left (h : Own w) (hlock : w.lock = none) :
    w.flag = none ∧ ∀ k ∈ w.calls, k.deciding = false := by
  have hno : ¬(w.flag ≠ none ∨ ∃ k ∈ w.calls, k.deciding = true) := by
    intro hopen
    obtain ⟨i, m, hm, hclears⟩ := h.pending hopen
    exact h.free hlock i ⟨m, hm, Move.holds_of_clears hclears⟩
  push Not at hno
  exact ⟨hno.1, fun k hk ↦ by simpa using hno.2 k hk⟩

theorem Own.setNX (h : Own w) (hlock : w.lock = none) :
    Own { w.putMove i { m with stage := .running } with lock := some i } := by
  obtain ⟨hflag, hcalls⟩ := h.none_left hlock
  have hholds : ∀ j, (w.putMove i { m with stage := .running }).Holds j → j = i := by
    intro j hj
    rcases (holds_set hm rfl).mp hj with ⟨rfl, -⟩ | ⟨-, hj⟩
    · rfl
    · exact absurd hj (h.free hlock j)
  refine ⟨fun _ ↦ ⟨i, (holds_set hm rfl).mpr (.inl ⟨rfl, rfl⟩)⟩, fun h ↦ absurd h (by simp),
    fun j k hj hk ↦ (hholds j hj).trans (hholds k hk).symm, fun _ ↦ ⟨i, _, getElem?_set_self hm, rfl⟩,
    fun c k hk hd ↦ ?_, fun c hc ↦ absurd (hflag.symm.trans hc) (by simp),
    h.cause_set hm fun c hc ↦ h.cause i m c hm hc⟩
  rw [hcalls k (mem_of_getElem? hk)] at hd
  cases hd

theorem Own.clearFlag (h : Own w) (hs : m.stage = .ended) (hcalls : ∀ k ∈ w.calls, k.deciding = false) :
    Own { w.putMove i { m with stage := .cleared } with flag := none } := by
  have hsame : ∀ j, (w.putMove i { m with stage := .cleared }).Holds j ↔ w.Holds j :=
    fun j ↦ holds_set_iff hm (by simp [Move.holds, hs]) rfl
  refine ⟨fun hlock ↦ ?_, fun hlock j hj ↦ h.free hlock j ((hsame j).mp hj),
    fun j k hj hk ↦ h.one j k ((hsame j).mp hj) ((hsame k).mp hk), ?_,
    fun c k hk hd j hj ↦ h.deciding c k hk hd j ((hsame j).mp hj), fun c hc ↦ (by cases hc),
    h.cause_set hm fun c hc ↦ h.cause i m c hm hc⟩
  · obtain ⟨j, hj⟩ := h.locked hlock
    exact ⟨j, (hsame j).mpr hj⟩
  · rintro (hflag | ⟨k, hk, hdeciding⟩)
    · exact absurd rfl hflag
    · rw [hcalls k hk] at hdeciding
      cases hdeciding

theorem Own.releaseLock (h : Own w) (hs : m.stage = .cleared) :
    Own { w.putMove i { m with stage := .done } with lock := none } := by
  have hi : w.Holds i := ⟨m, hm, by simp [Move.holds, hs]⟩
  have hnone : ∀ j, ¬(w.putMove i { m with stage := .done }).Holds j := by
    intro j hj
    rcases (holds_set hm rfl).mp hj with ⟨-, hj⟩ | ⟨hne, hj⟩
    · simp [Move.holds] at hj
    · exact hne (h.one j i hj hi)
  refine ⟨fun hlock ↦ absurd rfl hlock, fun _ ↦ hnone, fun j k hj ↦ absurd hj (hnone j),
    fun hopen ↦ ?_, fun c k hk hd j hj ↦ absurd hj (hnone j), fun c hc j hj ↦ absurd hj (hnone j),
    h.cause_set hm fun c hc ↦ h.cause i m c hm hc⟩
  -- Whoever is still to delete the flag holds the lock, and the only one who does has deleted it.
  obtain ⟨j, n, hn, hclears⟩ := h.pending hopen
  obtain rfl := h.one j i ⟨n, hn, Move.holds_of_clears hclears⟩ hi
  obtain rfl := some_inj.mp (hn.symm.trans hm)
  simp [Move.clears, hs] at hclears

theorem Own.moveStep (h : Own w) {o : MoveOp} (hok : InOrder w (.move i o))
    (hstep : moveStep w i m o = some w') : Own w' := by
  have hcause := fun c hc ↦ h.cause i m c hm hc
  cases o with
  | setNX o =>
    obtain ⟨hs, hstep⟩ := ite_none_right_eq_some.mp hstep
    have hwaits : Own (w.putMove i { m with stage := .done }) :=
      h.set hm (by simp [Move.holds, hs]) (by simp [Move.clears, hs]) hcause
    split at hstep <;> cases hstep
    · exact h.setNX hm ‹_›
    · exact absurd rfl (hok ‹_›)
    · exact hwaits
    · exact h
    · exact hwaits
  | giveUp =>
    obtain ⟨hs, ⟨⟩⟩ := ite_none_right_eq_some.mp hstep
    exact h.set hm (by simp [Move.holds, hs]) (by simp [Move.clears, hs]) hcause
  | writeStatus p o =>
    obtain ⟨-, ⟨⟩⟩ := ite_none_left_eq_some.mp hstep
    exact ⟨h.locked, h.free, h.one, h.pending, h.deciding, h.flag, h.cause⟩
  | poll failed =>
    obtain ⟨hs, hstep⟩ := ite_none_right_eq_some.mp hstep
    have hholds : m.holds = true := by simp [Move.holds, hs]
    split at hstep <;> cases hstep
    · rename_i c hflag
      refine h.set hm (by simp [Move.holds, hs]) (fun _ ↦ rfl) fun d hd ↦ ?_
      obtain rfl := some_inj.mp hd
      exact h.flag c hflag i ⟨m, hm, hholds⟩
    · exact h
  | cutOver =>
    obtain ⟨hs, ⟨⟩⟩ := ite_none_right_eq_some.mp hstep
    exact h.set hm (by simp [Move.holds, hs]) (fun _ ↦ rfl) hcause
  | finish =>
    obtain ⟨hs, ⟨⟩⟩ := ite_none_right_eq_some.mp hstep
    exact h.set hm (by rcases hs with hs | hs <;> simp [Move.holds, hs]) (fun _ ↦ rfl) hcause
  | clearFlag o =>
    obtain ⟨hs, ⟨⟩⟩ := ite_none_right_eq_some.mp hstep
    rw [if_pos hok.1]
    exact h.clearFlag hm hs hok.2
  | releaseLock o =>
    obtain ⟨hs, ⟨⟩⟩ := ite_none_right_eq_some.mp hstep
    rw [if_pos (show o.applied = true from hok)]
    exact h.releaseLock hm hs
  | refresh o =>
    obtain ⟨hholds, ⟨⟩⟩ := ite_none_right_eq_some.mp hstep
    refine ⟨fun _ ↦ ⟨i, m, hm, hholds⟩, fun hlock j hj ↦ ?_, h.one, h.pending, h.deciding, h.flag,
      h.cause⟩
    cases ho : o.applied
    · exact h.free (by simpa [ho] using hlock) j hj
    · simp [ho] at hlock
  | die =>
    obtain ⟨-, ⟨⟩⟩ := ite_none_left_eq_some.mp hstep
    have hno : m.holds = false := by
      by_contra hholds
      exact hok (World.mem_holding.mpr ⟨m, hm, by simpa using hholds⟩)
    exact h.set hm hno.symm (fun hclears ↦ absurd (Move.holds_of_clears hclears) (by simp [hno])) hcause

end Moves

/-! ### Steps of a call -/

section Calls

variable {c : Nat} {k : Call} (hk : w.calls[c]? = some k)

include hk

/-- A call that has not answered comes to decide, or sets its flag, only while a move is still to delete
the flag, and finds the moves that hold the lock. -/
theorem Own.putCall (h : Own w) {k' : Call} {flag : Option Nat} (hs : k.stage ≠ .answered)
    (hdeciding : k'.deciding = true → w.Clears ∧ ∀ i, w.Holds i → i ∈ k'.checked)
    (hflag : flag = w.flag ∨ flag = some c ∧ w.Clears ∧ k'.stage = .answered ∧
      ∀ i, w.Holds i → i ∈ k'.checked ∧ i ∈ k'.written) :
    Own { w.putCall c k' with flag := flag } := by
  have hreach : ∀ {i d : Nat}, w.Reaches i d → (w.putCall c k').Reaches i d := by
    rintro i d ⟨l, hl, hanswered, hi⟩
    have hne : c ≠ d := by
      rintro rfl
      exact hs (some_inj.mp (hk.symm.trans hl) ▸ hanswered)
    exact ⟨l, (List.getElem?_set_ne hne).trans hl, hanswered, hi⟩
  refine ⟨h.locked, h.free, h.one, ?_, fun d l hl hd ↦ ?_, fun d hd i hi ↦ ?_,
    fun i m d hm hd ↦ hreach (h.cause i m d hm hd)⟩
  · rintro (hset | ⟨l, hl, hd⟩)
    · rcases hflag with hflag | hflag
      · exact h.pending (.inl (hflag ▸ hset))
      · exact hflag.2.1
    · rcases mem_or_eq_of_mem_set hl with hl | rfl
      · exact h.pending (.inr ⟨l, hl, hd⟩)
      · exact (hdeciding hd).1
  · rcases getElem?_set hl with ⟨-, rfl⟩ | ⟨-, hl⟩
    · exact (hdeciding hd).2
    · exact h.deciding d l hl hd
  · rcases hflag with hflag | ⟨hflag, -, hanswered, hreached⟩
    · exact hreach (h.flag d (hflag ▸ hd) i hi)
    · obtain rfl := some_inj.mp (hflag.symm.trans hd)
      exact ⟨k', getElem?_set_self hk, hanswered, hreached i hi⟩

theorem Own.callStep (h : Own w) {o : CallOp} (hok : InOrder w (.cancel c o))
    (hstep : callStep w c k o = some w') : Own w' := by
  have hmem := mem_of_getElem? hk
  cases o with
  | lockExists failed =>
    obtain ⟨hs, hstep⟩ := ite_none_right_eq_some.mp hstep
    split at hstep <;> cases hstep
    · rename_i hlock
      refine h.putCall hk (by simp [hs]) (fun _ ↦ ⟨?_, fun i hi ↦ World.mem_holding.mpr hi⟩)
        (.inl rfl)
      -- The lock is held, and by a move that is still to delete the flag.
      obtain ⟨i, m, hm, hholds⟩ := h.locked (by simp [hlock])
      refine ⟨i, m, hm, ?_⟩
      have hnot := hok m (mem_of_getElem? hm)
      revert hholds hnot
      cases hst : m.stage <;> simp [Move.holds, Move.clears, hst]
    · exact h.putCall hk (by simp [hs]) (by simp [Call.deciding]) (.inl rfl)
  | getPhase failed =>
    obtain ⟨hs, hstep⟩ := ite_none_right_eq_some.mp hstep
    have hdeciding : k.deciding = true := by simp [Call.deciding, hs]
    split at hstep <;> cases hstep
    · exact h.putCall hk (by simp [hs])
        (fun _ ↦ ⟨h.pending (.inr ⟨k, hmem, hdeciding⟩), h.deciding c k hk hdeciding⟩) (.inl rfl)
    · exact h.putCall hk (by simp [hs]) (by simp [Call.deciding]) (.inl rfl)
  | setFlag o =>
    obtain ⟨hs, hstep⟩ := ite_none_right_eq_some.mp hstep
    have hdeciding : k.deciding = true := by simp [Call.deciding, hs]
    split at hstep <;> cases hstep
    · exact h.putCall hk (by simp [hs]) (by simp [Call.deciding])
        (.inr ⟨rfl, h.pending (.inr ⟨k, hmem, hdeciding⟩), rfl,
          fun i hi ↦ ⟨h.deciding c k hk hdeciding i hi, World.mem_holding.mpr hi⟩⟩)
    · exact h.putCall hk (by simp [hs]) (by simp [Call.deciding]) (.inl rfl)

end Calls

theorem Own.request (h : Own w) : Own { w with moves := w.moves ++ [⟨.waiting, none⟩] } := by
  have hsame : ∀ j, World.Holds { w with moves := w.moves ++ [⟨.waiting, none⟩] } j → w.Holds j := by
    rintro j ⟨m, hm, hholds⟩
    rcases getElem?_append_singleton hm with hm | ⟨-, rfl⟩
    · exact ⟨m, hm, hholds⟩
    · simp [Move.holds] at hholds
  have hold {j : Nat} {m : Move} (hm : w.moves[j]? = some m) :
      (w.moves ++ [⟨.waiting, none⟩])[j]? = some m :=
    (getElem?_append_left (List.getElem?_eq_some_iff.mp hm).1).trans hm
  refine ⟨fun hlock ↦ ?_, fun hlock j hj ↦ h.free hlock j (hsame j hj),
    fun j k hj hk ↦ h.one j k (hsame j hj) (hsame k hk), fun hopen ↦ ?_,
    fun c k hk hd j hj ↦ h.deciding c k hk hd j (hsame j hj),
    fun c hc j hj ↦ h.flag c hc j (hsame j hj), fun j m c hm hc ↦ ?_⟩
  · obtain ⟨j, m, hm, hholds⟩ := h.locked hlock
    exact ⟨j, m, hold hm, hholds⟩
  · obtain ⟨j, m, hm, hclears⟩ := h.pending hopen
    exact ⟨j, m, hold hm, hclears⟩
  · rcases getElem?_append_singleton hm with hm | ⟨-, rfl⟩
    · exact h.cause j m c hm hc
    · cases hc

theorem Own.call (h : Own w) : Own { w with calls := w.calls ++ [⟨.called, [], []⟩] } := by
  have hreach : ∀ {i d : Nat}, w.Reaches i d →
      World.Reaches { w with calls := w.calls ++ [⟨.called, [], []⟩] } i d := by
    rintro i d ⟨l, hl, hi⟩
    exact ⟨l, (getElem?_append_left (List.getElem?_eq_some_iff.mp hl).1).trans hl, hi⟩
  refine ⟨h.locked, h.free, h.one, fun hopen ↦ h.pending (hopen.imp_right ?_), fun c k hk hd ↦ ?_,
    fun c hc i hi ↦ hreach (h.flag c hc i hi), fun i m c hm hc ↦ hreach (h.cause i m c hm hc)⟩
  · rintro ⟨k, hk, hd⟩
    rcases mem_append.mp hk with hk | hk
    · exact ⟨k, hk, hd⟩
    · simp [mem_singleton.mp hk, Call.deciding] at hd
  · rcases getElem?_append_singleton hk with hk | ⟨-, rfl⟩
    · exact h.deciding c k hk hd
    · simp [Call.deciding] at hd

theorem Own.step (h : Own w) {a : Label} (hok : InOrder w a) (hstep : step w a = some w') : Own w' := by
  cases a with
  | request => exact some_inj.mp hstep ▸ h.request
  | move i o =>
    obtain ⟨m, hm, hstep⟩ := bind_eq_some_iff.mp hstep
    exact h.moveStep hm hok hstep
  | call => exact some_inj.mp hstep ▸ h.call
  | cancel c o =>
    obtain ⟨k, hk, hstep⟩ := bind_eq_some_iff.mp hstep
    exact h.callStep hk hok hstep
  | lockExpires =>
    obtain rfl := some_inj.mp hstep
    have hnone : ∀ i, ¬ w.Holds i := fun i hi ↦ by
      have := World.mem_holding.mpr hi
      rw [show w.holding = [] from hok] at this
      cases this
    exact ⟨fun hlock ↦ absurd rfl hlock, fun _ ↦ hnone, h.one, h.pending, h.deciding, h.flag, h.cause⟩
  | flagExpires =>
    obtain rfl := some_inj.mp hstep
    exact ⟨h.locked, h.free, h.one,
      fun hopen ↦ h.pending (.inr (hopen.resolve_left fun hflag ↦ hflag rfl)),
      h.deciding, fun c hc ↦ (by cases hc), h.cause⟩
  | phaseExpires =>
    obtain rfl := some_inj.mp hstep
    exact ⟨h.locked, h.free, h.one, h.pending, h.deciding, h.flag, h.cause⟩

/-- **A cancel reaches only the move it was accepted for.**  In every run in which the clean-up of a move
takes place and does not cross a cancel, a move that is rolled back for a cancel held the lock both when
the cancel found the lock held and when its flag was set. -/
theorem cancel_reaches_own {w : World} (h : Reach step InOrder init w) {i c : Nat} {m : Move}
    (hm : w.moves[i]? = some m) (hc : m.cause = some c) : w.Reaches i c :=
  (h.invariant own_init fun _ _ _ hw hok hstep ↦ hw.step hok hstep).cause i m c hm hc

/-- A call of the endpoint from beginning to end. -/
def cancels (c : Nat) : List Label :=
  [.cancel c (.lockExists false), .cancel c (.getPhase false), .cancel c (.setFlag .ok)]

/-- A move ends: its flag, if there is one, and its lock are deleted. -/
def ends (i : Nat) : List Label := [.move i (.clearFlag .ok), .move i (.releaseLock .ok)]

/-- A move is cancelled and ends, and another takes its place. -/
def cancelled : World :=
  ⟨some 1, none, .starting, [⟨.done, some 0⟩, ⟨.running, none⟩], [⟨.answered, [0], [0]⟩]⟩

theorem cancel_reaches_own_cancelled :
    cancelled.moves[0]? = some ⟨.done, some 0⟩ ∧ cancelled.Reaches 0 0 := by
  have hrun : exec step InOrder init (([.request, .move 0 (.setNX .ok),
      .move 0 (.writeStatus .starting .ok), .call] : List Label) ++ cancels 0 ++
      ([.move 0 (.poll false)] : List Label) ++ ends 0 ++
      ([.request, .move 1 (.setNX .ok)] : List Label)) = some cancelled := by decide +kernel
  exact ⟨rfl, cancel_reaches_own (reach_of_exec hrun) rfl rfl⟩

/-- The first move ends between the endpoint's look at the lock and its flag; the second, which
takes the lock after that, is rolled back for it. -/
theorem not_cancel_reaches_own : ∃ w, Reach step anyStep init w ∧
    w.moves[1]? = some ⟨.ended, some 0⟩ ∧ ∃ k, w.calls[0]? = some k ∧ k.checked = [0] ∧
      k.written = [] := by
  have hrun : exec step anyStep init (([.request, .move 0 (.setNX .ok),
      .move 0 (.writeStatus .starting .ok), .call, .cancel 0 (.lockExists false),
      .cancel 0 (.getPhase false), .move 0 .finish] : List Label) ++ ends 0 ++
      ([.cancel 0 (.setFlag .ok), .request, .move 1 (.setNX .ok),
        .move 1 (.poll false)] : List Label)) =
        some ⟨some 1, some 0, .starting, [⟨.done, none⟩, ⟨.ended, some 0⟩],
          [⟨.answered, [0], []⟩]⟩ := by decide +kernel
  exact ⟨_, reach_of_exec hrun, rfl, _, rfl, rfl, rfl⟩

end Dylaris.NodeMove.Cancel
