import Dylaris.Library.Machine
import Dylaris.Library.Places

/-!
# The power lock of a server

`node/power_lock.go`: the actions that start, stop or recreate a server's container run one after
another.  An action that has to wait takes the one waiting place of its slot, and sends away the one
that waits there.

The model is the lock of one server with every party that has asked for it, in the order of arrival.
A party is a goroutine in `lockServerPower`, or the reconciler in `tryLockServerPower`; a section
under `held` is one step, and so is a send to or a receive from `turn`.  Neither the channel nor the
map of waiters knows who runs: that one party has the turn is proved, not built in.
-/

set_option autoImplicit false

namespace Dylaris.Power

open Machine List Option Function Places

/-! ## Slots and payloads -/

def powerActions : List String := ["start", "stop", "kill", "restart"]

/-- `waitSlot`. -/
def waitSlot (action : String) : String :=
  if powerActions.contains action then "power" else action

/-- The fields of a `DockerConfig` that Core sends only when they change. -/
structure DockerConfig where
  ramPaddingMB : Option Int
  hostPort : Int
  containerPort : Int
deriving DecidableEq, Repr

/-- `inheritResourceChanges`. -/
def inheritResourceChanges (newer older : DockerConfig) : DockerConfig where
  ramPaddingMB := if newer.ramPaddingMB = none then older.ramPaddingMB else newer.ramPaddingMB
  hostPort := if newer.hostPort = 0 then older.hostPort else newer.hostPort
  containerPort := if newer.containerPort = 0 then older.containerPort else newer.containerPort

/-! ## The parties -/

/-- Where a party is. -/
inductive Phase
  /-- Registered, in the first `select`. -/
  | waiting
  /-- It has sent to `turn` and not yet looked whether it has been replaced. -/
  | turned
  /-- It has been replaced, and gives the turn back. -/
  | givingBack
  /-- The reconciler, between its turn and `setActive(true)`. -/
  | entering
  | running
  /-- Its release has called `setActive(false)`. -/
  | leaving
  /-- `lockServerPower` has reported false. -/
  | dropped
  /-- `tryLockServerPower` has reported false. -/
  | refused
  | done
deriving DecidableEq, Repr

/-- It has sent to `turn` and not received from it since. -/
def Phase.hasTurn : Phase → Bool
  | .turned | .givingBack | .entering | .running | .leaving => true
  | .waiting | .dropped | .refused | .done => false

/-- It has registered and not yet been told whether it is to run. -/
def Phase.undecided : Phase → Bool
  | .waiting | .turned => true
  | _ => false

/-- A caller of `lockServerPower`. -/
structure Party where
  /-- The slot of its action; the reconciler has none. -/
  slot : Option String
  cfg : Option DockerConfig
  phase : Phase
  /-- How often its `kick` channel has been closed. -/
  closes : Nat
deriving DecidableEq, Repr

namespace Party

/-- It waits for its turn: it is undecided and has not been sent away. -/
def Waits (p : Party) : Prop := p.phase.undecided = true ∧ p.closes = 0

instance (p : Party) : Decidable p.Waits := inferInstanceAs (Decidable (_ ∧ _))

def close (p : Party) : Party := { p with closes := p.closes + 1 }

end Party

/-! ## The lock -/

/-- A `serverPowerLock`.  The waiter of a slot is given by its place in the list of parties, which
stands for its `kick` channel and the pointer to its payload. -/
structure Lock where
  turn : Bool
  active : Bool
  waiting : String → Option Nat
  parties : List Party

def Lock.start : Lock := ⟨false, false, fun _ ↦ none, []⟩

inductive Label
  /-- `lockServerPower` up to its first `select`. -/
  | lock (action : String) (cfg : Option DockerConfig)
  /-- The two cases of that `select`. -/
  | takeTurn (i : Nat)
  | kicked (i : Nat)
  /-- The section under `held` that follows a turn. -/
  | check (i : Nat)
  /-- A replaced waiter receives from `turn`. -/
  | giveBack (i : Nat)
  /-- The two halves of a release. -/
  | setInactive (i : Nat)
  | leave (i : Nat)
  /-- `tryLockServerPower`, up to and with its `setActive(true)`. -/
  | tryLock
  | enter (i : Nat)
deriving DecidableEq, Repr

namespace Lock

variable (l : Lock)

/-- The party at a place, in a given phase. -/
def party (i : Nat) (phase : Phase) : Option Party := l.parties[i]?.filter fun p ↦ p.phase = phase

def goto (i : Nat) (p : Party) (phase : Phase) : Lock :=
  { l with parties := l.parties.set i { p with phase } }

/-- The payload of a new action: an `update_resources` takes over what the one it replaces changed. -/
def inherit (action : String) (cfg : Option DockerConfig) : Option DockerConfig :=
  match l.waiting (waitSlot action) with
  | none => cfg
  | some i =>
    match cfg, l.parties[i]?.bind Party.cfg with
    | some newer, some older =>
      if action = "update_resources" then some (inheritResourceChanges newer older) else cfg
    | _, _ => cfg

/-- The waiter of a slot is sent away. -/
def kick (slot : String) : List Party :=
  match l.waiting slot with
  | none => l.parties
  | some i => l.parties.modify i Party.close

def register (action : String) (cfg : Option DockerConfig) : Lock :=
  { l with
    waiting := update l.waiting (waitSlot action) (some l.parties.length)
    parties := l.kick (waitSlot action) ++ [⟨some (waitSlot action), l.inherit action cfg, .waiting, 0⟩] }

def step : Label → Option Lock
  | .lock action cfg => some (l.register action cfg)
  | .takeTurn i => (l.party i .waiting).bind fun p ↦
    if l.turn then none else some { l.goto i p .turned with turn := true }
  | .kicked i => (l.party i .waiting).bind fun p ↦
    if p.closes = 0 then none else some (l.goto i p .dropped)
  | .check i => (l.party i .turned).map fun p ↦
    if p.closes = 0 then
      { l.goto i p .running with
        active := true
        waiting := match p.slot with
          | some slot => update l.waiting slot none
          | none => l.waiting }
    else l.goto i p .givingBack
  | .giveBack i => (l.party i .givingBack).bind fun p ↦
    if l.turn then some { l.goto i p .dropped with turn := false } else none
  | .setInactive i => (l.party i .running).map fun p ↦ { l.goto i p .leaving with active := false }
  | .leave i => (l.party i .leaving).bind fun p ↦
    if l.turn then some { l.goto i p .done with turn := false } else none
  | .tryLock =>
    if l.turn then some { l with parties := l.parties ++ [⟨none, none, .refused, 0⟩] }
    else some { l with turn := true, parties := l.parties ++ [⟨none, none, .entering, 0⟩] }
  | .enter i => (l.party i .entering).map fun p ↦ { l.goto i p .running with active := true }

end Lock

/-! ## What a step can do -/

/-- The steps of the lock, with what each of them has found. -/
inductive Step (l : Lock) : Lock → Prop
  | register (action : String) (cfg : Option DockerConfig) : Step l (l.register action cfg)
  | takeTurn {i : Nat} {p : Party} (hp : l.parties[i]? = some p) (hphase : p.phase = .waiting)
      (hturn : l.turn = false) : Step l { l.goto i p .turned with turn := true }
  | kicked {i : Nat} {p : Party} (hp : l.parties[i]? = some p) (hphase : p.phase = .waiting)
      (hkick : p.closes ≠ 0) : Step l (l.goto i p .dropped)
  | replaced {i : Nat} {p : Party} (hp : l.parties[i]? = some p) (hphase : p.phase = .turned)
      (hkick : p.closes ≠ 0) : Step l (l.goto i p .givingBack)
  | run {i : Nat} {p : Party} (hp : l.parties[i]? = some p) (hphase : p.phase = .turned)
      (hkick : p.closes = 0) : Step l { l.goto i p .running with
        active := true
        waiting := match p.slot with
          | some slot => update l.waiting slot none
          | none => l.waiting }
  | giveBack {i : Nat} {p : Party} (hp : l.parties[i]? = some p) (hphase : p.phase = .givingBack) :
      Step l { l.goto i p .dropped with turn := false }
  | setInactive {i : Nat} {p : Party} (hp : l.parties[i]? = some p) (hphase : p.phase = .running) :
      Step l { l.goto i p .leaving with active := false }
  | leave {i : Nat} {p : Party} (hp : l.parties[i]? = some p) (hphase : p.phase = .leaving) :
      Step l { l.goto i p .done with turn := false }
  | refuse : Step l { l with parties := l.parties ++ [⟨none, none, .refused, 0⟩] }
  | tryLock (hturn : l.turn = false) :
      Step l { l with turn := true, parties := l.parties ++ [⟨none, none, .entering, 0⟩] }
  | enter {i : Nat} {p : Party} (hp : l.parties[i]? = some p) (hphase : p.phase = .entering) :
      Step l { l.goto i p .running with active := true }

section Steps

variable {l l' : Lock} {a : Label} {i j : Nat} {p q : Party} {phase : Phase}

theorem party_eq_some (h : l.party i phase = some p) : l.parties[i]? = some p ∧ p.phase = phase := by
  simpa [Lock.party, filter_eq_some_iff] using h

theorem of_party_bind {f : Party → Option Lock} (h : (l.party i phase).bind f = some l') :
    ∃ p, l.parties[i]? = some p ∧ p.phase = phase ∧ f p = some l' := by
  obtain ⟨p, hp, h⟩ := bind_eq_some_iff.mp h
  exact ⟨p, (party_eq_some hp).1, (party_eq_some hp).2, h⟩

theorem of_party_map {f : Party → Lock} (h : (l.party i phase).map f = some l') :
    ∃ p, l.parties[i]? = some p ∧ p.phase = phase ∧ f p = l' := by
  obtain ⟨p, hp, h⟩ := map_eq_some_iff.mp h
  exact ⟨p, (party_eq_some hp).1, (party_eq_some hp).2, h⟩

theorem step_of_step (h : l.step a = some l') : Step l l' := by
  cases a with
  | lock action cfg =>
    cases h
    exact .register action cfg
  | takeTurn i =>
    obtain ⟨p, hp, hphase, h⟩ := of_party_bind h
    obtain ⟨hturn, h⟩ := ite_none_left_eq_some.mp h
    cases h
    exact .takeTurn hp hphase (by simpa using hturn)
  | kicked i =>
    obtain ⟨p, hp, hphase, h⟩ := of_party_bind h
    obtain ⟨hkick, h⟩ := ite_none_left_eq_some.mp h
    cases h
    exact .kicked hp hphase hkick
  | check i =>
    obtain ⟨p, hp, hphase, rfl⟩ := of_party_map h
    split
    · exact .run hp hphase ‹_›
    · exact .replaced hp hphase ‹_›
  | giveBack i =>
    obtain ⟨p, hp, hphase, h⟩ := of_party_bind h
    split at h <;> cases h
    exact .giveBack hp hphase
  | setInactive i =>
    obtain ⟨p, hp, hphase, rfl⟩ := of_party_map h
    exact .setInactive hp hphase
  | leave i =>
    obtain ⟨p, hp, hphase, h⟩ := of_party_bind h
    split at h <;> cases h
    exact .leave hp hphase
  | tryLock =>
    rw [Lock.step] at h
    split at h <;> cases h
    · exact .refuse
    · exact .tryLock (by simpa using ‹¬ l.turn›)
  | enter i =>
    obtain ⟨p, hp, hphase, rfl⟩ := of_party_map h
    exact .enter hp hphase

/-! ### The parties after a step -/

theorem of_goto (h : (l.goto i p phase).parties[j]? = some q) :
    j = i ∧ q = { p with phase } ∨ j ≠ i ∧ l.parties[j]? = some q := getElem?_set h

theorem goto_self (hp : l.parties[i]? = some p) :
    (l.goto i p phase).parties[i]? = some { p with phase } := getElem?_set_self hp

theorem goto_ne (h : j ≠ i) : (l.goto i p phase).parties[j]? = l.parties[j]? := by
  rw [Lock.goto, getElem?_set_ne (Ne.symm h)]

theorem append_old {ps : List Party} (h : ps[j]? = some q) : (ps ++ [p])[j]? = some q := by
  rw [List.getElem?_append_left (List.getElem?_eq_some_iff.mp h).1, h]

theorem length_kick (slot : String) : (l.kick slot).length = l.parties.length := by
  rw [Lock.kick]
  split
  · rfl
  · exact length_modify ..

theorem getElem?_kick (slot : String) :
    (l.kick slot)[j]? = l.parties[j]?.map fun p ↦ if l.waiting slot = some j then p.close else p := by
  rw [Lock.kick]
  cases hw : l.waiting slot with
  | none => simp
  | some i =>
    by_cases hij : i = j <;> simp [hij]

section Register

variable {action : String} {cfg : Option DockerConfig}

theorem waiting_register : (l.register action cfg).waiting =
    update l.waiting (waitSlot action) (some l.parties.length) := rfl

theorem of_register (h : (l.register action cfg).parties[j]? = some q) :
    j = l.parties.length ∧ q = ⟨some (waitSlot action), l.inherit action cfg, .waiting, 0⟩ ∨
      ∃ p, l.parties[j]? = some p ∧
        q = if l.waiting (waitSlot action) = some j then p.close else p := by
  rcases getElem?_append_singleton h with h | ⟨hj, hq⟩
  · rw [getElem?_kick] at h
    obtain ⟨p, hp, hq⟩ := map_eq_some_iff.mp h
    exact .inr ⟨p, hp, hq.symm⟩
  · exact .inl ⟨by rw [hj, length_kick], hq⟩

theorem register_new : (l.register action cfg).parties[l.parties.length]? =
    some ⟨some (waitSlot action), l.inherit action cfg, .waiting, 0⟩ := by
  have h : (l.kick (waitSlot action)).length = l.parties.length := length_kick _
  rw [Lock.register, ← h]
  simp

theorem register_old (hp : l.parties[j]? = some p) : (l.register action cfg).parties[j]? =
    some (if l.waiting (waitSlot action) = some j then p.close else p) := by
  refine append_old ?_
  rw [getElem?_kick, hp, map_some]

end Register

end Steps

/-! ## The turn -/

/-- One party has the turn, and none has it while `turn` is empty. -/
structure OneTurn (l : Lock) : Prop where
  one {i j : Nat} {p q : Party} : l.parties[i]? = some p → l.parties[j]? = some q →
    p.phase.hasTurn = true → q.phase.hasTurn = true → i = j
  free {i : Nat} {p : Party} : l.turn = false → l.parties[i]? = some p → p.phase.hasTurn = false

namespace OneTurn

variable {l l' : Lock} {i : Nat} {p : Party} {phase : Phase}

/-- A party goes on: it has the turn afterwards only where it had it before or took it, and `turn` is
empty afterwards only where it gave it back. -/
theorem goto (h : OneTurn l) (hp : l.parties[i]? = some p)
    (hparties : l'.parties = (l.goto i p phase).parties)
    (hone : phase.hasTurn = true → p.phase.hasTurn = true ∨ l.turn = false)
    (hfree : l'.turn = false → phase.hasTurn = false ∧ (l.turn = false ∨ p.phase.hasTurn = true)) :
    OneTurn l' where
  one := by
    intro j k q r hq hr hqt hrt
    rw [hparties] at hq hr
    -- Somebody else who has the turn had it before; then `turn` was full, and nobody else had it.
    have hother : ∀ {m : Nat} {s : Party}, l.parties[m]? = some s → s.phase.hasTurn = true →
        phase.hasTurn = true → m = i := by
      intro m s hs hst hphase
      rcases hone hphase with hpt | hturn
      · exact h.one hs hp hst hpt
      · exact absurd (h.free hturn hs) (by rw [hst]; simp)
    rcases of_goto hq with ⟨hj, rfl⟩ | ⟨-, hq⟩ <;> rcases of_goto hr with ⟨hk, rfl⟩ | ⟨-, hr⟩
    · rw [hj, hk]
    · rw [hj, hother hr hrt hqt]
    · rw [hk, hother hq hqt hrt]
    · exact h.one hq hr hqt hrt
  free := by
    intro j q hturn hq
    rw [hparties] at hq
    obtain ⟨hphase, hbefore⟩ := hfree hturn
    rcases of_goto hq with ⟨rfl, rfl⟩ | ⟨hj, hq⟩
    · exact hphase
    · rcases hbefore with hturn | hpt
      · exact h.free hturn hq
      · by_contra hqt
        exact hj (h.one hq hp (by simpa using hqt) hpt)

theorem append (h : OneTurn l) (hparties : l'.parties = l.parties ++ [p])
    (hone : p.phase.hasTurn = true → l.turn = false)
    (hfree : l'.turn = false → l.turn = false ∧ p.phase.hasTurn = false) : OneTurn l' where
  one := by
    intro j k q r hq hr hqt hrt
    rw [hparties] at hq hr
    have hother : ∀ {m : Nat} {s : Party}, l.parties[m]? = some s → s.phase.hasTurn = true →
        p.phase.hasTurn = true → False := by
      intro m s hs hst hpt
      exact absurd (h.free (hone hpt) hs) (by rw [hst]; simp)
    rcases getElem?_append_singleton hq with hq | ⟨hj, hqp⟩ <;>
      rcases getElem?_append_singleton hr with hr | ⟨hk, hrp⟩
    · exact h.one hq hr hqt hrt
    · exact (hother hq hqt (hrp ▸ hrt)).elim
    · exact (hother hr hrt (hqp ▸ hqt)).elim
    · rw [hj, hk]
  free := by
    intro j q hturn hq
    rw [hparties] at hq
    rcases getElem?_append_singleton hq with hq | ⟨rfl, rfl⟩
    · exact h.free (hfree hturn).1 hq
    · exact (hfree hturn).2

theorem register (h : OneTurn l) (action : String) (cfg : Option DockerConfig) :
    OneTurn (l.register action cfg) := by
  -- Being sent away changes nothing about who has the turn.
  have hold : ∀ {j : Nat} {q : Party}, (l.register action cfg).parties[j]? = some q →
      q.phase.hasTurn = true → ∃ p : Party, l.parties[j]? = some p ∧ p.phase.hasTurn = true := by
    intro j q hq hqt
    rcases of_register hq with ⟨rfl, rfl⟩ | ⟨p, hp, rfl⟩
    · cases hqt
    · refine ⟨p, hp, ?_⟩
      split at hqt <;> exact hqt
  constructor
  · intro j k q r hq hr hqt hrt
    obtain ⟨q', hq', hqt'⟩ := hold hq hqt
    obtain ⟨r', hr', hrt'⟩ := hold hr hrt
    exact h.one hq' hr' hqt' hrt'
  · intro j q hturn hq
    by_contra hqt
    obtain ⟨q', hq', hqt'⟩ := hold hq (by simpa using hqt)
    exact absurd (h.free hturn hq') (by rw [hqt']; simp)

theorem step (h : OneTurn l) (hs : Step l l') : OneTurn l' := by
  cases hs with
  | register action cfg => exact h.register action cfg
  | takeTurn hp hphase hturn => exact h.goto hp rfl (fun _ ↦ .inr hturn) (by simp)
  | kicked hp hphase => exact h.goto hp rfl (by simp [Phase.hasTurn]) fun hturn ↦ ⟨rfl, .inl hturn⟩
  | replaced hp hphase | run hp hphase | setInactive hp hphase | enter hp hphase =>
    have hpt : Phase.hasTurn _ = true := congrArg Phase.hasTurn hphase
    exact h.goto hp rfl (fun _ ↦ .inl hpt) fun hturn ↦ absurd (h.free hturn hp) (by rw [hpt]; simp)
  | giveBack hp hphase | leave hp hphase =>
    exact h.goto hp rfl (by simp [Phase.hasTurn]) fun _ ↦ ⟨rfl, .inr (congrArg Phase.hasTurn hphase)⟩
  | refuse => exact h.append rfl (by simp [Phase.hasTurn]) fun hturn ↦ ⟨hturn, rfl⟩
  | tryLock hturn => exact h.append rfl (fun _ ↦ hturn) (by simp)

end OneTurn

/-! ## The slots -/

/-- The map of waiters holds exactly the parties that wait. -/
structure Slots (l : Lock) : Prop where
  waiter {slot : String} {i : Nat} : l.waiting slot = some i →
    ∃ p, l.parties[i]? = some p ∧ p.slot = some slot ∧ p.Waits
  waits {i : Nat} {p : Party} : l.parties[i]? = some p → p.Waits →
    ∃ slot, p.slot = some slot ∧ l.waiting slot = some i

namespace Slots

variable {l l' : Lock} {i : Nat} {p : Party} {phase : Phase}

section

variable (h : Slots l)

include h

theorem goto (hp : l.parties[i]? = some p)
    (hparties : l'.parties = (l.goto i p phase).parties) (hwaiting : l'.waiting = l.waiting)
    (hwaits : Party.Waits { p with phase } ↔ p.Waits) : Slots l' where
  waiter := by
    intro slot j hj
    rw [hwaiting] at hj
    obtain ⟨q, hq, hslot, hw⟩ := h.waiter hj
    rw [hparties]
    by_cases hji : j = i
    · subst hji
      obtain rfl : p = q := some_inj.mp (hp.symm.trans hq)
      exact ⟨_, goto_self hp, hslot, hwaits.mpr hw⟩
    · exact ⟨q, (goto_ne hji).trans hq, hslot, hw⟩
  waits := by
    intro j q hq hw
    rw [hparties] at hq
    rw [hwaiting]
    rcases of_goto hq with ⟨rfl, rfl⟩ | ⟨-, hq⟩
    · obtain ⟨slot, hslot, hj⟩ := h.waits hp (hwaits.mp hw)
      exact ⟨slot, hslot, hj⟩
    · exact h.waits hq hw

/-- The waiter of a slot goes on to run, and leaves its place. -/
theorem run (hp : l.parties[i]? = some p) (hw : p.Waits) {slot : String}
    (hslot : p.slot = some slot) (hparties : l'.parties = (l.goto i p .running).parties)
    (hwaiting : l'.waiting = update l.waiting slot none) : Slots l' where
  waiter := by
    intro slot' j hj
    rw [hwaiting] at hj
    by_cases hs : slot' = slot
    · rw [hs, update_self] at hj
      cases hj
    rw [update_of_ne hs] at hj
    obtain ⟨q, hq, hslot', hw'⟩ := h.waiter hj
    -- The party of another slot is another party.
    have hji : j ≠ i := by
      rintro rfl
      obtain rfl : p = q := some_inj.mp (hp.symm.trans hq)
      exact hs (some_inj.mp (hslot'.symm.trans hslot))
    rw [hparties]
    exact ⟨q, (goto_ne hji).trans hq, hslot', hw'⟩
  waits := by
    intro j q hq hw'
    rw [hparties] at hq
    rw [hwaiting]
    rcases of_goto hq with ⟨-, rfl⟩ | ⟨hji, hq⟩
    · exact absurd hw'.1 (by simp [Phase.undecided])
    · obtain ⟨slot', hslot', hj⟩ := h.waits hq hw'
      obtain ⟨_, hslot₁, hi⟩ := h.waits hp hw
      obtain rfl := some_inj.mp (hslot.symm.trans hslot₁)
      have hs : slot' ≠ slot := by
        rintro rfl
        exact hji (some_inj.mp (hj.symm.trans hi))
      exact ⟨slot', hslot', by rw [update_of_ne hs, hj]⟩

theorem append (hparties : l'.parties = l.parties ++ [p])
    (hwaiting : l'.waiting = l.waiting) (hp : ¬p.Waits) : Slots l' where
  waiter := by
    intro slot j hj
    rw [hwaiting] at hj
    obtain ⟨q, hq, hslot, hw⟩ := h.waiter hj
    exact ⟨q, by rw [hparties, append_old hq], hslot, hw⟩
  waits := by
    intro j q hq hw
    rw [hparties] at hq
    rw [hwaiting]
    rcases getElem?_append_singleton hq with hq | ⟨-, rfl⟩
    · exact h.waits hq hw
    · exact absurd hw hp

theorem register (action : String) (cfg : Option DockerConfig) :
    Slots (l.register action cfg) where
  waiter := by
    intro slot j hj
    by_cases hs : slot = waitSlot action
    · subst hs
      rw [waiting_register, update_self] at hj
      cases hj
      exact ⟨_, register_new, rfl, rfl, rfl⟩
    · rw [waiting_register, update_of_ne hs] at hj
      obtain ⟨q, hq, hslot, hw⟩ := h.waiter hj
      refine ⟨q, ?_, hslot, hw⟩
      rw [register_old hq, if_neg]
      -- The waiter that is sent away has the slot of the new action.
      intro hj'
      obtain ⟨q', hq', hslot', -⟩ := h.waiter hj'
      obtain rfl : q = q' := some_inj.mp (hq.symm.trans hq')
      exact hs (some_inj.mp (hslot.symm.trans hslot'))
  waits := by
    intro j q hq hw
    rcases of_register hq with ⟨rfl, rfl⟩ | ⟨p, hp, rfl⟩
    · exact ⟨_, rfl, update_self ..⟩
    · split at hw
      · exact absurd hw.2 (Nat.succ_ne_zero _)
      rename_i hnot
      rw [if_neg hnot]
      obtain ⟨slot, hslot, hj⟩ := h.waits hp hw
      have hs : slot ≠ waitSlot action := by
        rintro rfl
        exact hnot hj
      exact ⟨slot, hslot, (update_of_ne hs ..).trans hj⟩

theorem step (hs : Step l l') : Slots l' := by
  cases hs with
  | register action cfg => exact h.register action cfg
  | kicked hp hphase hkick | replaced hp hphase hkick =>
    exact h.goto hp rfl rfl (by simp [Party.Waits, hkick])
  | @run i p hp hphase hkick =>
    have hw : p.Waits := ⟨congrArg Phase.undecided hphase, hkick⟩
    obtain ⟨slot, hslot, -⟩ := h.waits hp hw
    exact h.run hp hw hslot rfl (by rw [hslot])
  | takeTurn hp hphase | giveBack hp hphase | setInactive hp hphase | leave hp hphase
  | enter hp hphase => exact h.goto hp rfl rfl (by simp [Party.Waits, hphase, Phase.undecided])
  | refuse | tryLock => exact h.append rfl rfl (by decide)

/-- Two parties that wait have different slots. -/
theorem eq_of_slot_eq {j : Nat} {q : Party} (hp : l.parties[i]? = some p)
    (hq : l.parties[j]? = some q) (hpw : p.Waits) (hqw : q.Waits) (hslot : p.slot = q.slot) :
    i = j := by
  obtain ⟨slot, hps, hi⟩ := h.waits hp hpw
  obtain ⟨slot', hqs, hj⟩ := h.waits hq hqw
  obtain rfl : slot = slot' := some_inj.mp (hps.symm.trans (hslot.trans hqs))
  exact some_inj.mp (hi.symm.trans hj)

end

end Slots

/-! ## Who is sent away -/

variable {i : Nat} {l : Lock} {p : Party}

/-- A step keeps every party in its place, with its slot. -/
theorem Step.slot_eq {l' : Lock} (h : Step l l')
    (hp : l.parties[i]? = some p) : ∃ p', l'.parties[i]? = some p' ∧ p'.slot = p.slot := by
  have hgoto : ∀ {j : Nat} {q : Party} (phase : Phase), l.parties[j]? = some q →
      ∃ p', (l.goto j q phase).parties[i]? = some p' ∧ p'.slot = p.slot := by
    intro j q phase hq
    by_cases hij : i = j
    · subst hij
      obtain rfl : p = q := some_inj.mp (hp.symm.trans hq)
      exact ⟨_, goto_self hp, rfl⟩
    · exact ⟨p, (goto_ne hij).trans hp, rfl⟩
  cases h with
  | register action cfg =>
    refine ⟨_, register_old hp, ?_⟩
    split <;> rfl
  | takeTurn hq | kicked hq | replaced hq | run hq | giveBack hq | setInactive hq | leave hq
  | enter hq => exact hgoto _ hq
  | refuse | tryLock => exact ⟨p, append_old hp, rfl⟩

/-- Only a new action sends a party away: one of its slot, for which it waits. -/
theorem Step.closes_ne_zero {l' : Lock} (h : Step l l') (hslots : Slots l)
    (hp : l'.parties[i]? = some p) (hclosed : p.closes ≠ 0) :
    (∃ q, l.parties[i]? = some q ∧ q.slot = p.slot ∧ q.closes = p.closes) ∨
      ∃ action cfg q, l' = l.register action cfg ∧ l.parties[i]? = some q ∧ q.Waits ∧
        q.slot = some (waitSlot action) ∧ p = q.close := by
  have hgoto : ∀ {j : Nat} {q : Party} (phase : Phase), l.parties[j]? = some q →
      (l.goto j q phase).parties[i]? = some p →
      ∃ q, l.parties[i]? = some q ∧ q.slot = p.slot ∧ q.closes = p.closes := by
    intro j q phase hq hp
    rcases of_goto hp with ⟨rfl, rfl⟩ | ⟨-, hp⟩
    · exact ⟨q, hq, rfl, rfl⟩
    · exact ⟨p, hp, rfl, rfl⟩
  have happend : ∀ phase : Phase, (l.parties ++ [⟨none, none, phase, 0⟩])[i]? = some p →
      ∃ q, l.parties[i]? = some q ∧ q.slot = p.slot ∧ q.closes = p.closes := by
    intro phase hp
    rcases getElem?_append_singleton hp with hp | ⟨-, rfl⟩
    · exact ⟨p, hp, rfl, rfl⟩
    · exact absurd rfl hclosed
  cases h with
  | register action cfg =>
    rcases of_register hp with ⟨-, rfl⟩ | ⟨q, hq, rfl⟩
    · exact absurd rfl hclosed
    · by_cases hkick : l.waiting (waitSlot action) = some i
      · obtain ⟨q', hq', hslot, hw⟩ := hslots.waiter hkick
        obtain rfl : q = q' := some_inj.mp (hq.symm.trans hq')
        exact .inr ⟨action, cfg, q, rfl, hq, hw, hslot, if_pos hkick⟩
      · exact .inl ⟨q, hq, by rw [if_neg hkick], by rw [if_neg hkick]⟩
  | takeTurn hq | kicked hq | replaced hq | run hq | giveBack hq | setInactive hq | leave hq
  | enter hq => exact .inl (hgoto _ hq hp)
  | refuse | tryLock => exact .inl (happend _ hp)

/-- What is true of the parties that have been sent away. -/
structure Kicked (l : Lock) : Prop where
  once {i : Nat} {p : Party} : l.parties[i]? = some p → p.closes ≤ 1
  newer {i : Nat} {p : Party} : l.parties[i]? = some p → p.closes ≠ 0 →
    ∃ j q, i < j ∧ l.parties[j]? = some q ∧ q.slot = p.slot
  dropped {i : Nat} {p : Party} : l.parties[i]? = some p →
    p.phase = .dropped ∨ p.phase = .givingBack → p.closes ≠ 0

namespace Kicked

variable {l l' : Lock}

theorem step (h : Kicked l) (hslots : Slots l) (hs : Step l l') : Kicked l' where
  once := by
    intro i p hp
    by_cases hclosed : p.closes = 0
    · omega
    rcases hs.closes_ne_zero hslots hp hclosed with ⟨q, hq, -, hcloses⟩ | ⟨_, _, q, -, hq, hw, -, rfl⟩
    · exact hcloses ▸ h.once hq
    · exact Nat.le_of_eq (congrArg Nat.succ hw.2)
  newer := by
    intro i p hp hclosed
    rcases hs.closes_ne_zero hslots hp hclosed with
      ⟨q, hq, hslot, hcloses⟩ | ⟨action, cfg, q, rfl, hq, -, hslot, rfl⟩
    · obtain ⟨j, r, hij, hr, hrs⟩ := h.newer hq (hcloses ▸ hclosed)
      obtain ⟨r', hr', hrs'⟩ := hs.slot_eq hr
      exact ⟨j, r', hij, hr', hrs'.trans (hrs.trans hslot)⟩
    · exact ⟨_, _, (List.getElem?_eq_some_iff.mp hq).1, register_new, hslot.symm⟩
  dropped := by
    intro i p hp hphase
    have hgoto : ∀ {j : Nat} {q : Party} (phase : Phase), l.parties[j]? = some q →
        (phase = .dropped ∨ phase = .givingBack → q.closes ≠ 0) →
        (l.goto j q phase).parties[i]? = some p → p.closes ≠ 0 := by
      intro j q phase hq hcloses hp
      rcases of_goto hp with ⟨-, rfl⟩ | ⟨-, hp⟩
      · exact hcloses hphase
      · exact h.dropped hp hphase
    have happend : ∀ phase : Phase, ¬(phase = .dropped ∨ phase = .givingBack) →
        (l.parties ++ [⟨none, none, phase, 0⟩])[i]? = some p → p.closes ≠ 0 := by
      intro phase hnot hp
      rcases getElem?_append_singleton hp with hp | ⟨-, rfl⟩
      · exact h.dropped hp hphase
      · exact absurd hphase hnot
    cases hs with
    | register action cfg =>
      rcases of_register hp with ⟨-, rfl⟩ | ⟨q, hq, rfl⟩
      · simp at hphase
      · split at hphase
        · rename_i hkick
          rw [if_pos hkick]
          exact Nat.succ_ne_zero _
        · rename_i hkick
          rw [if_neg hkick]
          exact h.dropped hq hphase
    | kicked hq _ hkick | replaced hq _ hkick => exact hgoto _ hq (fun _ ↦ hkick) hp
    | giveBack hq hgiving => exact hgoto _ hq (fun _ ↦ h.dropped hq (.inr hgiving)) hp
    | takeTurn hq | run hq | setInactive hq | leave hq | enter hq =>
      exact hgoto _ hq (by simp) hp
    | refuse | tryLock => exact happend _ (by simp) hp

end Kicked

/-- The invariant of a run. -/
structure Serialised (l : Lock) : Prop where
  turn : OneTurn l
  slots : Slots l
  kicked : Kicked l

theorem serialised_start : Serialised .start where
  turn := ⟨by simp [Lock.start], by simp [Lock.start]⟩
  slots := ⟨by simp [Lock.start], by simp [Lock.start]⟩
  kicked := ⟨by simp [Lock.start], by simp [Lock.start], by simp [Lock.start]⟩

theorem serialised_of_reach (h : Reach Lock.step anyStep .start l) : Serialised l := by
  refine h.invariant serialised_start fun l a l' hl _ hstep ↦ ?_
  have hs := step_of_step hstep
  exact ⟨hl.turn.step hs, hl.slots.step hs, hl.kicked.step hl.slots hs⟩

/-- A party that has been sent away was waiting when a newer action of its slot arrived. -/
theorem exists_arrival (h : Reach Lock.step anyStep .start l)
    (hp : l.parties[i]? = some p) (hclosed : p.closes ≠ 0) :
    ∃ before action cfg after q, Reach Lock.step anyStep .start before ∧
      before.parties[i]? = some q ∧ q.Waits ∧ p.slot = some (waitSlot action) ∧
      before.step (.lock action cfg) = some after ∧ Reach Lock.step anyStep after l := by
  induction h generalizing p with
  | refl => simp [Lock.start] at hp
  | @tail l l' a hreach hok hstep ih =>
    have hs := step_of_step hstep
    rcases hs.closes_ne_zero (serialised_of_reach hreach).slots hp hclosed with
      ⟨q, hq, hslot, hcloses⟩ | ⟨action, cfg, q, rfl, hq, hw, hslot, rfl⟩
    · obtain ⟨before, action, cfg, after, r, hbefore, hr, hw, hrs, hlock, hafter⟩ :=
        ih hq (hcloses ▸ hclosed)
      exact ⟨before, action, cfg, after, r, hbefore, hr, hw, hslot ▸ hrs, hlock,
        hafter.tail hok hstep⟩
    · exact ⟨l, action, cfg, _, q, hreach, hq, hw, hslot, rfl, .refl⟩

/-- **Power actions run one after another, and only overtaken ones are dropped.**  In every state that
any number of actions and reconcilers reach, one party has the turn; one action waits in each slot;
an action that was dropped was waiting when another of its slot arrived, so that a newer one of its
slot is there; and no channel has been closed twice. -/
theorem power_actions_serialised {l : Lock} (h : Reach Lock.step anyStep .start l) :
    (∀ (i j : Nat) (p q : Party), l.parties[i]? = some p → l.parties[j]? = some q →
      p.phase.hasTurn = true → q.phase.hasTurn = true → i = j) ∧
    (∀ (i j : Nat) (p q : Party), l.parties[i]? = some p → l.parties[j]? = some q →
      p.Waits → q.Waits → p.slot = q.slot → i = j) ∧
    (∀ (i : Nat) (p : Party), l.parties[i]? = some p → p.phase = .dropped →
      ∃ before action cfg after q, Reach Lock.step anyStep .start before ∧
        before.parties[i]? = some q ∧ q.Waits ∧ p.slot = some (waitSlot action) ∧
        before.step (.lock action cfg) = some after ∧ Reach Lock.step anyStep after l) ∧
    (∀ (i : Nat) (p : Party), l.parties[i]? = some p → p.phase = .dropped →
      ∃ j q, i < j ∧ l.parties[j]? = some q ∧ q.slot = p.slot) ∧
    (∀ (i : Nat) (p : Party), l.parties[i]? = some p → p.closes ≤ 1) := by
  have hl := serialised_of_reach h
  refine ⟨fun i j p q ↦ hl.turn.one, fun i j p q hp hq ↦ hl.slots.eq_of_slot_eq hp hq, ?_, ?_,
    fun i p ↦ hl.kicked.once⟩
  · intro i p hp hdropped
    exact exists_arrival h hp (hl.kicked.dropped hp (.inl hdropped))
  · intro i p hp hdropped
    exact hl.kicked.newer hp (hl.kicked.dropped hp (.inl hdropped))

/-- A start runs and another waits; a stop arrives after that one has taken the turn and before it has
looked. -/
def overtaken : List Label :=
  [.lock "start" none, .takeTurn 0, .check 0, .lock "start" none, .setInactive 0, .leave 0,
    .takeTurn 1, .lock "stop" none, .check 1, .giveBack 1]

/-- The waiting start is dropped, and the stop is there. -/
theorem power_actions_serialised_overtaken : ∃ l, Reach Lock.step anyStep .start l ∧
    l.parties[1]? = some ⟨some "power", none, .dropped, 1⟩ ∧
    ∃ j q, 1 < j ∧ l.parties[j]? = some q ∧ q.slot = some "power" := by
  have hexec : (exec Lock.step anyStep .start overtaken).map (·.parties[1]?) =
      some (some ⟨some "power", none, .dropped, 1⟩) := by decide +kernel
  obtain ⟨l, hl, hp⟩ := exists_reach_of_exec hexec
  obtain ⟨-, -, -, hnewer, -⟩ := power_actions_serialised hl
  exact ⟨l, hl, hp, hnewer 1 _ hp rfl⟩

/-! ## Whoever waits can run -/

/-- A step of a party that is there. -/
def Inside (_ : Lock) : Label → Prop
  | .lock _ _ | .tryLock => False
  | _ => True

theorem party_eq {phase : Phase} (hp : l.parties[i]? = some p) (hphase : p.phase = phase) :
    l.party i phase = some p := by
  simp [Lock.party, hp, hphase]

/-- While `turn` is full, somebody has it. -/
theorem exists_holder (h : Reach Lock.step anyStep .start l) (hturn : l.turn = true) :
    ∃ (i : Nat) (p : Party), l.parties[i]? = some p ∧ p.phase.hasTurn = true := by
  induction h with
  | refl => cases hturn
  | @tail l l' a _ _ hstep ih =>
    cases step_of_step hstep with
    | register action cfg =>
      obtain ⟨i, p, hp, hpt⟩ := ih hturn
      refine ⟨i, _, register_old hp, ?_⟩
      split <;> exact hpt
    | @kicked j q hq hphase =>
      obtain ⟨i, p, hp, hpt⟩ := ih hturn
      have hij : i ≠ j := by
        rintro rfl
        cases hp.symm.trans hq
        rw [hphase] at hpt
        cases hpt
      exact ⟨i, p, (goto_ne hij).trans hp, hpt⟩
    | refuse =>
      obtain ⟨i, p, hp, hpt⟩ := ih hturn
      exact ⟨i, p, append_old hp, hpt⟩
    | tryLock => exact ⟨l.parties.length, _, getElem?_concat_length .., rfl⟩
    | takeTurn hp _ _ | replaced hp _ _ | run hp _ _ | setInactive hp _ | enter hp _ =>
      exact ⟨_, _, goto_self hp, rfl⟩
    | giveBack _ _ | leave _ _ => cases hturn

/-- The party can go on until `turn` is empty, and the others stay as they are. -/
def Frees (l : Lock) (i : Nat) : Prop :=
  ∃ l', Reach Lock.step Inside l l' ∧ l'.turn = false ∧ ∀ j ≠ i, l'.parties[j]? = l.parties[j]?

theorem Frees.of_step {l' : Lock} {a : Label} {phase : Phase} (hstep : l.step a = some l')
    (ha : Inside l a)
    (hparties : l'.parties = (l.goto i p phase).parties) (h : l'.turn = false ∨ Frees l' i) :
    Frees l i := by
  have hsame : ∀ j ≠ i, l'.parties[j]? = l.parties[j]? := fun j hj ↦ hparties ▸ goto_ne hj
  rcases h with h | ⟨l₁, hreach, hturn, hrest⟩
  · exact ⟨l', .tail .refl ha hstep, h, hsame⟩
  · exact ⟨l₁, (Reach.tail .refl ha hstep).trans hreach, hturn,
      fun j hj ↦ (hrest j hj).trans (hsame j hj)⟩

theorem frees_leaving (hp : l.parties[i]? = some p) (hphase : p.phase = .leaving)
    (hturn : l.turn = true) : Frees l i := by
  have hleave : l.step (.leave i) = some { l.goto i p .done with turn := false } := by
    rw [Lock.step, party_eq hp hphase, bind_some, if_pos hturn]
  exact .of_step hleave trivial rfl (.inl rfl)

theorem frees_running (hp : l.parties[i]? = some p) (hphase : p.phase = .running)
    (hturn : l.turn = true) : Frees l i := by
  have hinactive : l.step (.setInactive i) = some { l.goto i p .leaving with active := false } := by
    rw [Lock.step, party_eq hp hphase, map_some]
  exact .of_step hinactive trivial rfl (.inr (frees_leaving (goto_self hp) rfl hturn))

theorem frees_givingBack (hp : l.parties[i]? = some p) (hphase : p.phase = .givingBack)
    (hturn : l.turn = true) : Frees l i := by
  have hback : l.step (.giveBack i) = some { l.goto i p .dropped with turn := false } := by
    rw [Lock.step, party_eq hp hphase, bind_some, if_pos hturn]
  exact .of_step hback trivial rfl (.inl rfl)

theorem exists_run (hp : l.parties[i]? = some p) (hphase : p.phase = .turned) (hcloses : p.closes = 0) :
    ∃ l', l.step (.check i) = some l' ∧ l'.parties = (l.goto i p .running).parties ∧
      l'.turn = l.turn := by
  obtain ⟨l', hcheck⟩ : ∃ l', l.step (.check i) = some l' :=
    ⟨_, by rw [Lock.step, party_eq hp hphase, map_some]⟩
  refine ⟨l', hcheck, ?_⟩
  rw [Lock.step, party_eq hp hphase, map_some, if_pos hcloses] at hcheck
  cases hcheck
  exact ⟨rfl, rfl⟩

/-- Whoever has the turn can give it back, wherever it stands. -/
theorem frees_of_hasTurn (hp : l.parties[i]? = some p) (hpt : p.phase.hasTurn = true)
    (hturn : l.turn = true) : Frees l i := by
  cases hphase : p.phase with
  | turned =>
    by_cases hcloses : p.closes = 0
    · obtain ⟨l', hcheck, hparties, hsame⟩ := exists_run hp hphase hcloses
      have hp' : l'.parties[i]? = some { p with phase := .running } := hparties ▸ goto_self hp
      exact .of_step hcheck trivial hparties (.inr (frees_running hp' rfl (hsame.trans hturn)))
    · have hcheck : l.step (.check i) = some (l.goto i p .givingBack) := by
        rw [Lock.step, party_eq hp hphase, map_some, if_neg hcloses]
      exact .of_step hcheck trivial rfl (.inr (frees_givingBack (goto_self hp) rfl hturn))
  | givingBack => exact frees_givingBack hp hphase hturn
  | entering =>
    have henter : l.step (.enter i) = some { l.goto i p .running with active := true } := by
      rw [Lock.step, party_eq hp hphase, map_some]
    exact .of_step henter trivial rfl (.inr (frees_running (goto_self hp) rfl hturn))
  | running => exact frees_running hp hphase hturn
  | leaving => exact frees_leaving hp hphase hturn
  | waiting | dropped | refused | done =>
    rw [hphase] at hpt
    cases hpt

/-- **An action that waits can run.**  In every state, an action that waits and has not been sent away gets
its turn by steps of the parties there are: whoever has the turn can give it back, wherever it stands. -/
theorem waiting_can_run (h : Reach Lock.step anyStep .start l) (hp : l.parties[i]? = some p)
    (hw : p.Waits) : ∃ l', Reach Lock.step Inside l l' ∧
      l'.parties[i]? = some { p with phase := .running } := by
  obtain ⟨hundecided, hcloses⟩ := hw
  have hrun {l : Lock} {q : Party} (hq : l.parties[i]? = some q) (hphase : q.phase = .turned)
      (hcloses : q.closes = 0) : ∃ l', Reach Lock.step Inside l l' ∧
        l'.parties[i]? = some { q with phase := .running } := by
    obtain ⟨l', hcheck, hparties, -⟩ := exists_run hq hphase hcloses
    exact ⟨l', .tail (a := .check i) .refl trivial hcheck, hparties ▸ goto_self hq⟩
  cases hphase : p.phase with
  | turned => exact hrun hp hphase hcloses
  | waiting =>
    obtain ⟨l₁, hreach, hfree, hsame⟩ : ∃ l₁, Reach Lock.step Inside l l₁ ∧
        l₁.turn = false ∧ l₁.parties[i]? = some p := by
      cases hturn : l.turn with
      | false => exact ⟨l, .refl, hturn, hp⟩
      | true =>
        obtain ⟨j, q, hq, hqt⟩ := exists_holder h hturn
        obtain ⟨l₁, hreach, hfree, hsame⟩ := frees_of_hasTurn hq hqt hturn
        have hij : i ≠ j := by
          rintro rfl
          cases hp.symm.trans hq
          rw [hphase] at hqt
          cases hqt
        exact ⟨l₁, hreach, hfree, (hsame i hij).trans hp⟩
    have htake : l₁.step (.takeTurn i) = some { l₁.goto i p .turned with turn := true } := by
      rw [Lock.step, party_eq hsame hphase, bind_some, hfree]
      rfl
    obtain ⟨l', hrest, hp'⟩ :=
      hrun (l := { l₁.goto i p .turned with turn := true }) (goto_self hsame) rfl hcloses
    have hturned : Reach Lock.step Inside l _ := .tail (a := .takeTurn i) hreach trivial htake
    exact ⟨l', hturned.trans hrest, hp'⟩
  | givingBack | entering | running | leaving | dropped | refused | done =>
    rw [hphase] at hundecided
    cases hundecided

/-- A start waits while another runs. -/
theorem waiting_can_run_start : ∃ l l' : Lock, Reach Lock.step Inside l l' ∧
    l'.parties[1]? = some ⟨some "power", none, .running, 0⟩ := by
  have hexec : (exec Lock.step anyStep .start (overtaken.take 4)).map (·.parties[1]?) =
      some (some ⟨some "power", none, .waiting, 0⟩) := by decide +kernel
  obtain ⟨l, hl, hp⟩ := exists_reach_of_exec hexec
  exact ⟨l, waiting_can_run hl hp ⟨rfl, rfl⟩⟩

end Dylaris.Power
