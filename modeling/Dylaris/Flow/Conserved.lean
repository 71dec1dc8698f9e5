import Dylaris.Flow.Model

/-!
# Credit is conserved

While a streaming request is open at both ends, every credit of its window is in one of five places: with
the node, with a counted message on its way to Core, with one that Core has buffered, with one that the
reader has been given and that has not been granted back, or in a grant on its way to the node.  Each step
moves a credit from one place to the next (`Conserved.step`).

The reader's channel holds one message that counts as handed on, so Core may hold one more than the window
(`not_streaming_credit_conserved`).  That it holds no more, and that the node is not left without credit for
good, follow from the sum.  They end with the flow: what a goroutine of the node still sends after `closeFlow`
goes out uncontrolled.
-/

set_option autoImplicit false

namespace Dylaris.Flow

open List Option Bool Machine

open Registry (Msg Chan Pump flowGrantEvery)

/-- How many of the messages count against the window. -/
def counted (l : List Msg) : Nat := l.countP Msg.counted

/-- What a `FlowCredit` grants. -/
def FlowCredit.granted : FlowCredit → Nat
  | .grant k => k
  | .cancel => 0

@[simp] theorem counted_nil : counted [] = 0 := rfl

@[simp] theorem counted_append (l l' : List Msg) : counted (l ++ l') = counted l + counted l' :=
  countP_append

theorem counted_cons (m : Msg) (l : List Msg) : counted (m :: l) = counted l + counted [m] := by
  rw [counted, counted, counted, countP_cons, countP_singleton]

theorem counted_singleton (m : Msg) : counted [m] = if m.counted then 1 else 0 := List.countP_singleton

/-- A message that is taken out of a list. -/
theorem counted_eraseIdx {l : List Msg} {i : Nat} {m : Msg} (h : l[i]? = some m) :
    counted (l.eraseIdx i) + counted [m] = counted l := by
  induction l generalizing i with
  | nil => simp at h
  | cons x l ih =>
    cases i with
    | zero =>
      obtain rfl : x = m := by simpa using h
      rw [eraseIdx_cons_zero, counted_cons x l]
    | succ i =>
      have hi := ih (i := i) (by simpa using h)
      rw [eraseIdx_cons_succ, counted_cons x (l.eraseIdx i), counted_cons x l]
      omega

namespace Request

variable {r r' : Request}

/-- The counted messages on their way to Core. -/
def inFlight (r : Request) : Nat := counted r.sending + counted r.up

/-- The counted messages that Core has and that the reader has not been given. -/
def buffered (r : Request) (p : Pump) : Nat := counted r.ch.buffer + counted p.hand.toList

/-- What Core holds: with what is buffered, what is in the reader's channel. -/
def held (r : Request) (p : Pump) : Nat := r.buffered p + counted r.out.buffer

/-- What is granted on the way to the node. -/
def granting (r : Request) : Nat := (r.down.map FlowCredit.granted).sum

/-- The messages of the request that the pump has not handed on. -/
def messages (r : Request) : List Msg :=
  r.sending ++ r.up ++ r.ch.buffer ++ (r.pump.bind Pump.hand).toList

/-- The request is open at both ends: the node has its flow, and on Core the request is pending and its
pump runs. -/
structure Open (r : Request) (f : Credit) (p : Pump) : Prop where
  flow : r.flow = some f
  pump : r.pump = some p
  registered : r.registered = true
  connected : r.connected = true

/-- The invariant. -/
structure Conserved (r : Request) : Prop where
  sum : ∀ f p, r.Open f p → f.n + r.inFlight + r.buffered p + p.taken + r.granting = flowWindow
  batch : ∀ p, r.pump = some p → p.taken < flowGrantEvery
  /-- Every counted message that was sent with a credit says so. -/
  marked : r.flow.isSome → ∀ m ∈ r.messages, m.counted → m.flowWindow ≠ 0
  isOpen : r.registered = true → r.ch.closed = false

theorem conserved_start : Request.start.Conserved where
  sum := by
    rintro f p ⟨hf, hp, _, _⟩
    cases hf
    cases hp
    rfl
  batch := by
    intro p hp
    cases hp
    decide
  marked := by simp [start, messages, Registry.Chan.make, Registry.Pump.start]
  isOpen _ := rfl

/-! ## The node -/

variable {flow : Option Credit} {m : Msg}

/-- What `awaitCredit` lets through: an uncounted message, any message of a request without a flow, or a
counted one with a credit of the flow. -/
theorem awaitCredit_ok {flow' : Option Credit} {m' : Msg}
    (h : awaitCredit flow m = some (flow', .ok m')) :
    (m'.counted = false ∧ flow' = flow) ∨ (flow = none ∧ flow' = none) ∨
      ∃ f, flow = some f ∧ 0 < f.n ∧ flow' = some { f with n := f.n - 1 } ∧ m'.counted ∧
        m'.flowWindow = 1 := by
  revert h
  fun_cases awaitCredit flow m
  next hcounted =>
    rintro ⟨⟩
    exact .inl ⟨by simpa using hcounted, rfl⟩
  next =>
    rintro ⟨⟩
    exact .inr (.inl ⟨rfl, rfl⟩)
  next hcounted f =>
    have hcounted : m.counted = true := by simpa using hcounted
    intro h
    obtain ⟨got, hgot, h⟩ := map_eq_some_iff.mp h
    revert hgot
    fun_cases Credit.acquire f <;> rintro ⟨⟩ <;> cases h
    exact .inr (.inr ⟨f, rfl, ‹_›, rfl, hcounted, rfl⟩)

theorem awaitCredit_error {flow' : Option Credit} {err : String}
    (h : awaitCredit flow m = some (flow', .error err)) : flow' = flow := by
  rw [awaitCredit.eq_def] at h
  split at h
  · cases h
  cases flow with
  | none => cases h
  | some f =>
    obtain ⟨got, hgot, h⟩ := map_eq_some_iff.mp h
    cases got with
    | error err' =>
      cases h
      rfl
    | ok f' => cases h

section

variable (h : r.Conserved)

include h

theorem Conserved.awaitCredit {m' : Msg}
    (hm : Flow.awaitCredit r.flow m = some (flow, .ok m')) :
    { r with flow := flow, sending := r.sending ++ [m'] }.Conserved where
  sum := by
    rintro f p ⟨hf, hp, hreg, hconn⟩
    have hflow : flow = some f := hf
    show f.n + (counted (r.sending ++ [m']) + counted r.up) + r.buffered p + p.taken + r.granting = flowWindow
    rw [counted_append, counted_singleton]
    obtain ⟨hcounted, hsame⟩ | ⟨_, hnone⟩ | ⟨f₀, hf₀, hn, hsome, hcounted, _⟩ :=
      awaitCredit_ok hm
    · have := h.sum f p ⟨hsame ▸ hflow, hp, hreg, hconn⟩
      rw [inFlight] at this
      rw [hcounted, if_neg Bool.false_ne_true]
      omega
    · rw [hnone] at hflow
      cases hflow
    · have := h.sum f₀ p ⟨hf₀, hp, hreg, hconn⟩
      rw [inFlight] at this
      rw [hsome, some_inj] at hflow
      subst hflow
      rw [if_pos hcounted]
      show f₀.n - 1 + _ + _ + _ + _ = _
      omega
  batch := h.batch
  marked := by
    intro hsome m₀ hm₀ hcounted
    have hm₀ : m₀ ∈ r.messages ∨ m₀ = m' := by
      simp only [messages, mem_append, mem_singleton] at hm₀ ⊢
      tauto
    obtain ⟨huncounted, hsame⟩ | ⟨_, hnone⟩ | ⟨f₀, hf₀, _, _, _, hwindow⟩ := awaitCredit_ok hm
    · obtain hm₀ | rfl := hm₀
      · exact h.marked (hsame ▸ hsome) m₀ hm₀ hcounted
      · rw [huncounted] at hcounted
        cases hcounted
    · have hsome : flow.isSome := hsome
      rw [hnone] at hsome
      cases hsome
    · obtain hm₀ | rfl := hm₀
      · exact h.marked (hf₀ ▸ rfl) m₀ hm₀ hcounted
      · rw [hwindow]
        exact Nat.one_ne_zero
  isOpen := h.isOpen

/-- A message goes onto the stream. -/
theorem Conserved.send {i : Nat} (hm : r.sending[i]? = some m) :
    { r with sending := r.sending.eraseIdx i, up := r.up ++ [m] }.Conserved where
  sum := by
    rintro f p ⟨hf, hp, hreg, hconn⟩
    have := h.sum f p ⟨hf, hp, hreg, hconn⟩
    have herase := counted_eraseIdx hm
    rw [inFlight] at this
    show f.n + (counted (r.sending.eraseIdx i) + counted (r.up ++ [m])) + r.buffered p + p.taken +
      r.granting = _
    rw [counted_append]
    omega
  batch := h.batch
  marked := by
    intro hsome m₀ hm₀
    refine h.marked hsome m₀ ?_
    have hold : m₀ ∈ r.sending.eraseIdx i → m₀ ∈ r.sending := mem_of_mem_eraseIdx
    have hmem : m ∈ r.sending := mem_of_getElem? hm
    simp only [messages, mem_append, mem_singleton] at hm₀ ⊢
    obtain ((hm₀ | (hm₀ | rfl)) | hm₀) | hm₀ := hm₀
    · exact .inl (.inl (.inl (hold hm₀)))
    · exact .inl (.inl (.inr hm₀))
    · exact .inl (.inl (.inl hmem))
    · exact .inl (.inr hm₀)
    · exact .inr hm₀
  isOpen := h.isOpen

/-- A step after which the request is no longer open keeps the sum. -/
theorem Conserved.shut (hshut : ∀ f p, ¬ r'.Open f p)
    (hpump : r'.pump = r.pump ∨ r'.pump = none) (hflow : r'.flow.isSome → r.flow.isSome)
    (hmsgs : r'.flow.isSome → r'.messages ⊆ r.messages)
    (hopen : r'.registered = true → r'.ch.closed = false) : r'.Conserved where
  sum f p hopen := absurd hopen (hshut f p)
  batch p hp := by
    obtain hpump | hpump := hpump
    · exact h.batch p (hpump ▸ hp)
    · rw [hpump] at hp
      cases hp
  marked hsome m hm := h.marked (hflow hsome) m (hmsgs hsome hm)
  isOpen := hopen

/-- The node takes a `FlowCredit`. -/
theorem Conserved.takeFlowCredit {credit : FlowCredit} {down : List FlowCredit}
    (hdown : r.down = credit :: down) :
    { r with down := down, flow := r.flow.map credit.apply }.Conserved where
  sum := by
    rintro f p ⟨hf, hp, hreg, hconn⟩
    obtain ⟨f₀, hf₀, rfl⟩ := map_eq_some_iff.mp hf
    have := h.sum f₀ p ⟨hf₀, hp, hreg, hconn⟩
    rw [granting, hdown, map_cons, sum_cons] at this
    show (credit.apply f₀).n + r.inFlight + r.buffered p + p.taken +
      (down.map FlowCredit.granted).sum = flowWindow
    cases credit with
    | grant k =>
      -- The credit is below the window, so the machine word does not wrap.
      have hle : f₀.n + k ≤ 32 := by
        simp only [FlowCredit.granted, flowWindow] at this
        omega
      show (f₀.n + k) % 2 ^ 32 + _ + _ + _ + _ = _
      rw [Nat.mod_eq_of_lt (by omega)]
      simp only [FlowCredit.granted] at this
      omega
    | cancel =>
      show f₀.n + _ + _ + _ + _ = _
      simp only [FlowCredit.granted] at this
      omega
  batch := h.batch
  marked hsome := h.marked (by simpa using hsome)
  isOpen := h.isOpen

/-! ## Core -/

/-- `RouteResponse` delivers a message. -/
theorem Conserved.route {up : List Msg} (hup : r.up = m :: up)
    (hreg : r.registered = true) : { r with up := up, ch := r.ch.send m }.Conserved := by
  have hsend : r.ch.send m = { r.ch with buffer := r.ch.buffer ++ [m] } := by
    rw [Registry.Chan.send, h.isOpen hreg, if_neg Bool.false_ne_true]
  have hbuffer : (r.ch.send m).buffer = r.ch.buffer ++ [m] := by rw [hsend]
  refine ⟨?_, h.batch, ?_, fun _ ↦ hsend ▸ h.isOpen hreg⟩
  · rintro f p ⟨hf, hp, hreg, hconn⟩
    have := h.sum f p ⟨hf, hp, hreg, hconn⟩
    rw [inFlight, buffered, hup, counted_cons m up] at this
    show f.n + (counted r.sending + counted up) + (counted (r.ch.send m).buffer + counted p.hand.toList) +
      p.taken + r.granting = flowWindow
    rw [hbuffer, counted_append]
    omega
  · intro hsome m₀ hm₀
    refine h.marked hsome m₀ ?_
    simp only [messages, hbuffer, hup, mem_append, mem_cons] at hm₀ ⊢
    tauto

end

variable {p : Pump}

/-- The pump takes a message from the request's channel. -/
theorem Conserved.pumpReceive (h : r.Conserved) (hp : r.pump = some p)
    (hhand : p.hand = none) (hnext : r.ch.next = some (some m)) :
    { r with ch := r.ch.receive, pump := some (p.receive m) }.Conserved := by
  have hbuffer : r.ch.buffer = m :: r.ch.receive.buffer := by
    rw [Registry.Chan.next] at hnext
    split at hnext
    · rename_i hb
      cases hnext
      rw [Registry.Chan.receive, hb, tail_cons]
    · split at hnext <;> cases hnext
  refine ⟨?_, ?_, ?_, h.isOpen⟩
  · rintro f p' ⟨hf, hp', hreg, hconn⟩
    cases hp'
    have := h.sum f p ⟨hf, hp, hreg, hconn⟩
    rw [buffered, hhand, hbuffer, counted_cons m, toList_none, counted_nil] at this
    show f.n + r.inFlight + (counted r.ch.receive.buffer + counted [m]) + p.taken + r.granting = flowWindow
    omega
  · rintro p' hp'
    cases hp'
    exact h.batch p hp
  · intro hsome m₀ hm₀
    refine h.marked hsome m₀ ?_
    simp only [messages, hbuffer, Registry.Pump.receive, bind_some, toList_some, mem_append,
      mem_cons] at hm₀ ⊢
    tauto

/-- What the pump counts and grants when it hands a marked message on. -/
theorem handOver_sum (hm : m.counted → m.flowWindow ≠ 0) :
    (p.handOver m).1.taken + (p.handOver m).2.getD 0 = p.taken + counted [m] := by
  rw [Registry.Pump.handOver, counted_singleton]
  by_cases hcounted : m.counted
  · simp only [hcounted, hm hcounted, Bool.not_true, Bool.false_eq_true, if_false, if_true, ne_eq,
      not_false_eq_true, decide_true, Bool.or_true]
    split
    · simp
    · rfl
  · simp [hcounted]

theorem handOver_taken (h : p.taken < flowGrantEvery) :
    (p.handOver m).1.taken < flowGrantEvery := by
  rw [Registry.Pump.handOver]
  simp only []
  split
  · exact h
  split
  · exact h
  split
  · show 0 < 16
    decide
  · rename_i hlt
    exact Nat.not_le.mp hlt

theorem handOver_hand (p : Pump) (m : Msg) : (p.handOver m).1.hand = none := by
  rw [Registry.Pump.handOver]
  simp only []
  split
  · rfl
  · split
    · rfl
    · split <;> rfl

/-- The pump hands its message on. -/
theorem Conserved.handOver (h : r.Conserved) (hp : r.pump = some p)
    (hhand : p.hand = some m) (ok : Bool) : (r.handOver p m ok).Conserved := by
  have hmem : m ∈ r.messages := by simp [messages, hp, hhand]
  have hmsgs : ∀ {out : Chan} {down : List FlowCredit} {connected : Bool}, { r with
      out := out, down := down, connected := connected,
      pump := some (p.handOver m).1 }.messages ⊆ r.messages := by
    intro out down connected m₀ hm₀
    simp only [messages, bind_some, handOver_hand, toList_none, append_nil] at hm₀ ⊢
    exact mem_append_left _ hm₀
  have hsum : ∀ f, r.Open f p → f.n + r.inFlight + counted r.ch.buffer + (p.handOver m).1.taken +
      r.granting + (p.handOver m).2.getD 0 = flowWindow := by
    intro f hopen
    have hsum := h.sum f p hopen
    have hover := handOver_sum (p := p) (h.marked (hopen.flow ▸ rfl) m hmem)
    rw [buffered, hhand, toList_some] at hsum
    omega
  have hbatch := handOver_taken (m := m) (h.batch p hp)
  -- What is left to show is where the grant has gone.
  have hkept : ∀ (down : List FlowCredit) (connected : Bool), (connected = true →
      r.connected = true ∧ (down.map FlowCredit.granted).sum = r.granting + (p.handOver m).2.getD 0) →
      { r with
        out := r.out.send m, down := down, connected := connected,
        pump := some (p.handOver m).1 }.Conserved := by
    refine fun down connected hdown ↦ ⟨?_, ?_, fun hsome m₀ hm₀ ↦ h.marked hsome m₀ (hmsgs hm₀),
      h.isOpen⟩
    · rintro f p' ⟨hf, hp', hreg, hconn⟩
      cases hp'
      obtain ⟨hconn, hdown⟩ := hdown hconn
      have := hsum f ⟨hf, hp, hreg, hconn⟩
      show f.n + r.inFlight + (counted r.ch.buffer + counted (p.handOver m).1.hand.toList) +
        (p.handOver m).1.taken + (down.map FlowCredit.granted).sum = flowWindow
      rw [hdown, handOver_hand, toList_none, counted_nil]
      omega
    · intro p' hp'
      cases hp'
      exact hbatch
  rw [Request.handOver]
  cases hgrant : (p.handOver m).2 with
  | none => exact hkept r.down r.connected fun hconn ↦ ⟨hconn, by rw [hgrant]; rfl⟩
  | some k =>
    cases ok with
    | false => exact hkept r.down false fun hconn ↦ absurd hconn false_ne_true
    | true =>
      refine hkept (r.down ++ [.grant k]) r.connected fun hconn ↦ ⟨hconn, ?_⟩
      rw [hgrant, map_append, sum_append]
      rfl

/-- The pump returns. -/
theorem Conserved.pumpEnds (h : r.Conserved) (out : Chan) (down : List FlowCredit) :
    { r with pump := none, out := out, down := down }.Conserved := by
  refine h.shut (fun f p hopen ↦ by cases hopen.pump) (.inr rfl) id (fun _ m hm ↦ ?_) h.isOpen
  simp only [messages, bind_none, toList_none, append_nil] at hm ⊢
  exact mem_append_left _ hm

theorem Conserved.step (h : r.Conserved) {a : Label} (hstep : r.step a = some r') : r'.Conserved := by
  have hmsgs : ∀ {m : Msg} {up : List Msg}, r.up = m :: up → ∀ {ch : Chan} {registered : Bool},
      ch.buffer = r.ch.buffer →
      { r with up := up, ch := ch, registered := registered }.messages ⊆ r.messages := by
    intro m up hup ch registered hch m₀ hm₀
    simp only [messages, hup, hch, mem_append, mem_cons] at hm₀ ⊢
    tauto
  cases a with
  | awaitCredit m =>
    obtain ⟨⟨flow, res⟩, hawait, rfl⟩ := map_eq_some_iff.mp hstep
    cases res with
    | error err =>
      obtain rfl := awaitCredit_error hawait
      exact h
    | ok m' => exact h.awaitCredit hawait
  | send i ok =>
    obtain ⟨m, hm, rfl⟩ := map_eq_some_iff.mp hstep
    cases ok with
    | true => exact h.send hm
    | false =>
      refine h.shut (fun f p hopen ↦ absurd hopen.connected false_ne_true) (.inl rfl) id
        (fun _ m₀ hm₀ ↦ ?_) h.isOpen
      have hold : m₀ ∈ r.sending.eraseIdx i → m₀ ∈ r.sending := mem_of_mem_eraseIdx
      simp only [messages, mem_append] at hm₀ ⊢
      tauto
  | takeFlowCredit =>
    rw [Request.step] at hstep
    split at hstep <;> cases hstep
    exact h.takeFlowCredit ‹_›
  | closeFlow =>
    cases hstep
    exact h.shut (fun f p hopen ↦ by cases hopen.flow) (.inl rfl) (fun hsome ↦ by cases hsome)
      (fun hsome ↦ by cases hsome) h.isOpen
  | routeResponse expired =>
    rw [Request.step] at hstep
    split at hstep
    · cases hstep
    rename_i hup
    split_ifs at hstep with hreg hroom hexpired <;> cases hstep
    · have hreg : r.registered = false := by simpa using hreg
      refine h.shut (fun f p hopen ↦ ?_) (.inl rfl) id (fun _ ↦ hmsgs hup rfl) h.isOpen
      exact absurd (hreg.symm.trans hopen.registered) false_ne_true
    · exact h.route hup (by simpa using hreg)
    · exact h.shut (fun f p hopen ↦ absurd hopen.registered false_ne_true) (.inl rfl) id
        (fun _ ↦ hmsgs hup rfl) fun hreg ↦ absurd hreg false_ne_true
    · exact h
  | pumpReceive =>
    obtain ⟨p, hp, hstep⟩ := bind_eq_some_iff.mp hstep
    split at hstep
    · cases hstep
    rename_i hhand
    obtain ⟨next, hnext, hstep⟩ := map_eq_some_iff.mp hstep
    split at hstep <;> cases hstep
    · exact h.pumpReceive hp hhand hnext
    · exact h.pumpEnds _ _
  | pumpHandOver ok =>
    obtain ⟨p, hp, hstep⟩ := bind_eq_some_iff.mp hstep
    obtain ⟨m, hhand, hstep⟩ := bind_eq_some_iff.mp hstep
    split at hstep <;> cases hstep
    exact h.handOver hp hhand ok
  | pumpStopped ok =>
    obtain ⟨p, hp, hstep⟩ := bind_eq_some_iff.mp hstep
    split at hstep <;> cases hstep
    exact h.pumpEnds _ _
  | take =>
    obtain ⟨-, ⟨⟩⟩ := ite_none_left_eq_some.mp hstep
    exact ⟨fun f p hopen ↦ h.sum f p ⟨hopen.flow, hopen.pump, hopen.registered, hopen.connected⟩,
      h.batch, h.marked, h.isOpen⟩
  | stopFlow =>
    cases hstep
    exact ⟨fun f p hopen ↦ h.sum f p ⟨hopen.flow, hopen.pump, hopen.registered, hopen.connected⟩,
      h.batch, h.marked, h.isOpen⟩
  | forget =>
    cases hstep
    exact h.shut (fun f p hopen ↦ absurd hopen.registered false_ne_true) (.inl rfl) id
      (fun _ ↦ List.Subset.refl _) fun hreg ↦ absurd hreg false_ne_true
  | closePending =>
    obtain ⟨-, ⟨⟩⟩ := ite_none_right_eq_some.mp hstep
    exact h.shut (fun f p hopen ↦ absurd hopen.registered false_ne_true) (.inl rfl) id
      (fun _ ↦ List.Subset.refl _) fun hreg ↦ absurd hreg false_ne_true

/-- The reader's channel has room for one message. -/
structure OneOut (r : Request) : Prop where
  cap : r.out.cap = 1
  length : r.out.buffer.length ≤ 1

theorem OneOut.of_eq (h : r.OneOut) (hcap : r'.out.cap = r.out.cap) (hbuffer : r'.out.buffer = r.out.buffer) :
    r'.OneOut :=
  ⟨hcap.trans h.cap, hbuffer ▸ h.length⟩

theorem handOver_out (r : Request) (p : Pump) (m : Msg) (ok : Bool) :
    (r.handOver p m ok).out = r.out.send m := by
  rw [Request.handOver]
  cases (p.handOver m).2 with
  | none => rfl
  | some k => cases ok <;> rfl

theorem OneOut.step (h : r.OneOut) {a : Label} (hstep : r.step a = some r') : r'.OneOut := by
  cases a with
  | pumpHandOver ok =>
    obtain ⟨p, -, hstep⟩ := bind_eq_some_iff.mp hstep
    obtain ⟨m, -, hstep⟩ := bind_eq_some_iff.mp hstep
    split at hstep
    · rename_i hroom
      cases hstep
      have hempty : r.out.buffer = [] := by
        simpa [Registry.Chan.room, h.cap] using hroom
      refine ⟨?_, ?_⟩ <;> rw [handOver_out, Registry.Chan.send] <;> split <;> simp [h.cap, hempty]
    · cases hstep
  | take =>
    rw [Request.step] at hstep
    split at hstep <;> cases hstep
    exact ⟨h.cap, (by simpa [Registry.Chan.receive] using Nat.le_succ_of_le h.length)⟩
  | awaitCredit m =>
    obtain ⟨⟨flow, res⟩, -, rfl⟩ := map_eq_some_iff.mp hstep
    cases res <;> exact h.of_eq rfl rfl
  | send i ok =>
    obtain ⟨m, -, rfl⟩ := map_eq_some_iff.mp hstep
    cases ok <;> exact h.of_eq rfl rfl
  | takeFlowCredit =>
    rw [Request.step] at hstep
    split at hstep <;> cases hstep
    exact h.of_eq rfl rfl
  | routeResponse expired =>
    rw [Request.step] at hstep
    repeat' split at hstep
    all_goals cases hstep <;> exact h.of_eq rfl rfl
  | pumpReceive =>
    obtain ⟨p, -, hstep⟩ := bind_eq_some_iff.mp hstep
    split at hstep
    · cases hstep
    obtain ⟨next, -, hstep⟩ := map_eq_some_iff.mp hstep
    split at hstep <;> cases hstep <;> exact h.of_eq rfl rfl
  | pumpStopped ok =>
    obtain ⟨p, -, hstep⟩ := bind_eq_some_iff.mp hstep
    split at hstep <;> cases hstep
    exact h.of_eq rfl rfl
  | closeFlow | stopFlow | forget =>
    cases hstep
    exact h.of_eq rfl rfl
  | closePending =>
    rw [Request.step] at hstep
    split at hstep <;> cases hstep
    exact h.of_eq rfl rfl

end Request

/-- **Credit is conserved.**  In every state that a streaming request reaches and in which it is open at both
ends, the node's credit, the counted messages in flight and those that Core has not handed on, what has been
handed to the reader and not granted back, and the grants in flight make up the window.  So Core holds no more
than the window and the one message in the reader's channel; less than a batch is owed; and a node without
credit has a message in flight or on Core, or a grant on its way. -/
theorem streaming_credit_conserved {r : Request} {f : Credit} {p : Pump}
    (h : Reach Request.step anyStep Request.start r) (hopen : r.Open f p) :
    f.n + r.inFlight + r.buffered p + p.taken + r.granting = flowWindow ∧ r.held p ≤ flowWindow + 1 ∧
      p.taken < flowGrantEvery ∧ (f.n = 0 → 0 < r.inFlight + r.buffered p + r.granting) := by
  have hcons : r.Conserved := h.invariant Request.conserved_start fun _ _ _ hr _ hstep ↦ hr.step hstep
  have hout : r.OneOut := h.invariant ⟨rfl, Nat.zero_le 1⟩ fun _ _ _ hr _ hstep ↦ hr.step hstep
  have hsum := hcons.sum f p hopen
  have hbatch := hcons.batch p hopen.pump
  have hwindow : flowGrantEvery < flowWindow := by decide
  have hone : counted r.out.buffer ≤ 1 := Nat.le_trans countP_le_length hout.length
  refine ⟨hsum, ?_, hbatch, by omega⟩
  rw [Request.held]
  omega

/-- A chunk that the reader has been given is owed. -/
theorem streaming_credit_conserved_chunk : ∃ r,
    Reach Request.step anyStep Request.start r ∧ r.Open ⟨31, false⟩ ⟨none, 1, true, false⟩ ∧
      31 + r.inFlight + r.buffered ⟨none, 1, true, false⟩ + 1 + r.granting = flowWindow := by
  have hrun : (exec Request.step anyStep Request.start
      [.awaitCredit ⟨"a", .chunk, 0⟩, .send 0 true, .routeResponse false, .pumpReceive,
        .pumpHandOver true, .take]).map (fun r ↦ (r.flow, r.pump, r.registered, r.connected)) =
      some (some ⟨31, false⟩, some ⟨none, 1, true, false⟩, true, true) := by decide
  obtain ⟨r, hr, hr'⟩ := exists_reach_of_exec hrun
  simp only [Prod.mk.injEq] at hr'
  have hopen : r.Open ⟨31, false⟩ ⟨none, 1, true, false⟩ := ⟨hr'.1, hr'.2.1, hr'.2.2.1, hr'.2.2.2⟩
  exact ⟨r, hr, hopen, (streaming_credit_conserved hr hopen).1⟩

/-- The node sends its window.  The reader takes fifteen chunks, the sixteenth is in its channel and granted
back with them, and the node sends sixteen more. -/
def overfull : List Label :=
  let chunk : List Label := [.awaitCredit ⟨"a", .chunk, 0⟩, .send 0 true, .routeResponse false]
  (List.replicate 32 chunk).flatten ++
    (List.replicate 15 [Label.pumpReceive, .pumpHandOver true, .take]).flatten ++
    [.pumpReceive, .pumpHandOver true, .takeFlowCredit] ++ (List.replicate 16 chunk).flatten

/-- Core holds 33 chunks, one more than the window. -/
theorem not_streaming_credit_conserved : ∃ r f p,
    Reach Request.step anyStep Request.start r ∧ r.Open f p ∧ r.held p = flowWindow + 1 := by
  have hrun : (exec Request.step anyStep Request.start overfull).map (fun r ↦
      (r.flow, r.pump, r.registered, r.connected, r.held ⟨none, 0, true, false⟩)) =
      some (some ⟨0, false⟩, some ⟨none, 0, true, false⟩, true, true, 33) := by decide +kernel
  obtain ⟨r, hr, hr'⟩ := exists_reach_of_exec hrun
  simp only [Prod.mk.injEq] at hr'
  obtain ⟨hflow, hpump, hreg, hconn, hheld⟩ := hr'
  exact ⟨r, _, _, hr, ⟨hflow, hpump, hreg, hconn⟩, hheld⟩

end Dylaris.Flow
