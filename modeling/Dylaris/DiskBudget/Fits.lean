import Dylaris.DiskBudget.Model

/-!
# A budget stops its own reader

The in-flight counter is at every moment the sum of what the unreleased budgets have charged: that is
a field of `Sound`, which holds in every run.

`ReadsFit` is about what a reader hands out.  A read goes by the counters as they stand after its own
charge, so of two reads at once the one that charged later counts the other in full.  When it hands
out bytes, then these, everything that all readers had handed out since the budget was made, and
everything that was charged for other reads, are together at most what the budget measured.

That is a bound on the reader: a budget that was made when there was more room may hand out more than a
later one found.

The result needs that no budget is between the two steps of its release when a read is charged.
`release` takes the bytes out of the in-flight counter first and adds them to the landed one after,
and in between they are in neither: a budget that charges then has room for them twice.
-/

set_option autoImplicit false

open Machine

namespace Dylaris.DiskBudget

open List

/-! ## The accounts -/

/-- What a budget that is not released has charged. -/
def Budget.liveUsed (b : Budget) : Int :=
  match b.phase with
  | .landing | .released => 0
  | _ => b.used

/-- What the readers of a released budget had handed out. -/
def Budget.landedOwn (b : Budget) : Int :=
  match b.phase with
  | .released => b.own
  | _ => 0

/-- The parts of a read under way are not negative. -/
def Phase.Nonneg : Phase → Prop
  | .charged n _ _ => 0 ≤ n
  | .refunding rest k => 0 ≤ rest ∧ 0 ≤ k
  | .handing k => 0 ≤ k
  | _ => True

/-- What a budget has charged covers what its readers have handed out and what they are reading. -/
structure Budget.Covered (b : Budget) : Prop where
  own_nonneg : 0 ≤ b.own
  nonneg : b.phase.Nonneg
  held : b.phase ≠ .released → b.own + b.pending ≤ b.used

variable {left n : Int} {b b' : Budget} {o : Op} {s t : State}

theorem fit_nonneg (hn : 0 ≤ n) : 0 ≤ fit n left := by
  rw [fit]
  omega

theorem fit_le : fit n left ≤ n := by
  rw [fit]
  omega

/-- What is handed out of a read that does not fit is what fits. -/
theorem fit_le_add (h : 0 < fit n left) : fit n left ≤ n + left := by
  rw [fit] at h ⊢
  omega

theorem Budget.Covered.acts (h : b.Covered) (hacts : Acts s b o t b') : b'.Covered := by
  have hown := h.own_nonneg
  have hnonneg := h.nonneg
  have hheld := h.held
  cases hacts with
  | loadLanded hp | measure hp | keep hp | release hp =>
    simp only [hp, pending, ne_eq, reduceCtorEq, not_false_eq_true, forall_const] at hheld
    exact ⟨hown, trivial, fun _ ↦ hheld⟩
  | charge hp n reading =>
    simp only [hp, pending, ne_eq, reduceCtorEq, not_false_eq_true, forall_const] at hheld
    refine ⟨hown, Int.natCast_nonneg n, fun _ ↦ ?_⟩
    cases reading <;> simp only [pending] <;> omega
  | fits hp =>
    simp only [hp, pending, ne_eq, reduceCtorEq, not_false_eq_true, forall_const] at hheld
    rw [hp] at hnonneg
    exact ⟨hown, hnonneg, fun _ ↦ hheld⟩
  | refuse hp =>
    simp only [hp, pending, ne_eq, reduceCtorEq, not_false_eq_true, forall_const] at hheld
    rw [hp] at hnonneg
    refine ⟨hown, ⟨?_, fit_nonneg hnonneg⟩, fun _ ↦ ?_⟩
    · exact Int.sub_nonneg.mpr fit_le
    · simp only [pending]
      omega
  | refund hp =>
    simp only [hp, pending, ne_eq, reduceCtorEq, not_false_eq_true, forall_const] at hheld
    rw [hp] at hnonneg
    refine ⟨hown, hnonneg.2, fun _ ↦ ?_⟩
    simp only [pending]
    omega
  | hand hp =>
    simp only [hp, pending, ne_eq, reduceCtorEq, not_false_eq_true, forall_const] at hheld
    rw [hp] at hnonneg
    refine ⟨Int.add_nonneg hown hnonneg, trivial, fun _ ↦ ?_⟩
    simp only [pending]
    omega
  | unspend hp n hn =>
    refine ⟨hown, hnonneg, fun _ ↦ ?_⟩
    simp only [hp, pending]
    omega
  | land hp => exact ⟨hown, trivial, fun h ↦ absurd rfl h⟩

section Counters

variable {s t : State} {b b' : Budget} {o : Op}

/-- The in-flight counter moves with the budget. -/
theorem Acts.inflight (h : Acts s b o t b') :
    t.inflight = s.inflight - b.liveUsed + b'.liveUsed := by
  cases h with
  | unspend hp n hn =>
    simp only [Budget.liveUsed, hp]
    omega
  | _ hp =>
    simp only [Budget.liveUsed, hp]
    omega

theorem Acts.handed (h : Acts s b o t b') : t.handed = s.handed - b.own + b'.own := by
  cases h <;> dsimp only <;> omega

/-- The landed counter only grows, and by no less than what the readers of the budget had handed
out. -/
theorem Acts.landed (h : Acts s b o t b') (hb : b.Covered) :
    b'.landedOwn - b.landedOwn ≤ t.landed - s.landed ∧ s.landed ≤ t.landed := by
  have hown := hb.own_nonneg
  have hheld := hb.held
  cases h with
  | land hp =>
    simp only [hp, Budget.pending, ne_eq, reduceCtorEq, not_false_eq_true, forall_const] at hheld
    simp only [Budget.landedOwn, hp]
    omega
  | unspend hp n hn => simp [Budget.landedOwn, hp]
  | _ hp => simp [Budget.landedOwn, hp]

end Counters

/-- The budget has read both counters. -/
def Budget.Loaded (b : Budget) : Prop := b.phase ≠ .starting

/-- The accounts are right: the counters are sums over the budgets, every budget is covered, and what
has landed since a budget read the counters covers what the readers of released budgets have handed
out since. -/
structure Sound (s : State) : Prop where
  inflight : s.inflight = sumOf Budget.liveUsed s.budgets
  handed : s.handed = sumOf Budget.own s.budgets
  covered : ∀ b ∈ s.budgets, b.Covered
  late : ∀ b ∈ s.budgets, b.Loaded →
    sumOf Budget.landedOwn s.budgets - b.before ≤ s.landed - b.landed0

theorem sound_init : Sound init where
  inflight := rfl
  handed := rfl
  covered := by simp [init]
  late := by simp [init]

theorem Sound.create (h : Sound s) :
    Sound { s with budgets := s.budgets ++ [started s.inflight] } where
  inflight := by
    rw [sumOf_append_singleton, h.inflight]
    exact (Int.add_zero _).symm
  handed := by
    rw [sumOf_append_singleton, h.handed]
    exact (Int.add_zero _).symm
  covered b hb := by
    rcases mem_append.mp hb with hb | hb
    · exact h.covered b hb
    · rw [mem_singleton.mp hb]
      exact ⟨le_refl _, trivial, fun _ ↦ le_refl _⟩
  late b hb hloaded := by
    rw [sumOf_append_singleton]
    rcases mem_append.mp hb with hb | hb
    · simpa [started, Budget.landedOwn] using h.late b hb hloaded
    · rw [mem_singleton.mp hb] at hloaded
      exact absurd rfl hloaded

/-- Released budgets are among all budgets. -/
theorem Sound.landedOwn_le (h : Sound s) : sumOf Budget.landedOwn s.budgets ≤ s.handed := by
  rw [h.handed]
  refine sumOf_le_sumOf fun b hb ↦ ?_
  have := (h.covered b hb).own_nonneg
  unfold Budget.landedOwn
  split <;> omega

/-- A step other than the reading of the landed counter keeps what a budget had found. -/
theorem Acts.before_eq (h : Acts s b o t b')
    (hloaded : b.Loaded) : b'.before = b.before ∧ b'.landed0 = b.landed0 := by
  cases h with
  | loadLanded hp => exact absurd hp hloaded
  | _ => exact ⟨rfl, rfl⟩

theorem Sound.op (h : Sound s) {i : Nat}
    (hb : s.budgets[i]? = some b) (hacts : Acts s b o t b') : Sound (t.put i b') := by
  have hmem : b ∈ s.budgets := mem_of_getElem? hb
  have hcov := h.covered b hmem
  obtain ⟨hgrow, hmono⟩ := hacts.landed hcov
  have hbudgets : (t.put i b').budgets = s.budgets.set i b' := by rw [State.put, hacts.budgets]
  have hsum : sumOf Budget.landedOwn (t.put i b').budgets - sumOf Budget.landedOwn s.budgets =
      b'.landedOwn - b.landedOwn := by
    rw [hbudgets, sumOf_set hb]
    omega
  refine ⟨?_, ?_, fun c hc ↦ ?_, fun c hc hloaded ↦ ?_⟩
  · rw [hbudgets, sumOf_set hb, ← h.inflight]
    exact hacts.inflight
  · rw [hbudgets, sumOf_set hb, ← h.handed]
    exact hacts.handed
  · rw [hbudgets] at hc
    rcases mem_or_eq_of_mem_set hc with hc | rfl
    · exact h.covered c hc
    · exact hcov.acts hacts
  · change sumOf Budget.landedOwn (t.put i b').budgets - c.before ≤ t.landed - c.landed0
    rw [hbudgets] at hc
    rcases mem_or_eq_of_mem_set hc with hc | rfl
    · have := h.late c hc hloaded
      omega
    · by_cases hstart : b.phase = .starting
      · -- The budget reads the landed counter now, and nothing has landed since.
        cases hacts with
        | loadLanded =>
          have hle := h.landedOwn_le
          dsimp only at hsum ⊢
          omega
        | _ hp => exact absurd (hp.symm.trans hstart) (by simp)
      · obtain ⟨hbefore, hlanded0⟩ := hacts.before_eq hstart
        have := h.late b hmem hstart
        omega

theorem Sound.step {s' : State} {a : Label} (h : Sound s) (hstep : step s a = some s') :
    Sound s' := by
  rcases acts_of_step hstep with ⟨-, rfl⟩ | ⟨i, o, b, t, b', -, hb, hacts, rfl⟩
  · exact h.create
  · exact h.op hb hacts

variable {ok : State → Label → Prop}

theorem sound_of_reach (h : Reach step ok init s) : Sound s :=
  h.invariant sound_init fun _ _ _ hs _ hstep ↦ hs.step hstep

/-! ## Reads -/

/-- When a read is charged, no budget is between the two steps of its release. -/
def Quiet (s : State) (a : Label) : Prop :=
  match a with
  | .op _ (.charge _ true) => ∀ b ∈ s.budgets, b.phase ≠ .landing
  | _ => True

instance (s : State) (a : Label) : Decidable (Quiet s a) := by
  unfold Quiet
  split <;> infer_instance

/-- What a budget with a read under way knows: before the judgement, that the counters it goes by
cover what it counts; after it, that the bytes to be handed out fit. -/
def Budget.Fits (landed : Int) (b : Budget) : Prop :=
  match b.phase with
  | .charged n g true => b.seen - b.before + n ≤ g + (landed - b.landed0)
  | .refunding _ k | .handing k => 0 < k → b.seen - b.before + k ≤ b.measured
  | _ => True

theorem Budget.Fits.mono {landed landed' : Int} (h : b.Fits landed)
    (hle : landed ≤ landed') : b.Fits landed' := by
  unfold Fits at h ⊢
  split
  · rename_i hp
    simp only [hp] at h
    omega
  · rename_i hp
    simpa only [hp] using h
  · rename_i hp
    simpa only [hp] using h
  · trivial

/-- What the node leaves is no less than what is left. -/
theorem Budget.left_le (b : Budget) (g landed : Int) (server : Option Int) :
    b.left g landed server ≤ b.nodeCap - (g - b.inflight0) - (landed - b.landed0) := by
  unfold left
  cases server with
  | none => exact le_refl _
  | some l =>
    dsimp only
    split <;> omega

/-- While no budget is between the two steps of its release, the counters cover everything that has
been handed out or charged for a read since a budget read them. -/
theorem Sound.given_le (h : Sound s) (hquiet : ∀ b ∈ s.budgets, b.phase ≠ .landing)
    (hb : b ∈ s.budgets) (hloaded : b.Loaded) :
    s.given - b.before ≤ s.inflight + (s.landed - b.landed0) := by
  have hsum : sumOf (fun c ↦ c.own + c.pending) s.budgets ≤
      sumOf (fun c ↦ c.liveUsed + c.landedOwn) s.budgets := by
    refine sumOf_le_sumOf fun c hc ↦ ?_
    have hheld := (h.covered c hc).held
    unfold Budget.liveUsed Budget.landedOwn Budget.pending at *
    cases hp : c.phase <;> simp_all
  rw [sumOf_add, sumOf_add, ← h.handed, ← h.inflight] at hsum
  have := h.late b hb hloaded
  rw [State.given]
  omega

/-- The budget's own measurement, once it is made. -/
def Budget.Measured (b : Budget) : Prop :=
  b.phase ≠ .starting → b.phase ≠ .measuring → b.nodeCap + b.inflight0 = b.measured

structure ReadsFit (s : State) : Prop where
  measured : ∀ b ∈ s.budgets, b.Measured
  fits : ∀ b ∈ s.budgets, b.Fits s.landed

theorem readsFit_init : ReadsFit init where
  measured := by simp [init]
  fits := by simp [init]

theorem Acts.measured (h : Acts s b o t b') (hb : b.Measured) : b'.Measured := by
  cases h with
  | loadLanded => exact fun _ h ↦ absurd rfl h
  | measure => exact fun _ _ ↦ Int.sub_add_cancel _ _
  | unspend => exact hb
  | _ hp => exact fun _ _ ↦ hb (by simp [hp]) (by simp [hp])

/-- A charge that finds the accounts covered, and a judgement of such a charge, leave a read that
fits. -/
theorem Acts.keeps_fits (h : Acts s b o t b') (hb : b.Fits s.landed) (hmeasured : b.Measured)
    (hcharge : ∀ n, o = .charge n true → s.given - b.before ≤ s.inflight + (s.landed - b.landed0)) :
    b'.Fits t.landed := by
  cases h with
  | loadLanded | measure | keep | release | land | hand => trivial
  | charge hp n reading =>
    cases reading with
    | false => trivial
    | true =>
      have := hcharge n rfl
      simp only [Budget.Fits]
      omega
  | @fits n g hp server hleft =>
    have hm := hmeasured (by simp [hp]) (by simp [hp])
    have hle := b.left_le g s.landed server
    simp only [Budget.Fits, hp] at hb ⊢
    intro _
    omega
  | @refuse n g hp server hleft =>
    have hm := hmeasured (by simp [hp]) (by simp [hp])
    have hle := b.left_le g s.landed server
    simp only [Budget.Fits, hp] at hb ⊢
    intro hpos
    have := fit_le_add hpos
    omega
  | refund hp =>
    simp only [Budget.Fits, hp] at hb ⊢
    exact hb
  | unspend hp =>
    simp only [Budget.Fits, hp]

theorem ReadsFit.step {s' : State} {a : Label} (h : ReadsFit s) (hsound : Sound s)
    (hquiet : Quiet s a) (hstep : step s a = some s') : ReadsFit s' := by
  rcases acts_of_step hstep with ⟨-, rfl⟩ | ⟨i, o, b, t, b', rfl, hb, hacts, rfl⟩
  · constructor
    · intro b hb
      rcases mem_append.mp hb with hb | hb
      · exact h.measured b hb
      · rw [mem_singleton.mp hb]
        exact fun h ↦ absurd rfl h
    · intro b hb
      rcases mem_append.mp hb with hb | hb
      · exact h.fits b hb
      · rw [mem_singleton.mp hb]
        trivial
  · have hmem : b ∈ s.budgets := mem_of_getElem? hb
    have hmono := (hacts.landed (hsound.covered b hmem)).2
    have hcharge : ∀ n, o = .charge n true →
        s.given - b.before ≤ s.inflight + (s.landed - b.landed0) := by
      rintro n rfl
      refine hsound.given_le hquiet hmem fun hstart ↦ ?_
      cases hacts with
      | charge hp => exact absurd (hp.symm.trans hstart) (by simp)
    have hbudgets : (t.put i b').budgets = s.budgets.set i b' := by rw [State.put, hacts.budgets]
    constructor
    · intro c hc
      rw [hbudgets] at hc
      rcases mem_or_eq_of_mem_set hc with hc | rfl
      · exact h.measured c hc
      · exact hacts.measured (h.measured b hmem)
    · intro c hc
      rw [hbudgets] at hc
      rcases mem_or_eq_of_mem_set hc with hc | rfl
      · exact (h.fits c hc).mono hmono
      · exact hacts.keeps_fits (h.fits b hmem) (h.measured b hmem) hcharge

/-- A budget is made and measures this much. -/
def making (i : Nat) (available : Int) : List Label :=
  [.create, .op i .loadLanded, .op i (.measure available)]

/-- A read of `n` bytes that fits. -/
def reading (i n : Nat) : List Label :=
  [.op i (.charge n true), .op i (.judge none), .op i .hand]

/-- A budget that was made when nothing had been written. -/
def example0 (available : Int) (phase : Phase) (used own seen : Int) : Budget :=
  { phase := phase, nodeCap := available, inflight0 := 0, landed0 := 0, used := used,
    measured := available, own := own, before := 0, seen := seen }

/-- Two budgets of 100 bytes; one has read 60, and the other has the last 40 of its read to hand
out. -/
def lastForty : State := ⟨100, 0, 60, [example0 100 .idle 60 60 0, example0 100 (.handing 40) 40 0 60]⟩

theorem reach_lastForty (hok : ∀ s a, Quiet s a → ok s a) :
    Reach step ok init lastForty := by
  have hrun : exec step Quiet init (making 0 100 ++ making 1 100 ++ reading 0 60 ++
      [.op 1 (.charge 70 true), .op 1 (.judge none), .op 1 .refund]) = some lastForty := by
    decide +kernel
  exact (reach_of_exec hrun).mono hok

theorem landedOwn_le_landed {ok : State → Label → Prop} (h : Reach step ok init s) :
    sumOf Budget.landedOwn s.budgets ≤ s.landed := by
  have hinv : Sound s ∧ sumOf Budget.landedOwn s.budgets ≤ s.landed := by
    refine h.invariant (P := fun s ↦ Sound s ∧ sumOf Budget.landedOwn s.budgets ≤ s.landed)
      ⟨sound_init, le_refl _⟩ ?_
    rintro s a s' ⟨hsound, hle⟩ - hstep
    refine ⟨hsound.step hstep, ?_⟩
    rcases acts_of_step hstep with ⟨rfl, rfl⟩ | ⟨i, o, b, t, b', rfl, hb, hacts, rfl⟩
    · rw [sumOf_append_singleton]
      exact (add_zero _).trans_le hle
    · have hlanded := (hacts.landed (hsound.covered b (mem_of_getElem? hb))).1
      change sumOf Budget.landedOwn (t.budgets.set i b') ≤ t.landed
      rw [hacts.budgets, sumOf_set hb]
      omega
  exact hinv.2

end Dylaris.DiskBudget
