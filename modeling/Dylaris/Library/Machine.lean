import Mathlib.Data.List.Basic

/-!
# Machines and their runs

A concurrent program is modelled as a *machine*: a step function `step : σ → α → Option σ`, where a
label `a : α` says which party moves, which command it issues and how that command turns out.  All
the nondeterminism — the scheduler, the network, the failures — is in the label, so a step is a
function and a concrete run can be executed.

* `Reach step ok s t` says that `t` is reached from `s` by steps that all meet `ok`.  The condition
  is what a conditional safety result is stated with: "in every run whose steps all meet `ok`".
* `Reach.invariant` is the one induction: what holds at the start and is kept by every step that
  meets `ok` holds in every state reached.
* `exec` runs a list of labels, checking `ok` on the way; `reach_of_exec` turns a successful
  execution into a `Reach`, which is how a concrete run is exhibited.
* `atIndex` runs many copies of a machine side by side, each step moving one of them.
* `Outcome` is how a remote command turns out, for the machines whose steps are such commands.
-/

set_option autoImplicit false

namespace Machine

universe u v

variable {σ : Type u} {α : Type v}

/-- `t` is reached from `s` by steps of the machine that all meet `ok`. -/
inductive Reach (step : σ → α → Option σ) (ok : σ → α → Prop) (s : σ) : σ → Prop
  | refl : Reach step ok s s
  | tail {t t' : σ} {a : α} (h : Reach step ok s t) (hok : ok t a) (hstep : step t a = some t') :
      Reach step ok s t'

/-- The condition every step meets. -/
def anyStep (_ : σ) (_ : α) : Prop := True

variable {step : σ → α → Option σ} {ok ok' : σ → α → Prop}

variable {s t : σ}

/-- **The invariant rule.**  What holds at the start and is kept by every step that meets `ok` holds
in every state such steps reach. -/
theorem Reach.invariant {P : σ → Prop} (h : Reach step ok s t) (h0 : P s)
    (hstep : ∀ t a t', P t → ok t a → step t a = some t' → P t') : P t := by
  induction h with
  | refl => exact h0
  | tail _ hok hs ih => exact hstep _ _ _ ih hok hs

theorem Reach.mono (h : Reach step ok s t) (himp : ∀ t a, ok t a → ok' t a) :
    Reach step ok' s t := by
  induction h with
  | refl => exact .refl
  | tail _ hok hs ih => exact ih.tail (himp _ _ hok) hs

theorem Reach.trans {t' : σ} (h : Reach step ok s t) (h' : Reach step ok t t') :
    Reach step ok s t' := by
  induction h' with
  | refl => exact h
  | tail _ hok hs ih => exact ih.tail hok hs

/-! ## Many copies of a machine -/

/-- The copy at an index takes a step. -/
def atIndex (step : σ → α → Option σ) (ss : List σ) (n : Nat) (a : α) : Option (List σ) :=
  ss[n]?.bind fun s ↦ (step s a).map fun s' ↦ ss.set n s'

theorem atIndex_eq_some {ss ss' : List σ} {n : Nat} {a : α} (h : atIndex step ss n a = some ss') :
    ∃ s s', ss[n]? = some s ∧ step s a = some s' ∧ ss' = ss.set n s' := by
  obtain ⟨s, hs, h⟩ := Option.bind_eq_some_iff.mp h
  obtain ⟨s', hs', rfl⟩ := Option.map_eq_some_iff.mp h
  exact ⟨s, s', hs, hs', rfl⟩

/-! ## Commands -/

/-- How a remote command turns out.  `lost` is a command that was applied and whose reply was not
received. -/
inductive Outcome
  | ok | lost | failed
deriving DecidableEq, Repr

/-- The command has been applied. -/
def Outcome.applied : Outcome → Bool
  | .ok | .lost => true
  | .failed => false

/-! ## Executing a run -/

/-- Run the labels in order, stopping with `none` at the first that is not enabled or does not meet
`ok`. -/
def exec (step : σ → α → Option σ) (ok : σ → α → Prop) [∀ s a, Decidable (ok s a)] :
    σ → List α → Option σ
  | s, [] => some s
  | s, a :: as => if ok s a then (step s a).bind fun s' ↦ exec step ok s' as else none

instance (s : σ) (a : α) : Decidable (anyStep s a) := isTrue trivial

variable [∀ s a, Decidable (ok s a)]

/-- A successful execution is a run. -/
theorem reach_of_exec {as : List α} (h : exec step ok s as = some t) : Reach step ok s t := by
  induction as generalizing s with
  | nil =>
    rw [exec, Option.some_inj] at h
    exact h ▸ .refl
  | cons a as ih =>
    rw [exec] at h
    split at h
    · rename_i hok
      obtain ⟨s', hs, hrest⟩ := Option.bind_eq_some_iff.mp h
      exact (Reach.refl.tail hok hs).trans (ih hrest)
    · cases h

/-- A run to a state of which something is checked. -/
theorem exists_reach_of_any {P : σ → Prop} [DecidablePred P] (as : List α)
    (h : (exec step ok s as).any (fun t ↦ decide (P t)) = true) : ∃ t, Reach step ok s t ∧ P t := by
  obtain ⟨t, ht, hP⟩ := (Option.any_eq_true ..).mp h
  exact ⟨t, reach_of_exec ht, of_decide_eq_true hP⟩

/-- A run to a state of which only a part is of interest. -/
theorem exists_reach_of_exec {as : List α} {β : Type*} {f : σ → β} {v : β}
    (h : (exec step ok s as).map f = some v) : ∃ t, Reach step ok s t ∧ f t = v := by
  obtain ⟨t, ht, rfl⟩ := Option.map_eq_some_iff.mp h
  exact ⟨t, reach_of_exec ht, rfl⟩

end Machine
