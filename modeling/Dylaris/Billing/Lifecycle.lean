import Dylaris.Library.Machine
import Mathlib.Algebra.Order.Group.Int

/-!
# The billing clocks of an account

`core/services/billing_lifecycle.go` and the row in `core/store/billing.go`.  An account that stops
paying is past due for a grace period, then suspended; later its servers are cut off, and later still its
backups and templates are deleted.  An operator can lay a hold over this, which suspends the account at
once: it writes its own status and, unless there is one, its own date of suspension over the row, and
payment events that come in under it go to `heldStatus`.  Lifting the hold writes the status back.

The model is one account and any sequence of events, each at its time.  Beside the row it keeps when
the payments last became what they are and whether that was under the hold that is in force, and a
log of what the lifecycle has done.  An entry is `OnTime` if it was done no earlier than its period
after the payments last became past due or suspended.

`clocks_follow_payments`: in every run in which every lifted hold is `Faithful`, every entry is on
time.  The two kinds of hold that are not:

* the payments became suspended under the hold: the row's date of suspension is the hold's or an
  earlier one, and after the lift the cutoff and the deletion are counted from it;
* the payments became past due under the hold and the row still had the deadline of an earlier time
  past due: the lift takes that deadline for the present one.

Where there was no deadline, the lift sets one from its own time.  That is not too early but for a period
of months, which may end earlier for a later start (one month after the 31st of January is the 3rd of
March), and a hold that is lifted then is not faithful either.

A period is a function from the time it starts to the time it ends.
-/

set_option autoImplicit false

open Machine

namespace Dylaris.Billing

open List Option

abbrev Time := Int

/-- The statuses of a row. -/
inductive Status
  | active | pastDue | suspended
deriving DecidableEq, Repr

/-- The lifecycle's part of a row of `user_billing`. -/
structure Row where
  status : Status
  graceUntil : Option Time
  suspendedAt : Option Time
  adminHold : Bool
  heldStatus : Option Status
deriving DecidableEq, Repr

/-- What `GetUserBilling` gives for an account without a row. -/
def Row.fresh : Row := ⟨.active, none, none, false, none⟩

/-- `UserBilling.PaymentStatus`. -/
def Row.paymentStatus (r : Row) : Status :=
  if r.adminHold then r.heldStatus.getD r.status else r.status

/-! ## The store -/

/-- `SetUserBillingStatusIf`, where it writes. -/
def Row.setStatus (r : Row) (status : Status) (graceUntil suspendedAt : Option Time) : Row :=
  if r.adminHold then { r with heldStatus := some status }
  else { r with status := status, graceUntil := graceUntil, suspendedAt := suspendedAt }

/-- `SetUserBillingStatusIf`: only while the payment status is one of `from`. -/
def Row.setStatusIf (r : Row) (status : Status) (graceUntil suspendedAt : Option Time)
    (fromStatuses : Option (List Status)) : Row :=
  if fromStatuses.all fun l ↦ r.paymentStatus ∈ l then r.setStatus status graceUntil suspendedAt else r

/-- `PlaceAdminHold`. -/
def Row.placeAdminHold (r : Row) (at' : Time) : Row :=
  { r with
    heldStatus := if r.adminHold then r.heldStatus else some r.status
    adminHold := true
    status := .suspended
    suspendedAt := if r.status = .suspended ∧ r.suspendedAt ≠ none then r.suspendedAt else some at' }

/-- `LiftAdminHold`. -/
def Row.liftAdminHold (r : Row) : Row :=
  if r.adminHold then
    { r with adminHold := false, heldStatus := none, status := r.heldStatus.getD r.status }
  else r

/-- The status that `LiftAdminHold` returns. -/
def Row.prior (r : Row) : Option Status := if r.adminHold then r.heldStatus else none

/-! ## The service -/

/-- The periods of an account: where one that starts at a time ends. -/
structure Periods where
  grace : Time → Time
  suspendGrace : Int
  retention : Time → Time

section Service

variable (p : Periods)

/-- `enterPastDue`. -/
def Row.enterPastDue (r : Row) (now : Time) (fromStatuses : Option (List Status)) : Row :=
  if r.paymentStatus = .pastDue ∧ (r.graceUntil ≠ none ∨ r.adminHold = true) then r
  else r.setStatusIf .pastDue (some (p.grace now)) none fromStatuses

/-- `Reactivate`. -/
def Row.reactivate (r : Row) : Row := r.setStatusIf .active none none none

/-- `suspend`. -/
def Row.suspend (r : Row) (now : Time) (fromStatuses : Option (List Status)) : Row :=
  if r.paymentStatus = .suspended ∧ (r.suspendedAt ≠ none ∨ r.adminHold = true) then r
  else r.setStatusIf .suspended none (some now) fromStatuses

/-- `HoldLifted`. -/
def Row.holdLifted (r : Row) (now : Time) : Option Status → Row
  | some .active => r.reactivate
  | some .pastDue => r.enterPastDue p now none
  | some .suspended | none => r

/-- The deadline of an account that is past due has come. -/
def Row.graceOver (r : Row) (now : Time) : Bool :=
  r.status = .pastDue && r.graceUntil.any fun t ↦ t ≤ now

/-- `enforceSuspensions` cuts the account off. -/
def Row.cutOff (r : Row) (now : Time) : Bool :=
  r.status = .suspended &&
    (r.adminHold || r.suspendedAt.any fun t ↦ t + p.suspendGrace ≤ now)

/-- `cleanupExpiredR2` deletes what the account has on the platform's storage. -/
def Row.expired (r : Row) (now : Time) : Bool :=
  r.status = .suspended && !r.adminHold && r.suspendedAt.any fun t ↦ p.retention t ≤ now

end Service

/-! ## The machine -/

/-- What the lifecycle does. -/
inductive Action
  | suspended
  /-- Its servers are cut off; under a hold or not. -/
  | cutOff (held : Bool)
  | deleted
deriving DecidableEq, Repr

/-- An action, with its time and the time since which the payments were what it was for. -/
structure Entry where
  action : Action
  time : Time
  since : Time
deriving DecidableEq, Repr

/-- The action came no earlier than its period after the payments last became past due or suspended. -/
def Entry.OnTime (p : Periods) (e : Entry) : Prop :=
  match e.action with
  | .suspended => p.grace e.since ≤ e.time
  | .cutOff held => held = true ∨ e.since + p.suspendGrace ≤ e.time
  | .deleted => p.retention e.since ≤ e.time

instance (p : Periods) (e : Entry) : Decidable (e.OnTime p) := by
  unfold Entry.OnTime
  split <;> infer_instance

structure State where
  row : Row
  now : Time
  /-- When the payments last became what they are. -/
  since : Time
  /-- They became so under the hold that is in force. -/
  under : Bool
  log : List Entry
deriving DecidableEq, Repr

def init : State := ⟨.fresh, 0, 0, false, []⟩

/-- The events of an account. -/
inductive Event
  /-- A payment failed: `EnterPastDueUnlessSuspended`. -/
  | dunning
  /-- The shop suspends: `Suspend`. -/
  | suspend
  /-- A payment came in: `Reactivate`. -/
  | activate
  /-- An operator sets the account past due: `EnterPastDue`. -/
  | setPastDue
  /-- `SuspendNow`. -/
  | hold
  /-- `LiftAdminHold`, and then `HoldLifted` unless that fails. -/
  | lift (settled : Bool)
  | pass
deriving DecidableEq, Repr

/-- An event and its time. -/
structure Label where
  event : Event
  time : Time
deriving DecidableEq, Repr

/-- The row after an event that leaves the hold as it is; the payments became something new if their
status did. -/
def State.paid (s : State) (row : Row) (now : Time) : State :=
  if row.paymentStatus = s.row.paymentStatus then { s with row := row, now := now }
  else { s with row := row, now := now, since := now, under := row.adminHold }

/-- The past due pass of `runOnce`. -/
def State.promote (s : State) (now : Time) : State :=
  if s.row.graceOver now then
    { s.paid (s.row.suspend now (some [.pastDue])) now with
      log := ⟨.suspended, now, s.since⟩ :: s.log }
  else { s with now := now }

/-- The two passes over suspended accounts. -/
def State.enforce (p : Periods) (s : State) (now : Time) : State :=
  { s with
    log := (if s.row.expired p now then [⟨.deleted, now, s.since⟩] else []) ++
      (if s.row.cutOff p now then [⟨.cutOff s.row.adminHold, now, s.since⟩] else []) ++ s.log }

/-- `none` for a time that is past, and for an operator setting a held account past due, which is a
lift. -/
def step (p : Periods) (s : State) (l : Label) : Option State :=
  if l.time < s.now then none
  else
    match l.event with
    | .dunning => some (s.paid (s.row.enterPastDue p l.time (some [.active, .pastDue])) l.time)
    | .suspend => some (s.paid (s.row.suspend l.time none) l.time)
    | .activate => some (s.paid s.row.reactivate l.time)
    | .setPastDue =>
      if s.row.adminHold then none else some (s.paid (s.row.enterPastDue p l.time none) l.time)
    | .hold =>
      some { s with
        row := s.row.placeAdminHold l.time
        now := l.time
        under := s.under && s.row.adminHold
        log := ⟨.cutOff true, l.time, s.since⟩ :: s.log }
    | .lift settled =>
      if s.row.adminHold then
        let lifted : State := { s with row := s.row.liftAdminHold, under := false }
        some (lifted.paid
          (if settled then lifted.row.holdLifted p l.time s.row.prior else lifted.row) l.time)
      else none
    | .pass => some ((s.promote l.time).enforce p l.time)

/-! ## The invariant -/

/-- A lifted hold is one under which the payments did not become suspended, nor past due over a
deadline from before; and a deadline that payments already past due are given is not earlier than one
from the time they became so. -/
def Faithful (p : Periods) (s : State) (l : Label) : Prop :=
  match l.event with
  | .dunning | .setPastDue =>
    s.row.paymentStatus = .pastDue → s.row.graceUntil = none → p.grace s.since ≤ p.grace l.time
  | .lift _ =>
    (s.row.paymentStatus = .pastDue → s.row.graceUntil = none → p.grace s.since ≤ p.grace l.time) ∧
      (s.under = true → s.row.paymentStatus ≠ .suspended ∧
        (s.row.paymentStatus = .pastDue → s.row.graceUntil = none))
  | _ => True

/-- The dates in the row, read when the payments did not become what they are under a hold, are the
right ones. -/
structure Clocks (p : Periods) (s : State) : Prop where
  held : s.row.adminHold = true →
    s.row.status = .suspended ∧ s.row.heldStatus ≠ none ∧ s.row.suspendedAt ≠ none
  under : s.under = true → s.row.adminHold = true
  pastDue : s.row.paymentStatus = .pastDue → s.under = false →
    ∀ t, s.row.graceUntil = some t → p.grace s.since ≤ t
  suspended : s.row.paymentStatus = .suspended → s.under = false → s.row.suspendedAt = some s.since
  log : ∀ e ∈ s.log, e.OnTime p

theorem clocks_init (p : Periods) : Clocks p init where
  held := by simp [init, Row.fresh]
  under := by simp [init]
  pastDue := by simp [init, Row.fresh]
  suspended := by simp [init, Row.fresh, Row.paymentStatus]
  log := by simp [init]

theorem Row.paymentStatus_of_not_hold {r : Row} (h : r.adminHold = false) :
    r.paymentStatus = r.status := by
  simp [paymentStatus, h]

theorem Row.paymentStatus_setStatus (r : Row) (st : Status) (g a : Option Time) :
    (r.setStatus st g a).paymentStatus = st := by
  cases h : r.adminHold <;> simp [setStatus, paymentStatus, h]

section Steps

variable {p : Periods} {s : State} {now : Time}

/-- Without a hold no payment event has come under one. -/
theorem Clocks.not_under (h : Clocks p s) (hhold : s.row.adminHold = false) : s.under = false := by
  by_contra hu
  simp [h.under (by simpa using hu)] at hhold

/-- An event that leaves the row alone. -/
theorem Clocks.wait (h : Clocks p s) (now : Time) : Clocks p { s with now := now } :=
  ⟨h.held, h.under, h.pastDue, h.suspended, h.log⟩

theorem Clocks.paid_self (h : Clocks p s) (now : Time) : Clocks p (s.paid s.row now) := by
  rw [State.paid, if_pos rfl]
  exact h.wait now

/-- A payment event under a hold leaves the dates alone. -/
theorem Clocks.paid_held (h : Clocks p s) (hhold : s.row.adminHold = true) (st : Status)
    (g a : Option Time) (now : Time) : Clocks p (s.paid (s.row.setStatus st g a) now) := by
  obtain ⟨hstatus, -, hat⟩ := h.held hhold
  have hrow : s.row.setStatus st g a = { s.row with heldStatus := some st } := by
    simp [Row.setStatus, hhold]
  rw [State.paid, Row.paymentStatus_setStatus]
  split
  · rename_i hsame
    have hpay : (s.row.setStatus st g a).paymentStatus = s.row.paymentStatus := by
      rw [Row.paymentStatus_setStatus, hsame]
    refine ⟨fun _ ↦ ?_, fun hu ↦ ?_, fun hp hu ↦ ?_, fun hp hu ↦ ?_, h.log⟩
    · simp [hrow, hstatus, hat]
    · simp [hrow, hhold]
    · rw [show (s.row.setStatus st g a).graceUntil = s.row.graceUntil by rw [hrow]]
      exact h.pastDue (hpay ▸ hp) hu
    · rw [show (s.row.setStatus st g a).suspendedAt = s.row.suspendedAt by rw [hrow]]
      exact h.suspended (hpay ▸ hp) hu
  · have hu : (s.row.setStatus st g a).adminHold = true := by simp [hrow, hhold]
    refine ⟨fun _ ↦ ?_, fun _ ↦ hu, fun _ hu' ↦ ?_, fun _ hu' ↦ ?_, h.log⟩
    · simp [hrow, hstatus, hat]
    · exact absurd (hu.symm.trans hu') (by simp)
    · exact absurd (hu.symm.trans hu') (by simp)

variable {st : Status} {g a : Option Time}

section

variable (h : Clocks p s)

include h

/-- A payment event without a hold writes its dates: those of a status that is new are right, and
those of the same status have to be. -/
theorem Clocks.paid_free (hhold : s.row.adminHold = false) (now : Time)
    (hnew : s.row.paymentStatus ≠ st →
      (st = .pastDue → g = some (p.grace now)) ∧ (st = .suspended → a = some now))
    (hsame : s.row.paymentStatus = st →
      (st = .pastDue → ∀ t, g = some t → p.grace s.since ≤ t) ∧
        (st = .suspended → a = some s.since)) :
    Clocks p (s.paid (s.row.setStatus st g a) now) := by
  have hrow : s.row.setStatus st g a =
      { s.row with status := st, graceUntil := g, suspendedAt := a } := by
    simp [Row.setStatus, hhold]
  have hpay := s.row.paymentStatus_setStatus st g a
  rw [State.paid, hpay]
  split
  · rename_i heq
    obtain ⟨hg, ha⟩ := hsame heq.symm
    refine ⟨fun hh ↦ ?_, fun hu ↦ ?_, fun hp _ t ht ↦ ?_, fun hp _ ↦ ?_, h.log⟩
    · simp [hrow, hhold] at hh
    · simp [h.not_under hhold] at hu
    · exact hg (hpay ▸ hp) t (by simpa [hrow] using ht)
    · rw [← ha (hpay ▸ hp), hrow]
  · rename_i hne
    obtain ⟨hg, ha⟩ := hnew (Ne.symm hne)
    refine ⟨fun hh ↦ ?_, fun hu ↦ ?_, fun hp _ t ht ↦ ?_, fun hp _ ↦ ?_, h.log⟩
    · simp [hrow, hhold] at hh
    · simp [hrow, hhold] at hu
    · have hgt : g = some t := by simpa [hrow] using ht
      rw [hg (hpay ▸ hp), some_inj] at hgt
      exact le_of_eq hgt
    · rw [← ha (hpay ▸ hp), hrow]

theorem Clocks.paid_setStatusIf (now : Time) (fromStatuses : Option (List Status))
    (hnew : s.row.paymentStatus ≠ st →
      (st = .pastDue → g = some (p.grace now)) ∧ (st = .suspended → a = some now))
    (hsame : s.row.adminHold = false → s.row.paymentStatus = st →
      (st = .pastDue → ∀ t, g = some t → p.grace s.since ≤ t) ∧
        (st = .suspended → a = some s.since)) :
    Clocks p (s.paid (s.row.setStatusIf st g a fromStatuses) now) := by
  rw [Row.setStatusIf]
  split
  · cases hhold : s.row.adminHold with
    | true => exact h.paid_held hhold st g a now
    | false => exact h.paid_free hhold now hnew (hsame hhold)
  · exact h.paid_self now

theorem Clocks.enterPastDue (fromStatuses : Option (List Status))
    (hf : s.row.paymentStatus = .pastDue → s.row.graceUntil = none → p.grace s.since ≤ p.grace now) :
    Clocks p (s.paid (s.row.enterPastDue p now fromStatuses) now) := by
  rw [Row.enterPastDue]
  split
  · exact h.paid_self now
  rename_i hnot
  refine h.paid_setStatusIf now fromStatuses (fun _ ↦ ⟨fun _ ↦ rfl, by simp⟩)
    fun hhold hsame ↦ ⟨fun _ t ht ↦ ?_, by simp⟩
  cases ht
  refine hf hsame ?_
  by_contra hg
  exact hnot ⟨hsame, .inl hg⟩

theorem Clocks.suspend (fromStatuses : Option (List Status)) (now : Time) :
    Clocks p (s.paid (s.row.suspend now fromStatuses) now) := by
  rw [Row.suspend]
  split
  · exact h.paid_self now
  rename_i hnot
  refine h.paid_setStatusIf now fromStatuses (fun _ ↦ ⟨by simp, fun _ ↦ rfl⟩)
    fun hhold hsame ↦ ⟨by simp, fun _ ↦ ?_⟩
  -- Without a hold the row of a suspended account has its date, so nothing was written.
  exact absurd ⟨hsame, .inl (by simp [h.suspended hsame (h.not_under hhold)])⟩ hnot

theorem Clocks.reactivate (now : Time) : Clocks p (s.paid s.row.reactivate now) :=
  h.paid_setStatusIf now none (fun _ ↦ ⟨by simp, by simp⟩) fun _ _ ↦ ⟨by simp, by simp⟩

theorem Clocks.hold (now : Time) :
    Clocks p { s with
      row := s.row.placeAdminHold now
      now := now
      under := s.under && s.row.adminHold
      log := ⟨.cutOff true, now, s.since⟩ :: s.log } := by
  have hpay : (s.row.placeAdminHold now).paymentStatus = s.row.paymentStatus := by
    cases hhold : s.row.adminHold with
    | true =>
      obtain ⟨hstatus, hheld, -⟩ := h.held hhold
      simp [Row.placeAdminHold, Row.paymentStatus, hhold, hstatus]
    | false => simp [Row.placeAdminHold, Row.paymentStatus, hhold]
  have hunder : (s.under && s.row.adminHold) = false → s.under = false := by
    intro hu
    by_contra hne
    simp [h.under (by simpa using hne), show s.under = true by simpa using hne] at hu
  refine ⟨fun _ ↦ ⟨rfl, ?_, ?_⟩, fun hu ↦ rfl, fun hp hu ↦ ?_, fun hp hu ↦ ?_, ?_⟩
  · cases hhold : s.row.adminHold with
    | true => simpa [Row.placeAdminHold, hhold] using (h.held hhold).2.1
    | false => simp [Row.placeAdminHold, hhold]
  · simp only [Row.placeAdminHold]
    split
    · rename_i hs
      exact hs.2
    · simp
  · exact h.pastDue (hpay ▸ hp) (hunder hu)
  · -- A date that is there is kept, and it is the right one.
    have hat := h.suspended (hpay ▸ hp) (hunder hu)
    have hstatus : s.row.status = .suspended := by
      cases hhold : s.row.adminHold with
      | true => exact (h.held hhold).1
      | false => rw [← Row.paymentStatus_of_not_hold hhold, ← hpay, hp]
    simp [Row.placeAdminHold, hstatus, hat]
  · intro e he
    rcases mem_cons.mp he with rfl | he
    · exact .inl rfl
    · exact h.log e he

/-- A faithful lift finds the dates of the payments in the row, or no deadline. -/
theorem Clocks.lift (hhold : s.row.adminHold = true)
    (hunder : s.under = true → s.row.paymentStatus ≠ .suspended ∧
      (s.row.paymentStatus = .pastDue → s.row.graceUntil = none)) :
    Clocks p { s with row := s.row.liftAdminHold, under := false } := by
  have hrow : s.row.liftAdminHold =
      { s.row with adminHold := false, heldStatus := none, status := s.row.paymentStatus } := by
    simp [Row.liftAdminHold, Row.paymentStatus, hhold]
  have hpay : s.row.liftAdminHold.paymentStatus = s.row.paymentStatus := by
    simp [hrow, Row.paymentStatus]
  refine ⟨fun hh ↦ ?_, by simp, fun hp _ t ht ↦ ?_, fun hp _ ↦ ?_, h.log⟩
  · simp [hrow] at hh
  · have ht' : s.row.graceUntil = some t := by simpa [hrow] using ht
    cases hu : s.under with
    | true => exact absurd (((hunder hu).2 (hpay ▸ hp)).symm.trans ht') (by simp)
    | false => exact h.pastDue (hpay ▸ hp) hu t ht'
  · cases hu : s.under with
    | true => exact absurd (hpay ▸ hp) (hunder hu).1
    | false => simpa [hrow] using h.suspended (hpay ▸ hp) hu

/-- `HoldLifted` finds the payments as the hold remembered them. -/
theorem Clocks.holdLifted (prior : Option Status)
    (hf : s.row.paymentStatus = .pastDue → s.row.graceUntil = none → p.grace s.since ≤ p.grace now) :
    Clocks p (s.paid (s.row.holdLifted p now prior) now) := by
  unfold Row.holdLifted
  split
  · exact h.reactivate now
  · exact h.enterPastDue none hf
  · exact h.paid_self now
  · exact h.paid_self now

/-- The past due pass suspends only when the deadline has come. -/
theorem Clocks.promote (now : Time) : Clocks p (s.promote now) := by
  rw [State.promote]
  split
  · rename_i hover
    rw [Row.graceOver, Bool.and_eq_true, decide_eq_true_iff, Option.any_eq_true] at hover
    obtain ⟨hstatus, t, ht, hle⟩ := hover
    have hhold : s.row.adminHold = false := by
      by_contra hh
      simp [(h.held (by simpa using hh)).1] at hstatus
    have hgrace := h.pastDue ((Row.paymentStatus_of_not_hold hhold).trans hstatus)
      (h.not_under hhold) t ht
    have hs := h.suspend (some [.pastDue]) now
    refine ⟨hs.held, hs.under, hs.pastDue, hs.suspended, fun e he ↦ ?_⟩
    rcases List.mem_cons.mp he with rfl | he
    · exact le_trans hgrace (by simpa using hle)
    · exact h.log e he
  · exact h.wait now

/-- Without a hold, what the two passes over suspended accounts do is counted from the date of the
payments. -/
theorem Clocks.enforce (now : Time) : Clocks p (s.enforce p now) := by
  have hsince : s.row.status = .suspended → s.row.adminHold = false →
      s.row.suspendedAt = some s.since := by
    intro hstatus hhold
    refine h.suspended ((Row.paymentStatus_of_not_hold hhold).trans hstatus) ?_
    by_contra hu
    simp [h.under (by simpa using hu)] at hhold
  refine ⟨h.held, h.under, h.pastDue, h.suspended, fun e he ↦ ?_⟩
  rcases mem_append.mp he with he | he
  · rcases mem_append.mp he with he | he
    · split at he
      · rename_i hexp
        simp only [Row.expired, Bool.and_eq_true, decide_eq_true_iff, Bool.not_eq_true'] at hexp
        rw [hsince hexp.1.1 hexp.1.2] at hexp
        rw [mem_singleton.mp he]
        simpa [Entry.OnTime] using hexp.2
      · simp at he
    · split at he
      · rename_i hcut
        simp only [Row.cutOff, Bool.and_eq_true, decide_eq_true_iff] at hcut
        rw [mem_singleton.mp he]
        cases hhold : s.row.adminHold with
        | true => exact .inl rfl
        | false =>
          rw [hsince hcut.1 hhold, hhold] at hcut
          exact .inr (by simpa using hcut.2)
      · simp at he
  · exact h.log e he

theorem Clocks.step {s' : State} {l : Label} (hf : Faithful p s l)
    (hstep : step p s l = some s') : Clocks p s' := by
  obtain ⟨event, time⟩ := l
  obtain ⟨-, hstep⟩ := ite_none_left_eq_some.mp hstep
  cases event with
  | dunning => exact some_inj.mp hstep ▸ h.enterPastDue _ hf
  | suspend => exact some_inj.mp hstep ▸ h.suspend none time
  | activate => exact some_inj.mp hstep ▸ h.reactivate time
  | setPastDue =>
    obtain ⟨-, hstep⟩ := ite_none_left_eq_some.mp hstep
    exact some_inj.mp hstep ▸ h.enterPastDue none hf
  | hold => exact some_inj.mp hstep ▸ h.hold time
  | lift settled =>
    obtain ⟨hhold, hstep⟩ := ite_none_right_eq_some.mp hstep
    obtain ⟨hgrace, hunder⟩ := hf
    have hlift := h.lift hhold hunder
    have hpay : s.row.liftAdminHold.paymentStatus = s.row.paymentStatus ∧
        s.row.liftAdminHold.graceUntil = s.row.graceUntil := by
      simp [Row.liftAdminHold, Row.paymentStatus, hhold]
    rw [← some_inj.mp hstep]
    cases settled with
    | true =>
      refine hlift.holdLifted s.row.prior fun hp hg ↦ hgrace ?_ ?_
      · exact hpay.1 ▸ hp
      · exact hpay.2 ▸ hg
    | false => exact hlift.paid_self time
  | pass => exact some_inj.mp hstep ▸ (h.promote time).enforce time

end

end Steps

/-- **The billing clocks follow the payments.**  In every run in which every lifted hold is faithful,
whatever the lifecycle has done was on time: an account was moved from past due to suspended no
earlier than its grace period after the payments last became past due, and without a hold its servers
were cut off no earlier than the suspension grace, and its backups and templates deleted no earlier
than the retention window, after the payments last became suspended. -/
theorem clocks_follow_payments (p : Periods) {s : State} (h : Reach (step p) (Faithful p) init s) :
    ∀ e ∈ s.log, e.OnTime p :=
  (h.invariant (clocks_init p) fun _ _ _ hs hf hstep ↦ hs.step hf hstep).log

instance (p : Periods) (s : State) (l : Label) : Decidable (Faithful p s l) := by
  unfold Faithful
  split <;> infer_instance

/-- Three days of grace, two to the cutoff, a week to the deletion. -/
def days : Periods := ⟨fun t ↦ t + 3, 2, fun t ↦ t + 7⟩

/-- Payments fail, a hold comes and goes, and the account is suspended, cut off and emptied. -/
def heldWhilePastDue : List Label :=
  [⟨.dunning, 0⟩, ⟨.hold, 1⟩, ⟨.lift true, 2⟩, ⟨.pass, 3⟩, ⟨.pass, 5⟩, ⟨.pass, 10⟩]

theorem clocks_follow_payments_held : ∃ s, Reach (step days) (Faithful days) init s ∧
    s.log = [⟨.deleted, 10, 3⟩, ⟨.cutOff false, 10, 3⟩, ⟨.cutOff false, 5, 3⟩,
      ⟨.suspended, 3, 0⟩, ⟨.cutOff true, 1, 0⟩] ∧ ∀ e ∈ s.log, e.OnTime days := by
  have hrun : (exec (step days) (Faithful days) init heldWhilePastDue).map State.log =
      some [⟨.deleted, 10, 3⟩, ⟨.cutOff false, 10, 3⟩, ⟨.cutOff false, 5, 3⟩,
        ⟨.suspended, 3, 0⟩, ⟨.cutOff true, 1, 0⟩] := by decide +kernel
  obtain ⟨s, hs, hlog⟩ := exists_reach_of_exec hrun
  exact ⟨s, hs, hlog, clocks_follow_payments days hs⟩

/-- Two runs with a hold that is not faithful.  In the first the payments become suspended near the end of a
hold of two weeks, and the day after everything is gone.  In the second they become past due under a hold,
over an earlier deadline, and the account is suspended the day after. -/
theorem not_clocks_follow_payments :
    (∃ s, Reach (step days) anyStep init s ∧ ⟨.deleted, 14, 13⟩ ∈ s.log ∧
      ¬ Entry.OnTime days ⟨.deleted, 14, 13⟩ ∧ ⟨.cutOff false, 14, 13⟩ ∈ s.log ∧
      ¬ Entry.OnTime days ⟨.cutOff false, 14, 13⟩) ∧
    (∃ s, Reach (step days) anyStep init s ∧ ⟨.suspended, 11, 10⟩ ∈ s.log ∧
      ¬ Entry.OnTime days ⟨.suspended, 11, 10⟩) :=
  ⟨exists_reach_of_any [⟨.hold, 0⟩, ⟨.suspend, 13⟩, ⟨.lift true, 14⟩, ⟨.pass, 14⟩]
    (by decide +kernel),
    exists_reach_of_any [⟨.dunning, 0⟩, ⟨.hold, 1⟩, ⟨.activate, 2⟩, ⟨.dunning, 10⟩,
      ⟨.lift true, 11⟩, ⟨.pass, 11⟩] (by decide +kernel)⟩

/-! ## Holds and payments -/

/-- The status of the payments, and whether a hold is in place. -/
def Row.account (r : Row) : Status × Bool := (r.paymentStatus, r.adminHold)

/-- What an event does to an account.  Only a pass has a choice, and none under a hold: past due payments are
suspended, when their time is over. -/
def Event.Pays : Event → Status × Bool → Status × Bool → Prop
  | .dunning, (st, held), new => new = (if st = .suspended then .suspended else .pastDue, held)
  | .suspend, (_, held), new => new = (.suspended, held)
  | .activate, (_, held), new => new = (.active, held)
  | .setPastDue, (_, held), new => new = (.pastDue, held)
  | .hold, (st, _), new => new = (st, true)
  | .lift _, (st, _), new => new = (st, false)
  | .pass, (st, held), new => new = (st, held) ∨ held = false ∧ st = .pastDue ∧
      new = (.suspended, false)

/-- The events take one account to another. -/
def Paid : List Event → Status × Bool → Status × Bool → Prop
  | [], old, new => new = old
  | e :: es, old, new => ∃ st, e.Pays old st ∧ Paid es st new

/-- Under a hold the account is suspended, and the status of the payments is kept. -/
def Row.Keeps (r : Row) : Prop := r.adminHold = true → r.heldStatus ≠ none ∧ r.status = .suspended

theorem State.row_paid (s : State) (row : Row) (now : Time) : (s.paid row now).row = row := by
  unfold State.paid
  split <;> rfl

section Payments

variable {r : Row} (h : r.Keeps)

include h

theorem Row.Keeps.setStatusIf (st : Status) (g a : Option Time) (froms : Option (List Status)) :
    (r.setStatusIf st g a froms).Keeps ∧ (r.setStatusIf st g a froms).account =
      (if froms.all fun l ↦ r.paymentStatus ∈ l then st else r.paymentStatus, r.adminHold) := by
  unfold Row.setStatusIf
  split
  · refine ⟨?_, Prod.ext (Row.paymentStatus_setStatus r st g a) ?_⟩
    · unfold Row.setStatus Row.Keeps
      split <;> simp_all [Row.Keeps]
    · unfold Row.setStatus Row.account
      split <;> rfl
  · exact ⟨h, rfl⟩

/-- An event that finds its status there already, and leaves the row. -/
theorem Row.Keeps.unless (st : Status) (c : Prop) [Decidable c] (g a : Option Time)
    (froms : Option (List Status)) :
    (if r.paymentStatus = st ∧ c then r else r.setStatusIf st g a froms).Keeps ∧
      (if r.paymentStatus = st ∧ c then r else r.setStatusIf st g a froms).account =
        (if froms.all fun l ↦ r.paymentStatus ∈ l then st else r.paymentStatus, r.adminHold) := by
  split
  · rename_i hst
    exact ⟨h, by split <;> simp [Row.account, hst.1]⟩
  · exact h.setStatusIf ..

theorem Row.Keeps.placeAdminHold (now : Time) :
    (r.placeAdminHold now).Keeps ∧ (r.placeAdminHold now).account = (r.paymentStatus, true) := by
  unfold Row.Keeps at h ⊢
  cases hhold : r.adminHold <;> cases hheld : r.heldStatus <;>
    simp_all [Row.placeAdminHold, Row.paymentStatus, Row.account]

/-- A lift writes the kept status back, and `HoldLifted` finds it there. -/
theorem Row.Keeps.lift (hhold : r.adminHold = true) (p : Periods) (now : Time) (settled : Bool) :
    (if settled then r.liftAdminHold.holdLifted p now r.prior else r.liftAdminHold).Keeps ∧
      (if settled then r.liftAdminHold.holdLifted p now r.prior else r.liftAdminHold).account =
        (r.paymentStatus, false) := by
  obtain ⟨st, hst⟩ := Option.ne_none_iff_exists'.mp (h hhold).1
  have hlifted : r.liftAdminHold.Keeps ∧ r.liftAdminHold.account = (r.paymentStatus, false) := by
    simp [Row.Keeps, Row.liftAdminHold, Row.paymentStatus, Row.account, hhold, hst]
  have hfree : r.liftAdminHold.adminHold = false := congrArg Prod.snd hlifted.2
  have hpay : r.paymentStatus = st := by simp [Row.paymentStatus, hhold, hst]
  have hprior : r.prior = some st := by simp [Row.prior, hhold, hst]
  rw [hpay] at hlifted ⊢
  rw [hprior]
  split
  · cases st with
    | active => exact hfree ▸ hlifted.1.setStatusIf .active none none none
    | pastDue => exact hfree ▸ hlifted.1.unless .pastDue _ (some (p.grace now)) none none
    | suspended => exact hlifted
  · exact hlifted

/-- A pass finds no time over under a hold, where the account is suspended. -/
theorem Row.Keeps.free_of_graceOver {now : Time} (hover : r.graceOver now = true) : r.adminHold = false := by
  by_contra hhold
  have hstatus := (h (by simpa using hhold)).2
  simp [Row.graceOver, hstatus] at hover

end Payments

theorem pays_of_step {p : Periods} {s s' : State} {l : Label} (h : s.row.Keeps)
    (hstep : step p s l = some s') : s'.row.Keeps ∧ l.event.Pays s.row.account s'.row.account := by
  obtain ⟨event, now⟩ := l
  unfold step at hstep
  split at hstep
  · cases hstep
  cases event with
  | dunning =>
    cases hstep
    rw [State.row_paid]
    obtain ⟨hkeeps, hpay⟩ := h.unless .pastDue (s.row.graceUntil ≠ none ∨ s.row.adminHold = true)
      (some (p.grace now)) none (some [.active, .pastDue])
    refine ⟨hkeeps, hpay.trans (congrArg (·, _) ?_)⟩
    cases s.row.paymentStatus <;> rfl
  | suspend =>
    cases hstep
    rw [State.row_paid]
    exact h.unless .suspended _ none (some now) none
  | activate =>
    cases hstep
    rw [State.row_paid]
    exact h.setStatusIf .active none none none
  | setPastDue =>
    simp only at hstep
    split at hstep <;> cases hstep
    rw [State.row_paid]
    exact h.unless .pastDue _ (some (p.grace now)) none none
  | hold =>
    cases hstep
    exact h.placeAdminHold now
  | lift settled =>
    simp only at hstep
    split at hstep <;> cases hstep
    rw [State.row_paid]
    exact h.lift ‹_› p now settled
  | pass =>
    cases hstep
    unfold State.enforce State.promote
    split
    · rename_i hover
      have hfree := h.free_of_graceOver hover
      simp only [State.row_paid]
      obtain ⟨hkeeps, hpay⟩ := h.unless .suspended (s.row.suspendedAt ≠ none ∨ s.row.adminHold = true)
        none (some now) (some [.pastDue])
      refine ⟨hkeeps, ?_⟩
      unfold Row.suspend
      rw [hpay, hfree, Row.account, hfree]
      cases s.row.paymentStatus <;> simp [Event.Pays]
    · exact ⟨h, .inl rfl⟩

end Dylaris.Billing
