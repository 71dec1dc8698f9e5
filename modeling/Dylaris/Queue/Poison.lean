import Dylaris.Queue.Phase

/-!
# Poison messages

A recovery pass lists the pending entries first and claims them later.  Between the two, the message may
fail for the last time, be parked, acknowledged and released; `deadLetter` has then cleared the attempts
counter and left no done marker, so the claim of the stale entry succeeds and the handler runs again
(`not_bounded_staleListing`).  `FreshListing` leaves that out.

The argument is one about a budget.  An id that may be run has been run no more often than its attempts
counter says, and fewer than `MaxDeliveries` times (`Unspent`); every other phase of an id is on its way
back there, or leaves the pending list, from where nothing comes back (`Entitled`).
-/

set_option autoImplicit false

namespace Dylaris.Queue

open List Option Redis Machine World

/-- One consumer process, whose commands succeed. -/
def OneConsumer : Label → Prop
  | .start _ _ => False
  | .worker _ _ (.command o _) => o = .ok
  | .reader _ (.claim _ o) | .reader _ (.list o) | .reader _ (.read o) => o = .ok
  | _ => True

/-- The message at the head of a dispatch. -/
def Reader.head? : Reader → Option Msg
  | .dispatch (m :: _) _ => some m
  | _ => none

/-- What `dispatch` claims is still pending, and no attempts counter expires. -/
def FreshListing (w : World) : Label → Prop
  | .reader p _ => ∀ P ∈ w.procs[p]?, ∀ m ∈ P.reader.head?, m.id ∉ P.inflight →
      w.redis.IsPending m.id
  | .expireAttempts _ => False
  | _ => True

/-! ## The budget of an id -/

section Budget

variable (cfg : Config) (r : Redis) (log : List Event) (id : Nat)

/-- The id may be run once more. -/
def Unspent : Prop :=
  log.count (.invoked id) ≤ r.attempts.count id ∧
    (log.count (.invoked id) : Int) < cfg.maxDeliveries ∧ .parked id ∉ log

/-- What a phase says about the budget. -/
def Entitled : Option Stage → Prop
  | none | some .release => r.IsPending id → Unspent cfg r log id
  | some .queued | some .check => Unspent cfg r log id
  | some .running | some .count =>
    log.count (.invoked id) ≤ r.attempts.count id + 1 ∧ .parked id ∉ log
  | some .parkClear | some .markClear => ¬ r.IsPending id
  | some .ackOnly | some .park | some .parkAck | some .mark | some .markAck => True

end Budget

variable {cfg : Config} {r r' : Redis} {log log' : List Event} {id : Nat}

theorem Unspent.mono (h : Unspent cfg r log id)
    (hattempts : r.attempts.count id ≤ r'.attempts.count id)
    (hruns : log'.count (.invoked id) = log.count (.invoked id))
    (hparked : .parked id ∈ log' → .parked id ∈ log) : Unspent cfg r' log' id :=
  ⟨hruns ▸ Nat.le_trans h.1 hattempts, hruns ▸ h.2.1, fun hmem ↦ h.2.2 (hparked hmem)⟩

variable {phase : Option Stage}

/-- What a phase says about the budget stays true while nothing happens to the id but leaving the
pending list. -/
theorem Entitled.mono (h : Entitled cfg r log id phase)
    (hpend : r'.IsPending id → r.IsPending id)
    (hattempts : r.attempts.count id ≤ r'.attempts.count id)
    (hruns : log'.count (.invoked id) = log.count (.invoked id))
    (hparked : .parked id ∈ log' → .parked id ∈ log) : Entitled cfg r' log' id phase := by
  match phase with
  | none | some .release => exact fun hid ↦ (h (hpend hid)).mono hattempts hruns hparked
  | some .queued | some .check => exact Unspent.mono h hattempts hruns hparked
  | some .running | some .count =>
    exact ⟨hruns ▸ Nat.le_trans h.1 (Nat.succ_le_succ hattempts), fun hmem ↦ h.2 (hparked hmem)⟩
  | some .parkClear | some .markClear => exact fun hid ↦ h (hpend hid)
  | some .ackOnly | some .park | some .parkAck | some .mark | some .markAck => exact trivial

/-! ## Commands that succeed -/

namespace Succeeds

variable {m : Msg} {stage : Stage} {e : Effect}

section

variable (h : Succeeds cfg r m stage e)

include h

theorem isPending (hid : e.redis.IsPending id) : r.IsPending id := by
  cases h with
  | ackOnly | parkAck | markAck => exact (isPending_ack.mp hid).1
  | park hr =>
    obtain ⟨dead, -, rfl⟩ := map_eq_some_iff.mp hr
    exact hid
  | _ => exact hid

theorem lastDelivered : e.redis.lastDelivered = r.lastDelivered := by
  cases h with
  | park hr =>
    obtain ⟨dead, -, rfl⟩ := map_eq_some_iff.mp hr
    rfl
  | _ => rfl

theorem ordered (hr : r.Ordered) : e.redis.Ordered := by
  have hpend : ∀ i, e.redis.IsPending i → r.IsPending i := fun _ ↦ h.isPending
  cases h with
  | park hr' =>
    obtain ⟨dead, -, rfl⟩ := map_eq_some_iff.mp hr'
    exact hr.of_pending rfl rfl rfl hpend
  | _ => exact hr.of_pending rfl rfl rfl hpend

/-- A command touches the attempts counter of its own message only. -/
theorem attempts (hid : id ≠ m.id) :
    e.redis.attempts.count id = r.attempts.count id := by
  cases h with
  | park hr =>
    obtain ⟨dead, -, rfl⟩ := map_eq_some_iff.mp hr
    rfl
  | retry _ | giveUp _ => exact count_cons_of_ne (Ne.symm hid)
  | parkClear | markClear => exact count_filter (by simpa using hid)
  | _ => rfl

theorem events :
    e.events.length ≤ 1 ∧ ∀ ev ∈ e.events, ev = .invoked m.id ∨ ev = .parked m.id := by
  cases h <;> simp

/-- A run starts only for an id that may be run. -/
theorem unspent_of_invoked
    (hent : Entitled cfg r log m.id (some stage)) (hev : .invoked m.id ∈ e.events) :
    Unspent cfg r log m.id := by
  cases h with
  | invoke _ => exact hent
  | park _ => cases mem_singleton.mp hev
  | _ => cases hev

/-- The next stage is as it should be. -/
theorem entitled (hent : Entitled cfg r log m.id (some stage)) :
    Entitled cfg e.redis (e.events ++ log) m.id (some e.stage) := by
  cases h with
  | found _ | missing _ | giveUp _ | park _ | mark => exact trivial
  | invoke _ =>
    refine ⟨?_, fun hmem ↦ ?_⟩
    · rw [singleton_append, count_cons_self]
      exact Nat.succ_le_succ hent.1
    · cases hmem with
      | tail _ hmem => exact hent.2.2 hmem
  | ackOnly => exact fun hid ↦ absurd rfl (isPending_ack.mp hid).2
  | retry hmax =>
    refine fun _ ↦ ⟨?_, ?_, hent.2⟩
    · exact Nat.le_trans hent.1 (Nat.le_of_eq (count_cons_self).symm)
    · have hle := hent.1
      change (log.count (.invoked m.id) : Int) < cfg.maxDeliveries
      omega
  | parkAck | markAck => exact fun hid ↦ (isPending_ack.mp hid).2 rfl
  | parkClear | markClear => exact fun hid ↦ absurd hid hent

end

end Succeeds

/-! ## The invariant -/

/-- A live process and the server: what the group has not seen is unknown to the process, and every id
is entitled to its phase. -/
structure Live (r : Redis) (P : Proc) : Prop where
  ordered : r.Ordered
  unseen : ∀ id, r.lastDelivered < id → P.phase id = none ∧ .invoked id ∉ P.log ∧
    .parked id ∉ P.log
  entitled : ∀ id, Entitled P.cfg r P.log id (P.phase id)

/-- No id has been run more than `MaxDeliveries` times, or after it was parked. -/
structure Bounded (r : Redis) (P : Proc) : Prop where
  tidy : P.Tidy
  runs_le : ∀ id, (P.log.count (.invoked id) : Int) ≤ P.cfg.maxDeliveries
  notAfter : ∀ id, NotAfter (.parked id) (.invoked id) P.log
  live : P.Gone ∨ Live r P

variable {P P' : Proc}

theorem Reads.isPending (h : Reads r P r') (hid : r'.IsPending id) :
    r.IsPending id ∨ r.lastDelivered < id := by
  cases h with
  | list => exact .inl hid
  | claim ids => exact .inl (isPending_of_claim hid)
  | deliver =>
    refine (isPending_deliver.mp hid).imp_right ?_
    rintro ⟨m, hm, rfl⟩
    exact (mem_undelivered.mp (mem_undelivered_of_batch hm)).2

theorem Reads.ordered (h : Reads r P r') (hr : r.Ordered) :
    r'.Ordered ∧ r.lastDelivered ≤ r'.lastDelivered ∧ r'.attempts = r.attempts := by
  cases h with
  | list => exact ⟨hr, Nat.le_refl _, rfl⟩
  | claim ids =>
    exact ⟨hr.of_pending rfl rfl rfl fun _ ↦ isPending_of_claim, Nat.le_refl _, rfl⟩
  | deliver =>
    exact ⟨hr.deliver P.cfg.count P.name, Redis.Ordered.le_lastDelivered_deliver r _ _, rfl⟩

namespace Live

/-- What has a phase has been delivered. -/
theorem le_lastDelivered (h : Live r P) {stage : Stage} (hat : P.phase id = some stage) :
    id ≤ r.lastDelivered := by
  refine Nat.le_of_not_lt fun hlt ↦ ?_
  rw [(h.unseen id hlt).1] at hat
  cases hat

theorem read (h : Live r P) (hmax : 1 ≤ P.cfg.maxDeliveries) (hread : Reads r P r')
    (hcfg : P'.cfg = P.cfg) (hphase : ∀ i, P'.phase i = P.phase i) (hlog : P'.log = P.log) :
    Live r' P' := by
  obtain ⟨hordered, hlast, hattempts⟩ := hread.ordered h.ordered
  refine ⟨hordered, fun i hi ↦ ?_, fun i ↦ ?_⟩
  · rw [hphase, hlog]
    exact h.unseen i (Nat.lt_of_le_of_lt hlast hi)
  rw [hcfg, hlog, hphase]
  by_cases hnew : r.lastDelivered < i
  · -- A message nobody has seen has its whole budget.
    obtain ⟨hnone, hruns, hparked⟩ := h.unseen i hnew
    rw [hnone]
    refine fun _ ↦ ⟨?_, ?_, hparked⟩
    · rw [count_eq_zero.mpr hruns]
      exact Nat.zero_le _
    · rw [count_eq_zero.mpr hruns]
      exact hmax
  · exact (h.entitled i).mono (fun hid ↦ (hread.isPending hid).resolve_right hnew)
      (Nat.le_of_eq (by rw [hattempts])) rfl fun hp ↦ hp

theorem next (h : Live r P) {i : Nat} (events : List Event)
    (hi : i ≤ r.lastDelivered) (hcfg : P'.cfg = P.cfg)
    (hphase : ∀ k, P'.phase k = if k = i then phase else P.phase k)
    (hlog : P'.log = events ++ P.log) (hordered : r'.Ordered)
    (hlast : r'.lastDelivered = r.lastDelivered) (hpend : ∀ k, r'.IsPending k → r.IsPending k)
    (hattempts : ∀ k, k ≠ i → r'.attempts.count k = r.attempts.count k)
    (hevents : ∀ k, k ≠ i → .invoked k ∉ events ∧ .parked k ∉ events)
    (hent : Entitled P.cfg r' (events ++ P.log) i phase) : Live r' P' := by
  refine ⟨hordered, fun k hk ↦ ?_, fun k ↦ ?_⟩
  · rw [hlast] at hk
    have hne : k ≠ i := by omega
    obtain ⟨hnone, hruns, hparked⟩ := h.unseen k hk
    obtain ⟨hruns', hparked'⟩ := hevents k hne
    rw [hphase, if_neg hne, hlog, mem_append, mem_append]
    exact ⟨hnone, fun hor ↦ hor.elim hruns' hruns, fun hor ↦ hor.elim hparked' hparked⟩
  · rw [hcfg, hlog, hphase]
    split
    · rename_i hki
      exact hki ▸ hent
    rename_i hne
    obtain ⟨hruns', hparked'⟩ := hevents k hne
    refine (h.entitled k).mono (hpend k) (Nat.le_of_eq (hattempts k hne).symm) ?_ fun hmem ↦ ?_
    · rw [count_append, count_eq_zero.mpr hruns', Nat.zero_add]
    · exact (mem_append.mp hmem).resolve_left hparked'

/-- A move of one id that the server does not see. -/
theorem move (h : Live r P) {i : Nat} (hi : i ≤ r.lastDelivered)
    (hcfg : P'.cfg = P.cfg) (hphase : ∀ k, P'.phase k = if k = i then phase else P.phase k)
    (hlog : P'.log = P.log) (hent : Entitled P.cfg r P.log i phase) : Live r P' :=
  h.next [] hi hcfg hphase hlog h.ordered rfl (fun _ hk ↦ hk) (fun _ _ ↦ rfl)
    (fun _ _ ↦ ⟨not_mem_nil, not_mem_nil⟩) hent

end Live

namespace Bounded

section

variable (h : Bounded r P)

include h

theorem next (htidy : P'.Tidy) (hcfg : P'.cfg = P.cfg) (events : List Event)
    (hlog : P'.log = events ++ P.log) (hlen : events.length ≤ 1)
    (hruns : ∀ i, .invoked i ∈ events → (P.log.count (.invoked i) : Int) < P.cfg.maxDeliveries)
    (hparked : ∀ i, .invoked i ∈ events → .parked i ∉ P.log) (hlive : P'.Gone ∨ Live r' P') :
    Bounded r' P' := by
  refine ⟨htidy, fun i ↦ ?_, fun i ↦ ?_, hlive⟩
  · rw [hcfg, hlog, count_append]
    by_cases hmem : .invoked i ∈ events
    · have hle := count_le_length (a := Event.invoked i) (l := events)
      have hlt := hruns i hmem
      omega
    · rw [count_eq_zero.mpr hmem, Nat.zero_add]
      exact h.runs_le i
  · rw [hlog]
    exact (h.notAfter i).append hlen (hparked i)

/-- A move that records nothing. -/
theorem quiet (htidy : P'.Tidy) (hcfg : P'.cfg = P.cfg) (hlog : P'.log = P.log)
    (hlive : P'.Gone ∨ Live r' P') : Bounded r' P' :=
  h.next htidy hcfg [] hlog (Nat.zero_le 1) (fun _ hmem ↦ absurd hmem not_mem_nil)
    (fun _ hmem ↦ absurd hmem not_mem_nil) hlive

/-- A command of the process that succeeds. -/
theorem command (hl : Live r P) (htidy : P'.Tidy) (hcfg : P'.cfg = P.cfg) {m : Msg}
    {stage : Stage} {e : Effect} (hat : P.phase m.id = some stage) (he : Succeeds P.cfg r m stage e)
    (hphase : ∀ i, P'.phase i = if i = m.id then some e.stage else P.phase i)
    (hlog : P'.log = e.events ++ P.log) : Bounded e.redis P' := by
  have hent := hl.entitled m.id
  rw [hat] at hent
  have hevents : ∀ i, .invoked i ∈ e.events → i = m.id := by
    intro i hi
    simpa using he.events.2 _ hi
  refine h.next htidy hcfg e.events hlog he.events.1 (fun i hi ↦ ?_) (fun i hi ↦ ?_) (.inr ?_)
  · obtain rfl := hevents i hi
    exact (he.unspent_of_invoked hent hi).2.1
  · obtain rfl := hevents i hi
    exact (he.unspent_of_invoked hent hi).2.2
  · refine hl.next e.events (hl.le_lastDelivered hat) hcfg hphase hlog (he.ordered hl.ordered)
      he.lastDelivered (fun _ ↦ he.isPending) (fun _ ↦ he.attempts) (fun k hk ↦ ?_) (he.entitled hent)
    refine ⟨fun hmem ↦ hk (hevents k hmem), fun hmem ↦ hk ?_⟩
    simpa using he.events.2 _ hmem

/-- **A move of the process keeps it**, if what it claims is pending. -/
theorem turn (hmax : 1 ≤ P.cfg.maxDeliveries) {p : Nat} {a : Label}
    (hone : OneConsumer a)
    (hfresh : ∀ act, a = .reader p act → ∀ m ∈ P.reader.head?, m.id ∉ P.inflight →
      r.IsPending m.id)
    (hmove : ProcMove r P p a r' P') : Bounded r' P' := by
  obtain ⟨htidy, hcfg, hturn⟩ := hmove.turn h.tidy
  rcases h.live with hgone | hl
  · obtain ⟨hgone', hlog⟩ := hturn.of_gone hgone
    exact h.quiet htidy hcfg hlog (.inl hgone')
  cases hturn with
  | cancel _ hphase hlog => exact h.quiet htidy hcfg hlog (.inr (hl.read hmax .list hcfg hphase hlog))
  | read _ hread hphase hlog =>
    exact h.quiet htidy hcfg hlog (.inr (hl.read hmax hread hcfg hphase hlog))
  | @begin act _ m rest next hat hfree hphase hlog =>
    have hpend := hfresh act rfl m (by rw [hat]; rfl) hfree
    have hent := hl.entitled m.id
    rw [h.tidy.phase_of_not_inflight hfree] at hent
    exact h.quiet htidy hcfg hlog
      (.inr (hl.move (hl.ordered.pending_le _ hpend) hcfg hphase hlog (hent hpend)))
  | @advance _ _ i stage hat hstage hphase hlog =>
    have hent := hl.entitled i
    rw [hat] at hent
    refine h.quiet htidy hcfg hlog (.inr (hl.move (hl.le_lastDelivered hat) hcfg hphase hlog ?_))
    rcases hstage with rfl | rfl <;> exact hent
  | @letGo _ _ i stage hat hstage hphase hlog =>
    have hent := hl.entitled i
    rw [hat] at hent
    refine h.quiet htidy hcfg hlog (.inr (hl.move (hl.le_lastDelivered hat) hcfg hphase hlog ?_))
    rcases hstage with rfl | rfl
    · exact fun _ ↦ hent
    · exact hent
  | @command _ m stage o trim e hat he hphase hlog =>
    cases (show o = .ok from hone)
    exact h.command hl htidy hcfg hat (command_ok he) hphase hlog
  | @handler _ i result hat hphase hlog =>
    have hent := hl.entitled i
    rw [hat] at hent
    refine h.next htidy hcfg [_] hlog (Nat.le_refl 1) (fun k hmem ↦ ?_) (fun k hmem ↦ ?_)
      (.inr (hl.next [_] (hl.le_lastDelivered hat) hcfg hphase hlog hl.ordered rfl (fun _ hk ↦ hk)
        (fun _ _ ↦ rfl) (fun k _ ↦ ?_) ?_))
    · cases mem_singleton.mp hmem
    · cases mem_singleton.mp hmem
    · simp
    split
    · exact trivial
    · refine ⟨?_, fun hmem ↦ hent.2 ?_⟩
      · exact hent.1
      · exact (mem_cons.mp hmem).resolve_left (by simp)
  | crash hgone hlog => exact h.quiet htidy hcfg hlog (.inl hgone)

end

end Bounded

/-- Publishing and the loss of a done marker do not matter. -/
theorem Bounded.env (h : Bounded r P) {a : Label} {w : World} (hfresh : FreshListing w a)
    (henv : EnvMove r a r') : Bounded r' P := by
  refine ⟨h.tidy, h.runs_le, h.notAfter, h.live.imp_right fun hl ↦ ?_⟩
  cases henv with
  | publish hr =>
    have hordered := hl.ordered.publish hr
    obtain ⟨stream, -, rfl⟩ := map_eq_some_iff.mp hr
    exact ⟨hordered, hl.unseen, hl.entitled⟩
  | expireDone i => exact ⟨hl.ordered.of_pending rfl rfl rfl fun _ hid ↦ hid, hl.unseen, hl.entitled⟩
  | expireAttempts i => exact hfresh.elim

/-- The world consists of one consumer, which is within bounds. -/
def OneBounded (cfg : Config) (w : World) : Prop :=
  ∃ P, w.procs = [P] ∧ P.cfg = cfg ∧ Bounded w.redis P

/-- **A step keeps it.** -/
theorem OneBounded.step {w w' : World} {a : Label} (h : OneBounded cfg w)
    (hmax : 1 ≤ cfg.maxDeliveries) (hone : OneConsumer a) (hfresh : FreshListing w a)
    (hstep : w.step a = some w') : OneBounded cfg w' := by
  obtain ⟨P, hprocs, rfl, hP⟩ := h
  cases step_cases hstep with
  | env henv => exact ⟨P, hprocs, rfl, hP.env hfresh henv⟩
  | start ha =>
    subst ha
    exact hone.elim
  | @proc p Q r' Q' hQ hmove =>
    obtain ⟨rfl, rfl⟩ : p = 0 ∧ P = Q := by
      rw [hprocs] at hQ
      cases p with
      | zero => exact ⟨rfl, Option.some.inj hQ⟩
      | succ p => cases hQ
    refine ⟨Q', by rw [hprocs]; rfl, (hmove.turn hP.tidy).2.1, hP.turn hmax hone ?_ hmove⟩
    rintro act rfl
    exact hfresh P hQ

/-- **Poison messages are bounded**, where `dispatch` claims only what is still pending: no id is run
more than `MaxDeliveries` times, and none after it has been parked.  The consumer starts on a server in
any state. -/
theorem poison_bounded {name : String} {cfg : Config} {r : Redis} {w : World} {P : Proc} (id : Nat)
    (hmax : 1 ≤ cfg.maxDeliveries) (hr : r.Ordered)
    (hreach : Reach step (fun w a ↦ OneConsumer a ∧ FreshListing w a)
      ⟨r, [Proc.start name cfg]⟩ w) (hP : P ∈ w.procs) :
    (P.log.count (.invoked id) : Int) ≤ cfg.maxDeliveries ∧
      NotAfter (.parked id) (.invoked id) P.log := by
  have h0 : Bounded r (Proc.start name cfg) := by
    have hfull : ∀ i, Unspent cfg r [] i := fun i ↦ ⟨Nat.zero_le _, hmax, not_mem_nil⟩
    have hzero : (0 : Int) ≤ cfg.maxDeliveries := Int.le_trans (by decide) hmax
    exact ⟨Proc.tidy_start name cfg, fun _ ↦ hzero, fun _ ↦ .nil,
      .inr ⟨hr, fun _ _ ↦ ⟨rfl, not_mem_nil, not_mem_nil⟩, fun i _ ↦ hfull i⟩⟩
  have hinv : OneBounded cfg w :=
    hreach.invariant ⟨_, rfl, rfl, h0⟩ fun _ _ _ h hok hstep ↦ h.step hmax hok.1 hok.2 hstep
  obtain ⟨Q, hprocs, rfl, hQ⟩ := hinv
  rw [hprocs] at hP
  obtain rfl := mem_singleton.mp hP
  exact ⟨hQ.runs_le id, hQ.notAfter id⟩

/-! ## A stale listing -/

instance : DecidablePred OneConsumer := fun a ↦ by
  unfold OneConsumer
  split <;> infer_instance

instance (w : World) : DecidablePred (FreshListing w) := fun a ↦ by
  unfold FreshListing
  split <;> infer_instance

/-- Message 1 is delivered and runs, and the idle tick lists it.  Then it fails and is parked. -/
def parkedWhileListed : List Label :=
  [.publish (some "a") 0, .reader 0 (.claim [] .ok), .reader 0 .next, .reader 0 (.list .ok),
    .reader 0 .next, .reader 0 (.read .ok), .reader 0 .next, .reader 0 .send, .reader 0 .next,
    .worker 0 1 (.command .ok 0), .reader 0 (.read .ok), .reader 0 (.claim [] .ok), .reader 0 .next,
    .reader 0 (.list .ok), .reader 0 (.list .ok), .worker 0 1 (.handler .error),
    .worker 0 1 (.command .ok 0), .worker 0 1 (.command .ok 0), .worker 0 1 (.command .ok 0),
    .worker 0 1 (.command .ok 0), .worker 0 1 .release]

/-- The server and the consumer after `parkedWhileListed`, and some moves on. -/
def afterParking (reader : Reader) (inflight : List Nat) (jobs : List Job) (log : List Event) : World :=
  ⟨⟨[⟨1, some "a"⟩], 1, 1, [], [], [], [(1, "a")]⟩,
    [⟨"node", oneDelivery, false, reader, inflight, jobs, log⟩]⟩

theorem exec_parkedWhileListed :
    exec step (fun w a ↦ OneConsumer a ∧ FreshListing w a)
      ⟨empty.redis, [.start "node" oneDelivery]⟩ parkedWhileListed =
      some (afterParking (.dispatch [⟨1, some "a"⟩] .live) [] []
        [.parked 1, .returned 1 false, .invoked 1]) := rfl

theorem poison_bounded_parked :
    (([.parked 1, .returned 1 false, .invoked 1] : List Event).count (.invoked 1) : Int) ≤
        oneDelivery.maxDeliveries ∧
      NotAfter (.parked 1) (.invoked 1) [.parked 1, .returned 1 false, .invoked 1] :=
  poison_bounded 1 (by decide) ⟨.nil, by decide, Nat.le_refl 0, by simp [empty, Redis.IsPending]⟩
    (reach_of_exec exec_parkedWhileListed) (mem_singleton_self _)

/-- What was listed is claimed, although it is no longer pending, and run once more. -/
theorem not_bounded_staleListing :
    ∃ w, Reach step (fun _ a ↦ OneConsumer a)
        ⟨empty.redis, [.start "node" oneDelivery]⟩ w ∧
      ∃ P ∈ w.procs, oneDelivery.maxDeliveries < P.log.count (.invoked 1) ∧
        ¬ NotAfter (.parked 1) (.invoked 1) P.log := by
  have hparked : Reach step (fun _ a ↦ OneConsumer a) _ _ :=
    (reach_of_exec exec_parkedWhileListed).mono fun _ _ h ↦ h.1
  have hclaimed : exec step (fun _ a ↦ OneConsumer a)
      (afterParking (.dispatch [⟨1, some "a"⟩] .live) [] [] [.parked 1, .returned 1 false, .invoked 1])
      [.reader 0 .next, .reader 0 .send, .worker 0 1 (.command .ok 0)] =
      some (afterParking (.dispatch [] .live) [1] [⟨⟨1, some "a"⟩, .main, .running⟩]
        [.invoked 1, .parked 1, .returned 1 false, .invoked 1]) := rfl
  refine ⟨_, hparked.trans (reach_of_exec hclaimed), _, mem_singleton_self _, by decide, ?_⟩
  intro hpair
  exact rel_of_pairwise_cons hpair mem_cons_self rfl rfl

end Dylaris.Queue
