import Dylaris.Queue.Phase

/-!
# One run of a handler at a time, and none after a success

Live reads and both recovery passes may hand the same id to the pools of a process again and again.
Between the success and the `SET` of the marker the id is at stage `mark`, so it is still in flight and
cannot be claimed again; from the `SET` on, the check that precedes every run finds the marker
(`Once.marked`).
-/

set_option autoImplicit false

namespace Dylaris.Queue

open List

open Machine (Outcome)

/-- The commands of process `p` on the id succeed, and the id's done marker does not expire. -/
def MarkerKept (p id : Nat) : Label → Prop
  | .worker q i (.command o _) => q = p → i = id → o = .ok
  | .expireDone i => i ≠ id
  | _ => True

/-- What holds of a process whose commands on the id succeed. -/
structure Once (id : Nat) (r : Redis) (P : Proc) : Prop where
  tidy : P.Tidy
  noRepeat : NotAfter (.returned id true) (.invoked id) P.log
  /-- A success has left its marker, or is about to. -/
  marked : .returned id true ∈ P.log → id ∈ r.done ∨ P.phase id = some .mark ∨ P.Gone

theorem Reads.done_eq {r r' : Redis} {P : Proc} (h : Reads r P r') : r'.done = r.done := by
  cases h <;> rfl

/-- Markers stay, whatever any process does. -/
theorem step_done {w w' : World} {a : Label} {p id : Nat} (hok : MarkerKept p id a)
    (hstep : w.step a = some w') (hid : id ∈ w.redis.done) : id ∈ w'.redis.done := by
  cases step_cases hstep with
  | env henv =>
    cases henv with
    | publish hr =>
      obtain ⟨l, -, rfl⟩ := Option.map_eq_some_iff.mp hr
      exact hid
    | expireDone i => exact mem_filter.mpr ⟨hid, by simpa using (Ne.symm hok)⟩
    | expireAttempts i => exact hid
  | start _ => exact hid
  | proc _ hmove =>
    cases hmove with
    | crash => exact hid
    | cancel => exact hid
    | reader hmove =>
      cases hmove with
      | read _ hread _ _ _ => exact hread.done_eq ▸ hid
      | begin _ _ => exact hid
      | send _ _ _ => exact hid
      | giveUp _ => exact hid
    | worker hmove =>
      cases hmove with
      | take _ _ => exact hid
      | drop _ _ => exact hid
      | command _ he => exact command_done he hid
      | handler _ _ => exact hid
      | release _ _ => exact hid

namespace Once

variable {id : Nat} {r r' : Redis} {P P' : Proc}

section

variable (h : Once id r P)

include h

/-- The server may change in any way that keeps the marker. -/
theorem server (hdone : id ∈ r.done → id ∈ r'.done) : Once id r' P :=
  ⟨h.tidy, h.noRepeat, fun hret ↦ (h.marked hret).imp_left hdone⟩

section

variable (hlive : ¬ P.Gone)

include hlive

theorem marked_of_phase_ne (hat : P.phase id ≠ some .mark)
    (hret : .returned id true ∈ P.log) : id ∈ r.done :=
  (h.marked hret).resolve_right fun hor ↦ hor.elim hat hlive

/-- A move that adds at most one event to the log.  A run for the id may start only where none has
succeeded, and a success must be on its way to its marker. -/
theorem next (htidy : P'.Tidy) (events : List Event)
    (hlog : P'.log = events ++ P.log) (hlen : events.length ≤ 1)
    (hinvoked : .invoked id ∈ events → .returned id true ∉ P.log)
    (hdone : id ∈ r.done → id ∈ r'.done)
    (hret : .returned id true ∈ events → P'.phase id = some .mark)
    (hmark : P.phase id = some .mark → id ∈ r'.done ∨ P'.phase id = some .mark) : Once id r' P' := by
  refine ⟨htidy, ?_, fun hmem ↦ ?_⟩
  · rw [hlog]
    exact h.noRepeat.append hlen hinvoked
  rw [hlog, mem_append] at hmem
  rcases hmem with hmem | hmem
  · exact .inr (.inl (hret hmem))
  · rcases h.marked hmem with hid | hphase | hgone
    · exact .inl (hdone hid)
    · exact (hmark hphase).imp_right .inl
    · exact absurd hgone hlive

/-- A move of the phase of an id that is not between its success and its marker, with nothing added to
the log. -/
theorem move (htidy : P'.Tidy) {i : Nat} {stage : Option Stage}
    (hat : P.phase i ≠ some .mark) (hphase : ∀ k, P'.phase k = if k = i then stage else P.phase k)
    (hlog : P'.log = P.log) : Once id r P' := by
  refine h.next hlive htidy [] hlog (Nat.zero_le 1) (fun hin ↦ by cases hin) (fun hid ↦ hid)
    (fun hin ↦ by cases hin) fun hmark ↦ .inr ?_
  have hne : id ≠ i := by
    rintro rfl
    exact hat hmark
  rw [hphase, if_neg hne, hmark]

/-- A command that succeeds on the id itself. -/
theorem command (htidy : P'.Tidy) {m : Msg} {stage : Stage}
    {e : Effect} (hm : m.id = id) (hat : P.phase m.id = some stage) (he : Succeeds P.cfg r m stage e)
    (hdone : id ∈ r.done → id ∈ e.redis.done) (hlog : P'.log = e.events ++ P.log) :
    Once id e.redis P' := by
  subst hm
  cases he with
  | invoke hnew =>
    refine h.next hlive htidy _ hlog (Nat.le_refl 1) (fun _ hret ↦ hnew ?_) hdone ?_ ?_
    · exact h.marked_of_phase_ne hlive (by rw [hat]; decide) hret
    · intro hin
      cases mem_singleton.mp hin
    · intro hmark
      rw [hat] at hmark
      cases hmark
  | mark =>
    refine h.next hlive htidy _ hlog (Nat.zero_le 1) (fun hin ↦ by cases hin) hdone
      (fun hin ↦ by cases hin) fun _ ↦ .inl mem_cons_self
  | park _ =>
    refine h.next hlive htidy _ hlog (Nat.le_refl 1) ?_ hdone ?_ ?_
    · intro hin
      cases mem_singleton.mp hin
    · intro hin
      cases mem_singleton.mp hin
    · intro hmark
      rw [hat] at hmark
      cases hmark
  | _ =>
    refine h.next hlive htidy _ hlog (Nat.zero_le 1) (fun hin ↦ by cases hin) hdone
      (fun hin ↦ by cases hin) fun hmark ↦ ?_
    rw [hat] at hmark
    cases hmark

/-- A command on another id. -/
theorem other (htidy : P'.Tidy) {m : Msg} {stage : Stage}
    {o : Outcome} {trim : Nat} {e : Effect} (hm : id ≠ m.id)
    (he : Queue.command P.cfg r m stage o trim = some e)
    (hphase : ∀ i, P'.phase i = if i = m.id then some e.stage else P.phase i)
    (hlog : P'.log = e.events ++ P.log) : Once id e.redis P' := by
  have hevents := command_events he
  refine h.next hlive htidy _ hlog ?_ (fun hin ↦ ?_) (command_done he) (fun hin ↦ ?_)
    fun hmark ↦ .inr ?_
  · rcases hevents with hev | hev | hev <;> simp [hev]
  · rcases hevents with hev | hev | hev <;> simp [hev, hm] at hin
  · rcases hevents with hev | hev | hev <;> simp [hev] at hin
  · rw [hphase, if_neg hm, hmark]

end

/-- **A move of the process keeps it.** -/
theorem turn {p : Nat} {a : Label} (hok : MarkerKept p id a)
    (hmove : ProcMove r P p a r' P') : Once id r' P' := by
  obtain ⟨htidy, -, hturn⟩ := hmove.turn h.tidy
  by_cases hlive : P.Gone
  · obtain ⟨hgone, hlog⟩ := hturn.of_gone hlive
    exact ⟨htidy, hlog ▸ h.noRepeat, fun _ ↦ .inr (.inr hgone)⟩
  cases hturn with
  | cancel _ hphase hlog =>
    exact h.next hlive htidy [] hlog (Nat.zero_le 1) (fun hin ↦ by cases hin)
      (fun hid ↦ hid) (fun hin ↦ by cases hin) fun hmark ↦ .inr ((hphase id).trans hmark)
  | read _ hread hphase hlog =>
    exact h.next hlive htidy [] hlog (Nat.zero_le 1) (fun hin ↦ by cases hin)
      (fun hid ↦ hread.done_eq ▸ hid) (fun hin ↦ by cases hin)
      fun hmark ↦ .inr ((hphase id).trans hmark)
  | begin _ hfree hphase hlog =>
    exact h.move hlive htidy (by rw [h.tidy.phase_of_not_inflight hfree]; simp) hphase hlog
  | advance hat _ hphase hlog => exact h.move hlive htidy (by rw [hat]; decide) hphase hlog
  | letGo hat hstage hphase hlog =>
    refine h.move hlive htidy ?_ hphase hlog
    rcases hstage with rfl | rfl <;> rw [hat] <;> decide
  | @command _ m stage o trim e hat he hphase hlog =>
    by_cases hm : m.id = id
    · rw [hok rfl hm] at he
      exact h.command hlive htidy hm hat (command_ok he) (command_done he) hlog
    · exact h.other hlive htidy (Ne.symm hm) he hphase hlog
  | @handler _ i result hat hphase hlog =>
    refine h.next hlive htidy [_] hlog (Nat.le_refl 1) ?_ (fun hid ↦ hid) ?_ ?_
    · intro hin
      cases mem_singleton.mp hin
    · intro hin
      have hev : id = i ∧ true = (result == .ok) := by simpa using hin
      rw [hphase, if_pos hev.1, ← hev.2]
      rfl
    · intro hmark
      have hne : id ≠ i := by
        rintro rfl
        rw [hat] at hmark
        cases hmark
      exact .inr (by rw [hphase, if_neg hne, hmark])
  | crash hgone hlog => exact ⟨htidy, hlog ▸ h.noRepeat, fun _ ↦ .inr (.inr hgone)⟩

end

end Once

/-- **A step of the world keeps it**, whichever process moves. -/
theorem Once.step {w w' : World} {a : Label} {p id : Nat} {P : Proc} (hP : w.procs[p]? = some P)
    (h : Once id w.redis P) (hok : MarkerKept p id a) (hstep : w.step a = some w') :
    ∃ P', w'.procs[p]? = some P' ∧ Once id w'.redis P' := by
  have hdone := step_done hok hstep
  cases step_cases hstep with
  | env _ => exact ⟨P, hP, h.server hdone⟩
  | start _ =>
    refine ⟨P, ?_, h⟩
    rw [List.getElem?_append_left (List.getElem?_eq_some_iff.mp hP).1, hP]
  | @proc q Q r' Q' hq hmove =>
    by_cases hqp : q = p
    · subst hqp
      rw [hP] at hq
      cases hq
      exact ⟨Q', List.getElem?_set_self (List.getElem?_eq_some_iff.mp hP).1, h.turn hok hmove⟩
    · exact ⟨P, by rw [List.getElem?_set_ne hqp, hP], h.server hdone⟩

/-- **At most one handler run per id at a time, and none after a success.**  The process starts in an
arbitrary world, and the other processes may do anything. -/
theorem handler_runs_once {w₀ w : World} {p : Nat} {name : String} {cfg : Config} {P : Proc} (id : Nat)
    (hstart : w₀.procs[p]? = some (Proc.start name cfg))
    (hreach : Machine.Reach World.step (fun _ a ↦ MarkerKept p id a) w₀ w)
    (hP : w.procs[p]? = some P) :
    (P.jobs.filter fun j ↦ j.msg.id = id ∧ j.stage = .running).length ≤ 1 ∧
      NotAfter (.returned id true) (.invoked id) P.log := by
  have h0 : Once id w₀.redis (Proc.start name cfg) :=
    ⟨Proc.tidy_start name cfg, .nil, fun hret ↦ by cases hret⟩
  obtain ⟨P', hP', h⟩ : ∃ P', w.procs[p]? = some P' ∧ Once id w.redis P' := by
    refine hreach.invariant (P := fun w ↦ ∃ P', w.procs[p]? = some P' ∧ Once id w.redis P')
      ⟨_, hstart, h0⟩ ?_
    rintro t a t' ⟨Q, hQ, hinv⟩ hok hstep
    exact hinv.step hQ hok hstep
  rw [hP] at hP'
  cases hP'
  refine ⟨h.tidy.jobs_of_id_le_one id _ fun j hj ↦ ?_, h.noRepeat⟩
  exact (of_decide_eq_true hj).1

instance (p id : Nat) : DecidablePred (MarkerKept p id)
  | .publish _ _ | .start _ _ | .crash _ | .cancel _ | .expireDone _ | .expireAttempts _ | .reader _ _
  | .worker _ _ .take | .worker _ _ .drop | .worker _ _ (.command _ _) | .worker _ _ (.handler _)
  | .worker _ _ .release => by unfold MarkerKept; infer_instance

/-- While message 1 runs, the idle tick lists it; it succeeds, and is handed over once more. -/
def relisted : List Label :=
  [.publish (some "a") 0, .reader 0 (.claim [] .ok), .reader 0 .next, .reader 0 (.list .ok),
    .reader 0 .next, .reader 0 (.read .ok), .reader 0 .next, .reader 0 .send, .reader 0 .next,
    .worker 0 1 (.command .ok 0), .reader 0 (.read .ok), .reader 0 (.claim [] .ok), .reader 0 .next,
    .reader 0 (.list .ok), .reader 0 (.list .ok), .worker 0 1 (.handler .ok),
    .worker 0 1 (.command .ok 0), .worker 0 1 (.command .ok 0), .worker 0 1 (.command .ok 0),
    .worker 0 1 .release, .reader 0 .next, .reader 0 .send, .worker 0 1 (.command .ok 0)]

/-- The second time the marker is found. -/
theorem exec_relisted :
    Machine.exec World.step (fun _ a ↦ MarkerKept 0 1 a)
      ⟨World.empty.redis, [.start "node" newConsumer]⟩ relisted =
      some ⟨⟨[⟨1, some "a"⟩], 1, 1, [], [1], [], []⟩, [⟨"node", newConsumer, false,
        .dispatch [] .live, [1], [⟨⟨1, some "a"⟩, .main, .ackOnly⟩],
          [.returned 1 true, .invoked 1]⟩]⟩ :=
  rfl

theorem handler_runs_once_relisted :
    NotAfter (.returned 1 true) (.invoked 1) [.returned 1 true, .invoked 1] := by
  have hstart : (⟨World.empty.redis, [.start "node" newConsumer]⟩ : World).procs[0]? =
      some (.start "node" newConsumer) := rfl
  exact (handler_runs_once 1 hstart (Machine.reach_of_exec exec_relisted) rfl).2

end Dylaris.Queue
