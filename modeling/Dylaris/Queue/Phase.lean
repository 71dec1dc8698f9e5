import Dylaris.Queue.Steps

/-!
# Where an id is in a process

`beginInflight` makes the ids of a process independent of each other: an id that is in flight has one
place, either with the reader, which has claimed it and not handed it over yet, or with one job.  That
place is its `phase`.  What follows is that every move of a process is a move of the phase of a single
id (`Turn`), which is all that the results about one message need to look at.
-/

set_option autoImplicit false

namespace Dylaris.Queue

open List Option Table

open Machine (Outcome)

/-- The phase of the id the reader has claimed. -/
def Reader.held (reader : Reader) (id : Nat) : Option Stage :=
  if reader.sending.map Msg.id = some id then some .queued else none

/-- Where an id is: at the stage of its job, or claimed by the reader, or nowhere. -/
def Proc.phase (P : Proc) (id : Nat) : Option Stage :=
  ((P.job id).map Job.stage).or (P.reader.held id)

/-- An id that is in flight is with the reader or in a job of its own. -/
structure Proc.Tidy (P : Proc) : Prop where
  unique : Unique Job.key P.jobs
  inflight : ∀ id, P.phase id ≠ none → id ∈ P.inflight
  sending : ∀ m, P.reader.sending = some m → P.job m.id = none

/-- A process that has crashed. -/
def Proc.Gone (P : Proc) : Prop := P.reader = .stopped ∧ ∀ id, P.phase id = none

/-- In a log, newest first, `b` does not follow `a`. -/
def NotAfter (a b : Event) (log : List Event) : Prop :=
  log.Pairwise fun later earlier ↦ earlier = a → later ≠ b

theorem NotAfter.append {a b : Event} {log events : List Event} (h : NotAfter a b log)
    (hlen : events.length ≤ 1) (hb : b ∈ events → a ∉ log) : NotAfter a b (events ++ log) := by
  refine pairwise_append.mpr ⟨?_, h, ?_⟩
  · match events, hlen with
    | [], _ => exact .nil
    | [_], _ => exact pairwise_singleton _ _
  · rintro later hlater earlier hearlier rfl rfl
    exact hb hlater hearlier

/-! ## The phase after a change -/

variable {reader : Reader}

theorem held_of_sending_none (h : reader.sending = none) (id : Nat) :
    reader.held id = none := by
  simp [Reader.held, h]

theorem held_of_sending {m : Msg} (h : reader.sending = some m) (id : Nat) :
    reader.held id = if id = m.id then some .queued else none := by
  simp only [Reader.held, h, map_some, Option.some.injEq]
  exact if_congr eq_comm rfl rfl

namespace Proc

variable {P : Proc} {id i : Nat}

variable {j : Job}

theorem phase_of_job (h : P.job id = some j) : P.phase id = some j.stage := by
  rw [phase, h]
  rfl

theorem job_setStage (hj : P.job id = some j) (stage : Stage) (i : Nat) :
    (P.setStage id stage).job i = if i = id then some { j with stage := stage } else P.job i := by
  have hkey : ∀ j : Job, j.key = some id → Job.key { j with stage := stage } = some id := fun _ h ↦ h
  refine (lookup_update hkey i P.jobs).trans ?_
  rw [show lookup Job.key id P.jobs = some j from hj]
  rfl

theorem phase_setStage (hj : P.job id = some j) (stage : Stage) (i : Nat) :
    (P.setStage id stage).phase i = if i = id then some stage else P.phase i := by
  rw [phase, job_setStage hj]
  split <;> rfl

theorem job_removeJob (i : Nat) : (P.removeJob id).job i = if i = id then none else P.job i :=
  lookup_delete id i P.jobs

theorem phase_removeJob (h : P.reader.held id = none) (i : Nat) :
    (P.removeJob id).phase i = if i = id then none else P.phase i := by
  rw [phase, job_removeJob]
  split
  · rename_i hi
    exact hi ▸ h
  · rfl

namespace Tidy

variable (h : P.Tidy)

include h

theorem phase_of_not_inflight (hid : id ∉ P.inflight) : P.phase id = none :=
  not_not.mp fun hne ↦ hid (h.inflight id hne)

variable {j : Job}

theorem held_of_job (hj : P.job id = some j) : P.reader.held id = none := by
  rw [Reader.held, if_neg]
  intro hheld
  obtain ⟨m, hm, rfl⟩ := map_eq_some_iff.mp hheld
  rw [h.sending m hm] at hj
  cases hj

variable {m : Msg}

theorem phase_of_sending (hat : P.reader.sending = some m) : P.phase m.id = some .queued := by
  rw [phase, h.sending m hat, held_of_sending hat, if_pos rfl]
  rfl

/-- At most one job has the id. -/
theorem jobs_of_id_le_one (id : Nat) (p : Job → Bool) (hp : ∀ j, p j = true → j.msg.id = id) :
    (P.jobs.filter p).length ≤ 1 := by
  have hpair : (P.jobs.filter p).Pairwise fun a b ↦ Job.key a = none ∨ Job.key a ≠ Job.key b :=
    h.unique.sublist filter_sublist
  match hjobs : P.jobs.filter p with
  | [] => exact Nat.zero_le 1
  | [_] => exact Nat.le_refl 1
  | a :: b :: _ =>
    have hmem : ∀ j ∈ P.jobs.filter p, j.msg.id = id := fun j hj ↦ hp j (mem_filter.mp hj).2
    rw [hjobs] at hpair hmem
    rcases rel_of_pairwise_cons hpair mem_cons_self with hnone | hne
    · cases hnone
    · have ha := hmem a mem_cons_self
      have hb := hmem b (mem_cons_of_mem _ mem_cons_self)
      exact absurd (congrArg some (ha.trans hb.symm)) hne

theorem setStage (hj : P.job id = some j) (stage : Stage) (log : List Event) :
    Tidy { P.setStage id stage with log := log } where
  unique := h.unique.update fun _ hk ↦ hk
  inflight i hi := by
    change (P.setStage id stage).phase i ≠ none at hi
    rw [phase_setStage hj] at hi
    refine h.inflight i ?_
    split at hi
    · rename_i heq
      rw [heq, phase_of_job hj]
      exact some_ne_none _
    · exact hi
  sending m hm := by
    have hne : m.id ≠ id := by
      rintro rfl
      rw [h.sending m hm] at hj
      cases hj
    change (P.setStage id stage).job m.id = none
    rw [job_setStage hj, if_neg hne]
    exact h.sending m hm

theorem removeJob (hj : P.job id = some j) : Tidy ((P.removeJob id).endInflight id) where
  unique := h.unique.delete id
  inflight i hi := by
    change (P.removeJob id).phase i ≠ none at hi
    rw [phase_removeJob (h.held_of_job hj)] at hi
    split at hi
    · exact absurd rfl hi
    · rename_i hne
      exact mem_filter.mpr ⟨h.inflight i hi, by simpa using hne⟩
  sending m hm := by
    change (P.removeJob id).job m.id = none
    rw [job_removeJob]
    split
    · rfl
    · exact h.sending m hm

theorem beginInflight {rest : List Msg} {next : Next} (hfrom : P.reader.sending = none)
    (hfree : m.id ∉ P.inflight) :
    Tidy { P.beginInflight m.id with reader := .send m rest next } ∧
      ∀ i, phase { P.beginInflight m.id with reader := .send m rest next } i =
        if i = m.id then some .queued else P.phase i := by
  have hnone := h.phase_of_not_inflight hfree
  have hjob : P.job m.id = none := by
    rw [phase, held_of_sending_none hfrom, or_none, map_eq_none_iff] at hnone
    exact hnone
  have hphase : ∀ i, phase { P.beginInflight m.id with reader := .send m rest next } i =
      if i = m.id then some .queued else P.phase i := by
    intro i
    change ((P.job i).map Job.stage).or (Reader.held (.send m rest next) i) = _
    rw [held_of_sending rfl, phase, held_of_sending_none hfrom]
    split
    · rename_i hi
      rw [hi, hjob]
      rfl
    · rfl
  refine ⟨⟨h.unique, fun i hi ↦ ?_, fun m' hm' ↦ ?_⟩, hphase⟩
  · rw [hphase] at hi
    split at hi
    · rename_i heq
      exact heq ▸ mem_cons_self
    · exact mem_cons_of_mem _ (h.inflight i hi)
  · cases hm'
    exact hjob

theorem send {rest : List Msg} {next : Next} (hat : P.reader.sending = some m) (hmsg : j.msg = m) :
    Tidy { P with jobs := P.jobs ++ [j], reader := .dispatch rest next } ∧
      ∀ i, phase { P with jobs := P.jobs ++ [j], reader := .dispatch rest next } i =
        if i = m.id then some j.stage else P.phase i := by
  have hfree := h.sending m hat
  have hkey : j.key = some m.id := hmsg ▸ rfl
  have hphase : ∀ i, phase { P with jobs := P.jobs ++ [j], reader := .dispatch rest next } i =
      if i = m.id then some j.stage else P.phase i := by
    intro i
    change ((lookup Job.key i (P.jobs ++ [j])).map Job.stage).or none = _
    rw [lookup_insert hkey hfree, phase, held_of_sending hat]
    split
    · rfl
    · rfl
  refine ⟨⟨h.unique.insert hkey hfree, fun i hi ↦ h.inflight i ?_,
    fun m' hm' ↦ by cases hm'⟩, hphase⟩
  rw [hphase] at hi
  split at hi
  · rename_i heq
    rw [heq, h.phase_of_sending hat]
    exact some_ne_none _
  · exact hi

theorem giveUp (hat : P.reader.sending = some m) :
    Tidy { P.endInflight m.id with reader := .stopped } ∧
      ∀ i, phase { P.endInflight m.id with reader := .stopped } i =
        if i = m.id then none else P.phase i := by
  have hphase : ∀ i, phase { P.endInflight m.id with reader := .stopped } i =
      if i = m.id then none else P.phase i := by
    intro i
    change ((P.job i).map Job.stage).or none = _
    rw [phase, held_of_sending hat]
    split
    · rename_i hi
      rw [hi, h.sending m hat]
      rfl
    · rfl
  refine ⟨⟨h.unique, fun i hi ↦ ?_, fun m' hm' ↦ by cases hm'⟩, hphase⟩
  rw [hphase] at hi
  split at hi
  · exact absurd rfl hi
  · rename_i hne
    exact mem_filter.mpr ⟨h.inflight i hi, by simpa using hne⟩

theorem read (hfrom : P.reader.sending = none) (hto : reader.sending = none) :
    Tidy { P with reader := reader } ∧ ∀ i, phase { P with reader := reader } i = P.phase i := by
  have hphase : ∀ i, phase { P with reader := reader } i = P.phase i := by
    intro i
    change ((P.job i).map Job.stage).or (reader.held i) = _
    rw [phase, held_of_sending_none hfrom, held_of_sending_none hto]
  refine ⟨⟨h.unique, fun i hi ↦ h.inflight i (hphase i ▸ hi), fun m hm ↦ ?_⟩, hphase⟩
  rw [hto] at hm
  cases hm

end Tidy

theorem tidy_start (name : String) (cfg : Config) : (Proc.start name cfg).Tidy :=
  ⟨List.Pairwise.nil, fun _ h ↦ absurd rfl h, fun _ h ↦ by cases h⟩

theorem gone_crash (P : Proc) :
    Tidy { P with reader := .stopped, inflight := [], jobs := [] } ∧
      Gone { P with reader := .stopped, inflight := [], jobs := [] } :=
  ⟨⟨List.Pairwise.nil, fun _ h ↦ absurd rfl h, fun _ h ↦ by cases h⟩, rfl, fun _ ↦ rfl⟩

end Proc

/-! ## Moves as moves of a phase -/

/-- What a move of a process does: the reader looks, or the phase of one id changes, or the process
crashes. -/
inductive Turn (r : Redis) (P : Proc) (p : Nat) : Label → Redis → Proc → Prop
  | cancel {P' : Proc} (hreader : P'.reader = P.reader) (hphase : ∀ i, P'.phase i = P.phase i)
      (hlog : P'.log = P.log) : Turn r P p (.cancel p) r P'
  | read {a : ReaderStep} {r' : Redis} {P' : Proc} (hlive : P.reader ≠ .stopped)
      (hread : Reads r P r') (hphase : ∀ i, P'.phase i = P.phase i) (hlog : P'.log = P.log) :
      Turn r P p (.reader p a) r' P'
  | begin {a : ReaderStep} {P' : Proc} {m : Msg} {rest : List Msg} {next : Next}
      (hat : P.reader = .dispatch (m :: rest) next) (hfree : m.id ∉ P.inflight)
      (hphase : ∀ i, P'.phase i = if i = m.id then some .queued else P.phase i)
      (hlog : P'.log = P.log) : Turn r P p (.reader p a) r P'
  | advance {a : Label} {P' : Proc} {id : Nat} {stage : Stage} (hat : P.phase id = some .queued)
      (hstage : stage = .queued ∨ stage = .check)
      (hphase : ∀ i, P'.phase i = if i = id then some stage else P.phase i)
      (hlog : P'.log = P.log) : Turn r P p a r P'
  | letGo {a : Label} {P' : Proc} {id : Nat} {stage : Stage} (hat : P.phase id = some stage)
      (hstage : stage = .queued ∨ stage = .release)
      (hphase : ∀ i, P'.phase i = if i = id then none else P.phase i)
      (hlog : P'.log = P.log) : Turn r P p a r P'
  | command {P' : Proc} {m : Msg} {stage : Stage} {o : Outcome} {trim : Nat} {e : Effect}
      (hat : P.phase m.id = some stage) (he : command P.cfg r m stage o trim = some e)
      (hphase : ∀ i, P'.phase i = if i = m.id then some e.stage else P.phase i)
      (hlog : P'.log = e.events ++ P.log) : Turn r P p (.worker p m.id (.command o trim)) e.redis P'
  | handler {P' : Proc} {id : Nat} {result : HandlerResult} (hat : P.phase id = some .running)
      (hphase : ∀ i, P'.phase i =
        if i = id then some (if result == .ok then .mark else .count) else P.phase i)
      (hlog : P'.log = .returned id (result == .ok) :: P.log) :
      Turn r P p (.worker p id (.handler result)) r P'
  | crash {P' : Proc} (hgone : P'.Gone) (hlog : P'.log = P.log) : Turn r P p (.crash p) r P'

/-- **A move of a process moves one id**, and keeps the process tidy. -/
theorem ProcMove.turn {r r' : Redis} {P P' : Proc} {p : Nat} {a : Label} (h : P.Tidy)
    (hmove : ProcMove r P p a r' P') : P'.Tidy ∧ P'.cfg = P.cfg ∧ Turn r P p a r' P' := by
  cases hmove with
  | crash => exact ⟨P.gone_crash.1, rfl, .crash P.gone_crash.2 rfl⟩
  | cancel => exact ⟨⟨h.unique, h.inflight, h.sending⟩, rfl, .cancel rfl (fun _ ↦ rfl) rfl⟩
  | reader hmove =>
    cases hmove with
    | read reader hread hlive hfrom hto =>
      obtain ⟨htidy, hphase⟩ := h.read hfrom hto
      exact ⟨htidy, rfl, .read hlive hread hphase rfl⟩
    | begin hat hfree =>
      obtain ⟨htidy, hphase⟩ := h.beginInflight (by rw [hat]; rfl) hfree
      exact ⟨htidy, rfl, .begin hat hfree hphase rfl⟩
    | @send m rest next hat j hmsg hstage =>
      have hsending : P.reader.sending = some m := by rw [hat]; rfl
      obtain ⟨htidy, hphase⟩ := h.send hsending hmsg
      exact ⟨htidy, rfl, .advance (h.phase_of_sending hsending) hstage hphase rfl⟩
    | @giveUp m rest next hat =>
      have hsending : P.reader.sending = some m := by rw [hat]; rfl
      obtain ⟨htidy, hphase⟩ := h.giveUp hsending
      exact ⟨htidy, rfl, .letGo (h.phase_of_sending hsending) (.inl rfl) hphase rfl⟩
  | worker hmove =>
    cases hmove with
    | take hj hstage =>
      refine ⟨h.setStage hj .check P.log, rfl, .advance ?_ (.inr rfl) (P.phase_setStage hj .check) rfl⟩
      rw [Proc.phase_of_job hj, hstage]
    | drop hj hstage =>
      exact ⟨h.removeJob hj, rfl, .letGo (Proc.phase_of_job hj) (.inl hstage)
        (Proc.phase_removeJob (h.held_of_job hj)) rfl⟩
    | @command j o trim e hj he =>
      obtain ⟨-, hid⟩ := mem_of_job hj
      subst hid
      exact ⟨h.setStage hj e.stage _, rfl, .command (Proc.phase_of_job hj) he
        (Proc.phase_setStage hj e.stage) rfl⟩
    | handler hj hstage =>
      refine ⟨h.setStage hj _ _, rfl, .handler ?_ (Proc.phase_setStage hj _) rfl⟩
      rw [Proc.phase_of_job hj, hstage]
    | release hj hstage =>
      exact ⟨h.removeJob hj, rfl, .letGo (Proc.phase_of_job hj) (.inr hstage)
        (Proc.phase_removeJob (h.held_of_job hj)) rfl⟩

/-- A process that has crashed does nothing more. -/
theorem Turn.of_gone {r r' : Redis} {P P' : Proc} {p : Nat} {a : Label} (hgone : P.Gone)
    (h : Turn r P p a r' P') : P'.Gone ∧ P'.log = P.log := by
  have hnone : ∀ {id : Nat} {stage : Stage}, P.phase id ≠ some stage := by
    intro id stage hat
    rw [hgone.2 id] at hat
    cases hat
  cases h with
  | cancel hreader hphase hlog =>
    exact ⟨⟨hreader.trans hgone.1, fun i ↦ (hphase i).trans (hgone.2 i)⟩, hlog⟩
  | read hlive _ _ _ => exact absurd hgone.1 hlive
  | begin hat _ _ _ =>
    rw [hgone.1] at hat
    cases hat
  | advance hat _ _ _ | letGo hat _ _ _ | command hat _ _ _ | handler hat _ _ =>
    exact absurd hat hnone
  | crash hgone' hlog => exact ⟨hgone', hlog⟩

end Dylaris.Queue
