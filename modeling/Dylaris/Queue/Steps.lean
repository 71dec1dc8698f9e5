import Dylaris.Queue.Server

/-!
# What a step of the queue can do

Three results about the queue follow, and none of them unfolds the machine.  This file says once what
a step can do, `step_cases`: the environment changes the server, a process starts, or a process moves;
and a process moves by crashing, by being cancelled, by a move of its reader (`ReaderMove`) or by a
move on one of its jobs (`WorkerMove`).

The reader has many places but only four kinds of moves.  It reads (its own place and the server
change, and nothing else does), it claims a message, it hands the message it has claimed to a pool, or
it gives it up.
-/

set_option autoImplicit false

namespace Dylaris.Queue

open List Option

open Machine (Outcome)

/-! ## Moves of the reader -/

/-- The message the reader has claimed and not yet handed over. -/
def Reader.sending : Reader → Option Msg
  | .send m _ _ => some m
  | _ => none

/-- The reads of the reader, on the server: a listing changes nothing, `XAUTOCLAIM` the owners of
pending entries, and a live read delivers the next batch. -/
inductive Reads (r : Redis) (P : Proc) : Redis → Prop
  | list : Reads r P r
  | claim (ids : List Nat) : Reads r P (r.claim ids P.name)
  | deliver : Reads r P (r.deliver (batch P.cfg.count r.undelivered) P.name)

/-- What the reader can do. -/
inductive ReaderMove (r : Redis) (P : Proc) : Redis → Proc → Prop
  | read {r' : Redis} (reader : Reader) (hread : Reads r P r') (hlive : P.reader ≠ .stopped)
      (hfrom : P.reader.sending = none) (hto : reader.sending = none) :
      ReaderMove r P r' { P with reader := reader }
  | begin {m : Msg} {rest : List Msg} {next : Next} (hat : P.reader = .dispatch (m :: rest) next)
      (hfree : m.id ∉ P.inflight) :
      ReaderMove r P r { P.beginInflight m.id with reader := .send m rest next }
  | send {m : Msg} {rest : List Msg} {next : Next} (hat : P.reader = .send m rest next)
      {j : Job} (hmsg : j.msg = m) (hstage : j.stage = .queued ∨ j.stage = .check) :
      ReaderMove r P r { P with jobs := P.jobs ++ [j], reader := .dispatch rest next }
  | giveUp {m : Msg} {rest : List Msg} {next : Next} (hat : P.reader = .send m rest next) :
      ReaderMove r P r { P.endInflight m.id with reader := .stopped }

theorem afterPage_sending (page : Nat) (out msgs : List Msg) :
    (afterPage page out msgs).sending = none := by
  rw [afterPage]
  split
  · rfl
  · split <;> rfl

variable {P P' : Proc} {m : Msg}

theorem accept_cases (h : P.accept m = some P') :
    ∃ j : Job, j.msg = m ∧ (j.stage = .queued ∨ j.stage = .check) ∧
      P' = { P with jobs := P.jobs ++ [j] } := by
  revert h
  fun_cases P.accept m <;> rintro ⟨⟩
  · exact ⟨_, rfl, .inl rfl, rfl⟩
  · exact ⟨_, rfl, .inr rfl, rfl⟩

variable {r : Redis}

theorem ReaderMove.of_eq {r' : Redis} {x reader : Reader} (hat : P.reader = x)
    (hx : x ≠ .stopped ∧ x.sending = none) (hread : Reads r P r') (hto : reader.sending = none) :
    ReaderMove r P r' { P with reader := reader } :=
  .read reader hread (hat ▸ hx.1) (hat ▸ hx.2) hto

theorem readerStep_cases {r' : Redis} {a : ReaderStep}
    (h : readerStep r P a = some (r', P')) : ReaderMove r P r' P' := by
  cases a with rw [readerStep] at h
  | claim idle o =>
    split at h <;> cases h
    rename_i hat
    refine .of_eq hat ⟨nofun, rfl⟩ ?_ rfl
    split
    · exact .claim _
    · exact .list
  | list o =>
    split at h
    · rename_i hat
      split at h <;> cases h
      · exact .of_eq hat ⟨nofun, rfl⟩ .list (afterPage_sending ..)
      · exact .of_eq hat ⟨nofun, rfl⟩ .list rfl
    · cases h
  | next =>
    split at h <;> rename_i hat
    · cases h
      exact .of_eq hat ⟨nofun, rfl⟩ .list rfl
    · cases h
      exact .of_eq hat ⟨nofun, rfl⟩ .list rfl
    · split at h <;> cases h
      · exact .of_eq hat ⟨nofun, rfl⟩ .list rfl
      · exact .begin hat ‹_›
    · cases h
  | send =>
    split at h
    · obtain ⟨Q, hQ, ⟨⟩⟩ := map_eq_some_iff.mp h
      obtain ⟨j, hmsg, hstage, rfl⟩ := accept_cases hQ
      exact .send ‹_› hmsg hstage
    · cases h
  | read o =>
    split at h <;> cases h
    rename_i hat
    refine .of_eq hat ⟨nofun, rfl⟩ ?_ ?_
    · split
      · exact .deliver
      · exact .list
    · split
      · split <;> rfl
      · rfl
  | giveUp =>
    split at h
    · split at h <;> cases h <;> rename_i hat
      · exact .giveUp hat
      · exact .of_eq hat ⟨nofun, rfl⟩ .list rfl
    · cases h

/-! ## Moves on a job -/

/-- What can happen to the job of an id. -/
inductive WorkerMove (r : Redis) (P : Proc) (id : Nat) : WorkerStep → Redis → Proc → Prop
  | take {j : Job} (hj : P.job id = some j) (hstage : j.stage = .queued) :
      WorkerMove r P id .take r (P.setStage id .check)
  | drop {j : Job} (hj : P.job id = some j) (hstage : j.stage = .queued) :
      WorkerMove r P id .drop r ((P.removeJob id).endInflight id)
  | command {j : Job} {o : Outcome} {trim : Nat} {e : Effect} (hj : P.job id = some j)
      (he : command P.cfg r j.msg j.stage o trim = some e) :
      WorkerMove r P id (.command o trim) e.redis
        { P.setStage id e.stage with log := e.events ++ P.log }
  | handler {j : Job} {result : HandlerResult} (hj : P.job id = some j)
      (hstage : j.stage = .running) :
      WorkerMove r P id (.handler result) r
        { P.setStage id (if result == .ok then .mark else .count) with
          log := .returned id (result == .ok) :: P.log }
  | release {j : Job} (hj : P.job id = some j) (hstage : j.stage = .release) :
      WorkerMove r P id .release r ((P.removeJob id).endInflight id)

variable {j : Job}

theorem isForwarded_queued (h : P.isForwarded j) : j.stage = .queued := by
  have hmem : j ∈ P.waiting j.lane := mem_of_head? h
  have hj := (mem_filter.mp hmem).2
  simp only [decide_eq_true_eq] at hj
  exact hj.2

variable {id : Nat}

theorem workerStep_cases {r' : Redis} {a : WorkerStep}
    (h : workerStep r P id a = some (r', P')) : WorkerMove r P id a r' P' := by
  obtain ⟨j, hj, h⟩ := bind_eq_some_iff.mp h
  cases a with
  | command o trim =>
    obtain ⟨e, he, hrP⟩ := map_eq_some_iff.mp h
    cases hrP
    exact .command hj he
  | take | drop | handler | release =>
    obtain ⟨hguard, h⟩ := ite_none_right_eq_some.mp h
    cases h
    first
      | exact .take hj (isForwarded_queued hguard.1)
      | exact .drop hj (isForwarded_queued hguard.2)
      | exact .handler hj hguard
      | exact .release hj hguard

/-! ## Commands -/

/-- What the commands of `process` do when they succeed. -/
inductive Succeeds (cfg : Config) (r : Redis) (m : Msg) : Stage → Effect → Prop
  | found (h : m.id ∈ r.done) : Succeeds cfg r m .check ⟨r, .ackOnly, []⟩
  | missing (h : m.id ∉ r.done) : Succeeds cfg r m .check ⟨r, .park, []⟩
  | invoke (h : m.id ∉ r.done) : Succeeds cfg r m .check ⟨r, .running, [.invoked m.id]⟩
  | ackOnly : Succeeds cfg r m .ackOnly ⟨r.ack m.id, .release, []⟩
  | retry (h : (r.attempts.count m.id : Int) + 1 < cfg.maxDeliveries) :
      Succeeds cfg r m .count ⟨r.countAttempt m.id, .release, []⟩
  | giveUp (h : cfg.maxDeliveries ≤ (r.attempts.count m.id : Int) + 1) :
      Succeeds cfg r m .count ⟨r.countAttempt m.id, .park, []⟩
  | park {data : String} {trim : Nat} {r' : Redis} (h : r.park m.id data trim = some r') :
      Succeeds cfg r m .park ⟨r', .parkAck, [.parked m.id]⟩
  | parkAck : Succeeds cfg r m .parkAck ⟨r.ack m.id, .parkClear, []⟩
  | parkClear : Succeeds cfg r m .parkClear ⟨r.clearAttempts m.id, .release, []⟩
  | mark : Succeeds cfg r m .mark ⟨r.markDone m.id, .markAck, []⟩
  | markAck : Succeeds cfg r m .markAck ⟨r.ack m.id, .markClear, []⟩
  | markClear : Succeeds cfg r m .markClear ⟨r.clearAttempts m.id, .release, []⟩

variable {cfg : Config} {stage : Stage} {trim : Nat} {e : Effect}

theorem command_ok (h : command cfg r m stage .ok trim = some e) : Succeeds cfg r m stage e := by
  cases stage with rw [command] at h
  | check =>
    split at h
    · rename_i hdone
      cases h
      exact .found hdone.2
    · rename_i hdone
      split at h <;> cases h
      · exact .missing fun hid ↦ hdone ⟨rfl, hid⟩
      · exact .invoke fun hid ↦ hdone ⟨rfl, hid⟩
  | count =>
    simp only [Outcome.applied, ↓reduceIte, some_inj] at h
    have hattempts : (r.countAttempt m.id).attempts.count m.id = r.attempts.count m.id + 1 := by
      simp [Redis.countAttempt]
    subst h
    split
    · exact .giveUp (by omega)
    · exact .retry (by omega)
  | park =>
    obtain ⟨r', hr, rfl⟩ := map_eq_some_iff.mp h
    exact .park hr
  | queued | running | release => cases h
  | ackOnly | parkAck | parkClear | mark | markAck | markClear =>
    cases h
    constructor

/-- No command takes a done marker away. -/
theorem command_done {o : Outcome} (h : command cfg r m stage o trim = some e) (hid : id ∈ r.done) :
    id ∈ e.redis.done := by
  cases stage with rw [command] at h
  | check =>
    split at h
    · cases h
      exact hid
    · split at h <;> cases h <;> exact hid
  | park =>
    split at h
    · obtain ⟨r', hr, rfl⟩ := map_eq_some_iff.mp h
      obtain ⟨dead, -, rfl⟩ := map_eq_some_iff.mp hr
      exact hid
    · cases h
      exact hid
  | mark =>
    cases h
    dsimp only
    split
    · exact mem_cons_of_mem _ hid
    · exact hid
  | queued | running | release => cases h
  | ackOnly | count | parkAck | parkClear | markAck | markClear =>
    cases h
    dsimp only
    split <;> exact hid

/-- A command records at most a run or a move to the dead-letter stream. -/
theorem command_events {o : Outcome} (h : command cfg r m stage o trim = some e) :
    e.events = [] ∨ e.events = [.invoked m.id] ∨ e.events = [.parked m.id] := by
  cases stage with rw [command] at h
  | check =>
    split at h
    · cases h
      exact .inl rfl
    · split at h <;> cases h
      · exact .inl rfl
      · exact .inr (.inl rfl)
  | park =>
    split at h
    · obtain ⟨r', -, rfl⟩ := map_eq_some_iff.mp h
      exact .inr (.inr rfl)
    · cases h
      exact .inl rfl
  | queued | running | release => cases h
  | ackOnly | count | parkAck | parkClear | mark | markAck | markClear =>
    cases h
    exact .inl rfl

/-! ## Steps of the world -/

/-- What a process can do. -/
inductive ProcMove (r : Redis) (P : Proc) (p : Nat) : Label → Redis → Proc → Prop
  | crash : ProcMove r P p (.crash p) r { P with reader := .stopped, inflight := [], jobs := [] }
  | cancel : ProcMove r P p (.cancel p) r { P with cancelled := true }
  | reader {a : ReaderStep} {r' : Redis} {P' : Proc} (h : ReaderMove r P r' P') :
      ProcMove r P p (.reader p a) r' P'
  | worker {id : Nat} {a : WorkerStep} {r' : Redis} {P' : Proc} (h : WorkerMove r P id a r' P') :
      ProcMove r P p (.worker p id a) r' P'

/-- What the rest of the world can do to the server. -/
inductive EnvMove (r : Redis) : Label → Redis → Prop
  | publish {data : Option String} {trim : Nat} {r' : Redis} (h : r.publish data trim = some r') :
      EnvMove r (.publish data trim) r'
  | expireDone (id : Nat) :
      EnvMove r (.expireDone id) { r with done := r.done.filter (· ≠ id) }
  | expireAttempts (id : Nat) : EnvMove r (.expireAttempts id) (r.clearAttempts id)

/-- **What a step can do.** -/
inductive StepCases (w : World) (a : Label) : World → Prop
  | env {r' : Redis} (h : EnvMove w.redis a r') : StepCases w a { w with redis := r' }
  | start {name : String} {cfg : Config} (h : a = .start name cfg) :
      StepCases w a { w with procs := w.procs ++ [Proc.start name cfg] }
  | proc {p : Nat} {P : Proc} {r' : Redis} {P' : Proc} (hp : w.procs[p]? = some P)
      (h : ProcMove w.redis P p a r' P') : StepCases w a ⟨r', w.procs.set p P'⟩

theorem move_eq_some {w w' : World} {p : Nat} {f : Redis → Proc → Option (Redis × Proc)}
    (h : w.move p f = some w') : ∃ P r' P', w.procs[p]? = some P ∧ f w.redis P = some (r', P') ∧
      w' = ⟨r', w.procs.set p P'⟩ := by
  obtain ⟨P, hP, h⟩ := bind_eq_some_iff.mp h
  obtain ⟨⟨r', P'⟩, hf, rfl⟩ := map_eq_some_iff.mp h
  exact ⟨P, r', P', hP, hf, rfl⟩

theorem step_cases {w w' : World} {a : Label} (h : w.step a = some w') : StepCases w a w' := by
  cases a with rw [World.step] at h
  | publish data trim =>
    obtain ⟨r', hr, rfl⟩ := map_eq_some_iff.mp h
    exact .env (.publish hr)
  | start name cfg =>
    cases h
    exact .start rfl
  | expireDone id =>
    cases h
    exact .env (.expireDone id)
  | expireAttempts id =>
    cases h
    exact .env (.expireAttempts id)
  | crash p =>
    obtain ⟨P, r', P', hP, ⟨⟩, rfl⟩ := move_eq_some h
    exact .proc hP .crash
  | cancel p =>
    obtain ⟨P, r', P', hP, ⟨⟩, rfl⟩ := move_eq_some h
    exact .proc hP .cancel
  | reader p a =>
    obtain ⟨P, r', P', hP, hf, rfl⟩ := move_eq_some h
    exact .proc hP (.reader (readerStep_cases hf))
  | worker p id a =>
    obtain ⟨P, r', P', hP, hf, rfl⟩ := move_eq_some h
    exact .proc hP (.worker (workerStep_cases hf))

/-! ## Jobs -/

theorem mem_of_job (h : P.job id = some j) : j ∈ P.jobs ∧ j.msg.id = id := by
  simpa [Job.key] using Table.mem_of_lookup h

/-- A job after `setStage`: the one of the id is at the new stage, the others are as they were. -/
theorem mem_setStage (h : j ∈ (P.setStage id stage).jobs) :
    (j.msg.id = id ∧ j.stage = stage ∧ ∃ j₀ ∈ P.jobs, j₀.msg = j.msg) ∨
      j ∈ P.jobs ∧ j.msg.id ≠ id := by
  obtain ⟨j₀, hj₀, rfl⟩ := mem_map.mp h
  split
  · rename_i hid
    exact .inl ⟨Option.some.inj hid, rfl, j₀, hj₀, rfl⟩
  · rename_i hid
    exact .inr ⟨hj₀, fun heq ↦ hid (congrArg some heq)⟩

theorem mem_removeJob (h : j ∈ (P.removeJob id).jobs) : j ∈ P.jobs ∧ j.msg.id ≠ id := by
  simpa [Job.key] using mem_filter.mp h

end Dylaris.Queue
