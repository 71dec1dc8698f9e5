import Dylaris.Library.Machine
import Dylaris.Library.Table

/-!
# The work queue

`pkg/queue/queue.go`: at-least-once work queues on a Redis stream and a consumer group.  A producer
appends a message; a consumer reads it through the group, runs the handler and only then acknowledges
it.  What was delivered and not acknowledged stays pending and is listed again by the recovery passes.

The model is a machine whose steps are single Redis commands and single moves of the goroutines.

* `Redis` is what the server holds: the stream, the group's position and pending list, the done
  markers, the attempts counters and the dead-letter stream.  A command that fails may have been
  applied or not (`Outcome`), so a reply that is lost is a case of its own.
* `Proc` is one life of a consumer process: the reading goroutine (`Reader`), the ids it has in flight,
  and the messages that have been handed to the pools (`Job`), each at some `Stage` of `process`.
  The channels in front of the pools and the forwarders are the `queued` jobs of a lane.
* `log` records what the results are about and the code does not keep: the handler invocations and their
  results, and the moves to the dead-letter stream, newest first.

Time is left out: an entry may be idle long enough to be claimed, and a marker may expire, at any
moment.
-/

set_option autoImplicit false

namespace Dylaris.Queue

open Machine (Outcome)

/-! ## Redis -/

/-- A stream entry: its id, which Redis hands out in increasing order, and its `data` field, if it has
one. -/
structure Msg where
  id : Nat
  data : Option String
deriving DecidableEq, Repr

/-- `DefaultMaxLen`. -/
def defaultMaxLen : Nat := 10000

/-- What the server holds for one stream and one group. -/
structure Redis where
  stream : List Msg
  /-- The last id handed out. -/
  top : Nat
  /-- The last id delivered to the group. -/
  lastDelivered : Nat
  /-- The pending entries, each with the consumer that owns it, in the order of their ids. -/
  pending : List (Nat × String)
  done : List Nat
  /-- The attempts counters: an id is counted as often as it occurs. -/
  attempts : List Nat
  /-- The dead-letter stream: the original id and the data. -/
  dead : List (Nat × String)
deriving DecidableEq, Repr

/-- `XADD … MAXLEN ~`: drop the oldest entries, but never below the limit. -/
def trimTo {α : Type} (trim : Nat) (entries : List α) : Option (List α) :=
  if trim = 0 ∨ defaultMaxLen + trim ≤ entries.length then some (entries.drop trim) else none

/-- A batch of at most `count` entries; go-redis sends no limit for a count of 0. -/
def batch {α : Type} (count : Nat) (entries : List α) : List α :=
  if count = 0 then entries else entries.take count

namespace Redis

variable (r : Redis)

/-- `Publish`. -/
def publish (data : Option String) (trim : Nat) : Option Redis :=
  (trimTo trim (r.stream ++ [⟨r.top + 1, data⟩])).map fun stream ↦
    { r with stream := stream, top := r.top + 1 }

/-- The entry of an id, without data where it has been trimmed off. -/
def entry (id : Nat) : Msg := (r.stream.find? fun m ↦ m.id = id).getD ⟨id, none⟩

/-- The entries the group has not seen. -/
def undelivered : List Msg := r.stream.filter fun m ↦ r.lastDelivered < m.id

/-- Deliver entries to a consumer. -/
def deliver (msgs : List Msg) (consumer : String) : Redis :=
  { r with
    pending := r.pending ++ msgs.map fun m ↦ (m.id, consumer)
    lastDelivered := (msgs.getLast?.map (·.id)).getD r.lastDelivered }

/-- A consumer's own pending entries after an id. -/
def owned (consumer : String) (after : Nat) : List Msg :=
  (r.pending.filter fun e ↦ e.2 = consumer ∧ after < e.1).map fun e ↦ r.entry e.1

/-- The entry is still in the stream. -/
def inStream (id : Nat) : Bool := r.stream.any fun m ↦ m.id = id

/-- `XAUTOCLAIM`: give pending entries to a consumer; one whose stream entry is gone is dropped. -/
def claim (ids : List Nat) (consumer : String) : Redis :=
  { r with pending := r.pending.filterMap fun e ↦
      if e.1 ∈ ids then if r.inStream e.1 then some (e.1, consumer) else none else some e }

/-- `XACK`. -/
def ack (id : Nat) : Redis := { r with pending := r.pending.filter fun e ↦ e.1 ≠ id }

/-- `SET` of a done marker. -/
def markDone (id : Nat) : Redis := { r with done := id :: r.done }

/-- `INCR` of an attempts counter. -/
def countAttempt (id : Nat) : Redis := { r with attempts := id :: r.attempts }

/-- `DEL` of an attempts counter. -/
def clearAttempts (id : Nat) : Redis := { r with attempts := r.attempts.filter (· ≠ id) }

/-- The `XADD` of `deadLetter`. -/
def park (id : Nat) (data : String) (trim : Nat) : Option Redis :=
  (trimTo trim (r.dead ++ [(id, data)])).map fun dead ↦ { r with dead := dead }

/-- The id is pending. -/
def IsPending (id : Nat) : Prop := ∃ e ∈ r.pending, e.1 = id

/-- The id is in the dead-letter stream. -/
def IsDead (id : Nat) : Prop := ∃ e ∈ r.dead, e.1 = id

instance (id : Nat) : Decidable (r.IsPending id) :=
  inferInstanceAs (Decidable (∃ e ∈ r.pending, e.1 = id))

instance (id : Nat) : Decidable (r.IsDead id) :=
  inferInstanceAs (Decidable (∃ e ∈ r.dead, e.1 = id))

end Redis

/-! ## A consumer process -/

/-- The settings of a consumer. -/
structure Config where
  count : Nat
  maxDeliveries : Int
  concurrency : Nat
  express : Option (String → Bool)
  expressConcurrency : Nat
  instant : Option (String → Bool)

/-- The defaults of `NewConsumer`. -/
def newConsumer : Config := ⟨16, 5, 1, none, 0, none⟩

/-- A consumer that parks a message at its first failure. -/
def oneDelivery : Config := { newConsumer with maxDeliveries := 1 }

/-- `expressBacklog`. -/
def expressBacklog : Nat := 64

/-- `maxPendingPages`. -/
def maxPendingPages : Nat := 64

/-- The three worker pools. -/
inductive Lane
  | main | express | instant
deriving DecidableEq, Repr

namespace Config

variable (cfg : Config)

/-- The pool a message goes to. -/
def lane (m : Msg) : Lane :=
  match cfg.express, m.data with
  | some express, some data =>
    if express data then
      match cfg.instant with
      | some instant => if instant data then .instant else .express
      | none => .express
    else .main
  | _, _ => .main

/-- Whether a queue and a forwarder stand in front of the pool. -/
def forwarded : Lane → Bool
  | .main => cfg.express.isSome
  | .express => cfg.instant.isSome
  | .instant => false

/-- The number of workers of a pool. -/
def workers : Lane → Nat
  | .main => max cfg.concurrency 1
  | .express | .instant => max cfg.expressConcurrency 1

end Config

/-- Where a message is in its pool: queued, or at the next command of `process` — and after it, at the
release by the worker. -/
inductive Stage
  | queued
  /-- `EXISTS` of the done marker. -/
  | check
  /-- `XACK` of a message whose marker was found. -/
  | ackOnly
  | running
  /-- `INCR` of the attempts counter, after a failure. -/
  | count
  /-- `XADD` to the dead-letter stream, then `XACK` and `DEL` of the counter. -/
  | park
  | parkAck
  | parkClear
  /-- `SET` of the done marker, after a success, then `XACK` and `DEL` of the counter. -/
  | mark
  | markAck
  | markClear
  /-- `endInflight`. -/
  | release
deriving DecidableEq, Repr

/-- A message handed to a pool. -/
structure Job where
  msg : Msg
  lane : Lane
  stage : Stage
deriving DecidableEq, Repr

/-- Jobs are looked up by the id of their message. -/
def Job.key (j : Job) : Option Nat := some j.msg.id

/-- Where `Run` goes on after a dispatch. -/
inductive Next
  /-- To `ownPending`, the second half of `recoverAll`. -/
  | own
  /-- To the live read. -/
  | live
deriving DecidableEq, Repr

/-- Where the reading goroutine is. -/
inductive Reader
  /-- At the `XAUTOCLAIM` of `staleClaimed`. -/
  | claim
  /-- At a page of `ownPending`, with what the pages before it listed. -/
  | list (page : Nat) (after : Nat) (out : List Msg)
  /-- In `dispatch`, at the head of the messages left. -/
  | dispatch (msgs : List Msg) (next : Next)
  /-- In `dispatch`, with a message it has claimed, at the send to its channel. -/
  | send (m : Msg) (rest : List Msg) (next : Next)
  | read
  | stopped
deriving DecidableEq, Repr

/-- What happened to a message in a process. -/
inductive Event
  | invoked (id : Nat)
  | returned (id : Nat) (ok : Bool)
  | parked (id : Nat)
deriving DecidableEq, Repr

/-- One life of a consumer process. -/
structure Proc where
  name : String
  cfg : Config
  /-- The context of `Run` is done. -/
  cancelled : Bool
  reader : Reader
  inflight : List Nat
  jobs : List Job
  /-- Newest first. -/
  log : List Event

namespace Proc

/-- A process that has entered `Run` and ensured the group. -/
def start (name : String) (cfg : Config) : Proc := ⟨name, cfg, false, .claim, [], [], []⟩

variable (P : Proc)

/-- The job of an id. -/
def job (id : Nat) : Option Job := Table.lookup Job.key id P.jobs

/-- The jobs of a lane that its workers are on. -/
def busy (lane : Lane) : Nat :=
  (P.jobs.filter fun j ↦ j.lane = lane ∧ j.stage ≠ .queued).length

/-- The jobs that wait in front of a lane. -/
def waiting (lane : Lane) : List Job :=
  P.jobs.filter fun j ↦ j.lane = lane ∧ j.stage = .queued

/-- A worker of the lane is free. -/
def hasWorker (lane : Lane) : Prop := P.busy lane < P.cfg.workers lane

instance (lane : Lane) : Decidable (P.hasWorker lane) := inferInstanceAs (Decidable (_ < _))

/-- `beginInflight` where the id is not busy. -/
def beginInflight (id : Nat) : Proc := { P with inflight := id :: P.inflight }

/-- `endInflight`. -/
def endInflight (id : Nat) : Proc := { P with inflight := P.inflight.filter (· ≠ id) }

/-- The job of an id is gone. -/
def removeJob (id : Nat) : Proc := { P with jobs := Table.delete Job.key id P.jobs }

/-- The job of an id is at another stage. -/
def setStage (id : Nat) (stage : Stage) : Proc :=
  { P with jobs := Table.update Job.key id (fun j ↦ { j with stage := stage }) P.jobs }

end Proc

/-! ## The reading goroutine -/

/-- A move of the reading goroutine. -/
inductive ReaderStep
  /-- `XAUTOCLAIM`; the ids are those idle for long enough. -/
  | claim (idle : List Nat) (o : Outcome)
  | list (o : Outcome)
  | next
  | send
  | read (o : Outcome)
  /-- The branch of a `select`, or the check of the loop, that sees the context done. -/
  | giveUp
deriving DecidableEq, Repr

/-- `ownPending` after a page: on to the next one, or to the dispatch of what was listed. -/
def afterPage (page : Nat) (out msgs : List Msg) : Reader :=
  match msgs.getLast? with
  | none => .dispatch out .live
  | some m =>
    if page + 1 = maxPendingPages then .dispatch (out ++ msgs) .live
    else .list (page + 1) m.id (out ++ msgs)

/-- The message the reader has claimed is taken: by the queue in front of its pool, if there is one,
which holds `expressBacklog` and the one its forwarder has; or by a free worker. -/
def Proc.accept (P : Proc) (m : Msg) : Option Proc :=
  let lane := P.cfg.lane m
  if P.cfg.forwarded lane then
    if (P.waiting lane).length ≤ expressBacklog then
      some { P with jobs := P.jobs ++ [⟨m, lane, .queued⟩] }
    else none
  else if P.hasWorker lane then some { P with jobs := P.jobs ++ [⟨m, lane, .check⟩] }
  else none

/-- A move of the reading goroutine of `Run`. -/
def readerStep (r : Redis) (P : Proc) : ReaderStep → Option (Redis × Proc)
  | .claim idle o =>
    match P.reader with
    | .claim =>
      let ids := batch P.cfg.count ((r.pending.filter fun e ↦ e.1 ∈ idle).map Prod.fst)
      let msgs := if o = .ok then (ids.filter r.inStream).map r.entry else []
      some (if o.applied then r.claim ids P.name else r, { P with reader := .dispatch msgs .own })
    | _ => none
  | .list o =>
    match P.reader with
    | .list page after out =>
      if o = .ok then
        some (r, { P with reader := afterPage page out (batch P.cfg.count (r.owned P.name after)) })
      else some (r, { P with reader := .dispatch out .live })
    | _ => none
  | .next =>
    match P.reader with
    | .dispatch [] .own => some (r, { P with reader := .list 0 0 [] })
    | .dispatch [] .live => some (r, { P with reader := .read })
    | .dispatch (m :: rest) next =>
      if m.id ∈ P.inflight then some (r, { P with reader := .dispatch rest next })
      else some (r, { P.beginInflight m.id with reader := .send m rest next })
    | _ => none
  | .send =>
    match P.reader with
    | .send m rest next =>
      (P.accept m).map fun P' ↦ (r, { P' with reader := .dispatch rest next })
    | _ => none
  | .read o =>
    match P.reader with
    | .read =>
      let msgs := batch P.cfg.count r.undelivered
      -- A read that finds nothing is the idle tick; one that fails is tried again.
      let reader := if o = .ok then if msgs = [] then .claim else .dispatch msgs .live else .read
      some (if o.applied then r.deliver msgs P.name else r, { P with reader := reader })
    | _ => none
  | .giveUp =>
    if P.cancelled then
      match P.reader with
      | .send m _ _ => some (r, { P.endInflight m.id with reader := .stopped })
      | .read => some (r, { P with reader := .stopped })
      | _ => none
    else none

/-! ## The workers -/

/-- What a handler does; `runHandler` turns a panic into an error. -/
inductive HandlerResult
  | ok | error | panic
deriving DecidableEq, Repr

/-- A move of a worker, or of the forwarder in front of it, on one message. -/
inductive WorkerStep
  /-- A free worker takes the message from the forwarder. -/
  | take
  /-- The forwarder sees the context done and lets the message go. -/
  | drop
  | command (o : Outcome) (trim : Nat)
  | handler (result : HandlerResult)
  | release
deriving DecidableEq, Repr

/-- What a command leaves behind. -/
structure Effect where
  redis : Redis
  stage : Stage
  events : List Event

/-- `process`, `ack` and `deadLetter`, one command at a time. -/
def command (cfg : Config) (r : Redis) (m : Msg) (stage : Stage) (o : Outcome) (trim : Nat) :
    Option Effect :=
  match stage with
  | .check =>
    if o = .ok ∧ m.id ∈ r.done then some ⟨r, .ackOnly, []⟩
    else match m.data with
      | none => some ⟨r, .park, []⟩
      | some _ => some ⟨r, .running, [.invoked m.id]⟩
  | .ackOnly => some ⟨if o.applied then r.ack m.id else r, .release, []⟩
  | .count =>
    let r' := if o.applied then r.countAttempt m.id else r
    let attempts : Int := if o = .ok then r'.attempts.count m.id else 0
    some ⟨r', if cfg.maxDeliveries ≤ attempts then .park else .release, []⟩
  | .park =>
    if o.applied then
      (r.park m.id (m.data.getD "<missing data field>") trim).map fun r' ↦
        ⟨r', if o = .ok then .parkAck else .release, [.parked m.id]⟩
    else some ⟨r, .release, []⟩
  | .parkAck => some ⟨if o.applied then r.ack m.id else r, .parkClear, []⟩
  | .parkClear => some ⟨if o.applied then r.clearAttempts m.id else r, .release, []⟩
  | .mark => some ⟨if o.applied then r.markDone m.id else r, .markAck, []⟩
  | .markAck => some ⟨if o.applied then r.ack m.id else r, .markClear, []⟩
  | .markClear => some ⟨if o.applied then r.clearAttempts m.id else r, .release, []⟩
  | .queued | .running | .release => none

/-- The job is the one the forwarder in front of its pool holds. -/
def Proc.isForwarded (P : Proc) (j : Job) : Prop := (P.waiting j.lane).head? = some j

instance (P : Proc) (j : Job) : Decidable (P.isForwarded j) := inferInstanceAs (Decidable (_ = _))

/-- A move of a worker of `Run`. -/
def workerStep (r : Redis) (P : Proc) (id : Nat) (a : WorkerStep) : Option (Redis × Proc) :=
  (P.job id).bind fun j ↦ match a with
    | .take =>
      if P.isForwarded j ∧ P.hasWorker j.lane then some (r, P.setStage id .check) else none
    | .drop =>
      if P.cancelled ∧ P.isForwarded j then some (r, (P.removeJob id).endInflight id) else none
    | .command o trim =>
      (command P.cfg r j.msg j.stage o trim).map fun e ↦
        (e.redis, { P.setStage id e.stage with log := e.events ++ P.log })
    | .handler result =>
      if j.stage = .running then
        let ok := result == .ok
        some (r, { P.setStage id (if ok then .mark else .count) with
          log := .returned id ok :: P.log })
      else none
    | .release =>
      if j.stage = .release then some (r, (P.removeJob id).endInflight id) else none

/-! ## The world -/

/-- The server, and every process there has been. -/
structure World where
  redis : Redis
  procs : List Proc

/-- A step of the world. -/
inductive Label
  | publish (data : Option String) (trim : Nat)
  | start (name : String) (cfg : Config)
  | crash (p : Nat)
  | cancel (p : Nat)
  | expireDone (id : Nat)
  | expireAttempts (id : Nat)
  | reader (p : Nat) (a : ReaderStep)
  | worker (p : Nat) (id : Nat) (a : WorkerStep)

namespace World

/-- A process moves. -/
def move (w : World) (p : Nat) (f : Redis → Proc → Option (Redis × Proc)) : Option World :=
  w.procs[p]?.bind fun P ↦ (f w.redis P).map fun rP ↦ ⟨rP.1, w.procs.set p rP.2⟩

/-- The steps of the world. -/
def step (w : World) : Label → Option World
  | .publish data trim => (w.redis.publish data trim).map fun r ↦ { w with redis := r }
  | .start name cfg => some { w with procs := w.procs ++ [Proc.start name cfg] }
  | .crash p => w.move p fun r P ↦
      some (r, { P with reader := .stopped, inflight := [], jobs := [] })
  | .cancel p => w.move p fun r P ↦ some (r, { P with cancelled := true })
  | .expireDone id =>
    some { w with redis := { w.redis with done := w.redis.done.filter (· ≠ id) } }
  | .expireAttempts id => some { w with redis := w.redis.clearAttempts id }
  | .reader p a => w.move p fun r P ↦ readerStep r P a
  | .worker p id a => w.move p fun r P ↦ workerStep r P id a

/-- Nothing has been published and nobody has started. -/
def empty : World := ⟨⟨[], 0, 0, [], [], [], []⟩, []⟩

/-- A handler run for the id has returned success. -/
def Succeeded (w : World) (id : Nat) : Prop := ∃ P ∈ w.procs, .returned id true ∈ P.log

end World

end Dylaris.Queue
