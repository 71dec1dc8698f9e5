import Dylaris.Power.Lock

/-!
# The power commands of a server

`processCommand` in `node/main.go`, for the commands `start`, `stop`, `restart` and `kill` of one
server, with `node/stale_command.go` and the bring-up of a container in `node/docker_mgr.go`.  Stops
and kills run on workers of their own, so that commands run side by side in any order; all of them but
`kill` take the server's power lock (`Dylaris.Power.Lock`), and a stop or kill that is begun is noted
with the time at which it was issued.  A start or restart looks at that note four times: before the
lock, with the lock, before it recreates the container, and right before it starts it.

A command is a sequence of turns, one for each look at the note, each operation of the lock and each
thing done to the container.  What a turn finds is in `Io`: the clock and the desired state that the
stale check reads, whether Docker carries out what it is asked, and whether a bring-up that failed
with the extra ports is tried again without them.
-/

set_option autoImplicit false

namespace Dylaris.Power

open Machine

/-! ## Notes of stops -/

inductive Action
  | start | stop | restart | kill
deriving DecidableEq, Repr

def Action.name : Action → String
  | .start => "start"
  | .stop => "stop"
  | .restart => "restart"
  | .kill => "kill"

/-- It is a start or a restart. -/
def Action.starts : Action → Bool
  | .start | .restart => true
  | .stop | .kill => false

/-- In seconds. -/
def staleCommandAge : Int := 10 * 60

/-- `stalePowerAction`; a desired state that cannot be read is none. -/
def stalePowerAction (action : Action) (issuedAt now : Int) (desired : Option String) : Bool :=
  match desired with
  | none => false
  | some state =>
    if issuedAt = 0 ∨ now - issuedAt < staleCommandAge then false
    else if action.starts then state ≠ "online" else state = "online"

/-- `noteStop`: the newest stays. -/
def noteStop (last : Option Int) (issuedAt : Int) : Option Int :=
  if issuedAt = 0 then last
  else match last with
    | none => some issuedAt
    | some old => some (max old issuedAt)

def stopNotedAfter (last : Option Int) (issuedAt : Int) : Bool :=
  issuedAt ≠ 0 ∧ (last.map fun t ↦ decide (issuedAt < t)).getD false = true

def overtakenByStop (action : Action) (last : Option Int) (issuedAt : Int) : Bool :=
  action.starts && stopNotedAfter last issuedAt

/-! ## A command -/

/-- What is next for a command; `party` is its place at the lock. -/
inductive Stage
  /-- The stale check. -/
  | queued
  /-- The note, or the first look at it. -/
  | fresh
  | killing
  /-- `lockServerPower`. -/
  | checked
  | locking (party : Nat)
  /-- The second look, and the guard of the start. -/
  | locked (party : Nat)
  /-- `gracefulStop`. -/
  | stopping (party : Nat)
  /-- `abandonedForStop`. -/
  | pulled (party : Nat)
  /-- The old container is removed and a new one made. -/
  | preparing (party : Nat)
  /-- `startAbandoned`. -/
  | created (party : Nat)
  /-- `ContainerStart`, the first or the second one. -/
  | starting (party : Nat) (retried : Bool)
  /-- The two halves of the release. -/
  | releasing (party : Nat)
  | leaving (party : Nat)
  | done
deriving DecidableEq, Repr

/-- A power command and how far it is. -/
structure Cmd where
  action : Action
  issuedAt : Int
  stage : Stage
deriving DecidableEq, Repr

/-- What a turn finds. -/
structure Io where
  now : Int
  desired : Option String
  /-- Docker carries out what it is asked. -/
  ok : Bool
  removed : Bool
  retry : Bool

/-- The server on its node. -/
structure Node where
  lock : Lock
  /-- `lastStopIssued`. -/
  lastStop : Option Int
  /-- The guard of the lock's holder, by the issue time it looks for. -/
  abandon : Option Int
  running : Bool
  cmds : List Cmd

/-- `startAbandoned`. -/
def Node.startAbandoned (n : Node) : Bool :=
  (n.abandon.map fun issuedAt ↦ stopNotedAfter n.lastStop issuedAt).getD false

/-- One turn of a command: the node, and what is next. -/
def Cmd.turn (n : Node) (c : Cmd) (io : Io) : Option (Node × Stage) :=
  match c.stage with
  | .queued =>
    some (n, if stalePowerAction c.action c.issuedAt io.now io.desired then .done else .fresh)
  | .fresh =>
    match c.action with
    | .stop => some ({ n with lastStop := noteStop n.lastStop c.issuedAt }, .checked)
    | .kill => some ({ n with lastStop := noteStop n.lastStop c.issuedAt }, .killing)
    | .start | .restart =>
      some (n, if overtakenByStop c.action n.lastStop c.issuedAt then .done else .checked)
  | .killing => some ({ n with running := n.running && !io.ok }, .done)
  | .checked =>
    some ({ n with lock := n.lock.register c.action.name none }, .locking n.lock.parties.length)
  | .locking i =>
    match n.lock.parties[i]?.map Party.phase with
    | some .running => some (n, .locked i)
    | some .dropped => some (n, .done)
    | _ => none
  | .locked i =>
    if overtakenByStop c.action n.lastStop c.issuedAt then some (n, .releasing i)
    else match c.action with
      | .restart => some ({ n with abandon := some c.issuedAt }, .stopping i)
      | .start => some ({ n with abandon := some c.issuedAt }, .pulled i)
      | .stop | .kill => some (n, .stopping i)
  | .stopping i =>
    some ({ n with running := n.running && !io.ok },
      if c.action = .restart ∧ io.ok then .pulled i else .releasing i)
  | .pulled i =>
    some (n, if stopNotedAfter n.lastStop c.issuedAt then .releasing i else .preparing i)
  | .preparing i =>
    some ({ n with running := n.running && !(io.ok || io.removed) },
      if io.ok then .created i else .releasing i)
  | .created i => some (n, if n.startAbandoned then .releasing i else .starting i false)
  | .starting i retried =>
    if io.ok then some ({ n with running := !io.removed }, .releasing i)
    else if io.retry ∧ retried = false then some ({ n with running := false }, .starting i true)
    else some (n, .releasing i)
  | .releasing i =>
    (n.lock.step (.setInactive i)).map fun l ↦ ({ n with lock := l, abandon := none }, .leaving i)
  | .leaving i => (n.lock.step (.leave i)).map fun l ↦ ({ n with lock := l }, .done)
  | .done => none

/-! ## The node -/

inductive Act
  /-- Someone in `lockServerPower` goes on. -/
  | lock (a : Label)
  | cmd (c : Nat) (io : Io)

/-- The steps inside `lockServerPower`. -/
def Label.waits : Label → Bool
  | .takeTurn _ | .kicked _ | .check _ | .giveBack _ => true
  | .lock .. | .setInactive _ | .leave _ | .tryLock | .enter _ => false

def Node.step (n : Node) : Act → Option Node
  | .lock a => if a.waits then (n.lock.step a).map fun l ↦ { n with lock := l } else none
  | .cmd c io =>
    n.cmds[c]?.bind fun cmd ↦ (cmd.turn n io).map fun r ↦
      { r.1 with cmds := n.cmds.set c { cmd with stage := r.2 } }

/-- The commands are in the queue; the container may run, and stops may have been noted before. -/
def Node.start (cmds : List (Action × Int)) (running : Bool) (lastStop : Option Int) : Node where
  lock := .start
  lastStop := lastStop
  abandon := none
  running := running
  cmds := cmds.map fun c ↦ ⟨c.1, c.2, .queued⟩

end Dylaris.Power
