import Mathlib.Algebra.GroupWithZero.Nat
import Dylaris.Registry.Model

/-!
# The window of a streaming request

A streaming response is sent ahead of its reader by at most a window of messages: `node/flow_credit.go`
takes a credit for every chunk or frame it sends, and the pump of the request in `core/grpc/registry.go`
grants credits back, sixteen at a time, as the reader takes what the node has sent.

The model is one streaming request, from the moment the node has opened its flow: the node's credit, what
is on the stream in either direction, and Core's side of the request, with the channels and the pump of
`Dylaris.Registry.Model`.  Any number of goroutines of the node may send under the request's id.
-/

set_option autoImplicit false

namespace Dylaris.Flow

open Registry (Msg Chan Pump flowGrantEvery)

/-- `flowWindow`. -/
def flowWindow : Nat := 32

/-! ## The node's credit -/

/-- A `flowCredit`; `n` is a `uint32`. -/
structure Credit where
  n : Nat
  closed : Bool
deriving DecidableEq, Repr

namespace Credit

variable (f : Credit)

/-- `acquire`; `none` where it waits. -/
def acquire : Option (Except String Credit) :=
  if f.closed then some (.error "the request ended")
  else if 0 < f.n then some (.ok { f with n := f.n - 1 })
  else none

/-- `add`. -/
def add (k : Nat) : Credit := { f with n := (f.n + k) % 2 ^ 32 }

def close : Credit := { f with closed := true }

end Credit

/-- `awaitCredit`: what is left of the request's credit, and the message as it goes out. -/
def awaitCredit (flow : Option Credit) (m : Msg) : Option (Option Credit × Except String Msg) :=
  if !m.counted then some (flow, .ok m)
  else match flow with
    | none => some (none, .ok m)
    | some f => f.acquire.map fun
      | .error err => (some f, .error err)
      | .ok f' => (some f', .ok { m with flowWindow := 1 })

/-- A `FlowCredit` of Core. -/
inductive FlowCredit
  | grant (k : Nat)
  | cancel
deriving DecidableEq, Repr

/-- `grantFlow` and `cancelFlow`. -/
def FlowCredit.apply : FlowCredit → Credit → Credit
  | .grant k, f => f.add k
  | .cancel, f => f.close

/-! ## The request -/

/-- A streaming request. -/
structure Request where
  /-- The node's entry for the request. -/
  flow : Option Credit
  /-- The messages that `awaitCredit` has let through and that are not yet on the stream. -/
  sending : List Msg
  /-- The stream to Core, and the one to the node. -/
  up : List Msg
  down : List FlowCredit
  connected : Bool
  /-- The request's channel, and whether the connection's map leads to it. -/
  ch : Chan
  registered : Bool
  /-- The channel that stops the pump has been closed. -/
  stopped : Bool
  pump : Option Pump
  out : Chan
deriving DecidableEq, Repr

/-- The node has opened the flow of a request that Core has just sent. -/
def Request.start : Request where
  flow := some ⟨flowWindow, false⟩
  sending := []
  up := []
  down := []
  connected := true
  ch := .make 64
  registered := true
  stopped := false
  pump := some .start
  out := .make 1

inductive Label
  /-- A goroutine of the node is to send a message.  One that has waited too long sends an error in place of
  its message, which is not counted. -/
  | awaitCredit (m : Msg)
  /-- A message goes onto the stream, or the stream has failed. -/
  | send (i : Nat) (ok : Bool)
  /-- The node's read loop takes a `FlowCredit`. -/
  | takeFlowCredit
  | closeFlow
  /-- One turn of `RouteResponse` for the next message of the stream. -/
  | routeResponse (expired : Bool)
  /-- The pump: its first `select`, its second one, and either where the request has been stopped. -/
  | pumpReceive
  | pumpHandOver (ok : Bool)
  | pumpStopped (ok : Bool)
  | take
  /-- The two halves of `CleanupRequest`. -/
  | stopFlow
  | forget
  /-- `CloseStreamingRequest`, `Unregister`, `RegisterProved` or a failed `SendRequestStreaming` closes the
  request's channel. -/
  | closePending
deriving DecidableEq, Repr

namespace Request

variable (r : Request)

/-- Where the pump has handed its message on, and sends what it grants. -/
def handOver (p : Pump) (m : Msg) (ok : Bool) : Request :=
  let r := { r with out := r.out.send m, pump := some (p.handOver m).1 }
  match (p.handOver m).2 with
  | none => r
  | some k => if ok then { r with down := r.down ++ [.grant k] } else { r with connected := false }

def step : Label → Option Request
  | .awaitCredit m => (awaitCredit r.flow m).map fun
    | (flow, .error _) => { r with flow := flow }
    | (flow, .ok m) => { r with flow := flow, sending := r.sending ++ [m] }
  | .send i ok => (r.sending[i]?).map fun m ↦
    let r := { r with sending := r.sending.eraseIdx i }
    if ok then { r with up := r.up ++ [m] } else { r with connected := false }
  | .takeFlowCredit => match r.down with
    | [] => none
    | credit :: down => some { r with down := down, flow := r.flow.map credit.apply }
  | .closeFlow => some { r with flow := none }
  | .routeResponse expired => match r.up with
    | [] => none
    | m :: up =>
      if !r.registered then some { r with up := up }
      else if r.ch.room || r.ch.closed then some { r with up := up, ch := r.ch.send m }
      else if expired then some { r with up := up, ch := r.ch.close, registered := false }
      else some r
  | .pumpReceive => r.pump.bind fun p ↦ match p.hand with
    | some _ => none
    | none => r.ch.next.map fun
      | some m => { r with ch := r.ch.receive, pump := some (p.receive m) }
      | none => { r with pump := none, out := r.out.close }
  | .pumpHandOver ok => r.pump.bind fun p ↦ p.hand.bind fun m ↦
    if r.out.room then some (r.handOver p m ok) else none
  | .pumpStopped ok => r.pump.bind fun p ↦
    if r.stopped then
      some { r with
        pump := none
        out := r.out.close
        down := if ok && !p.ended then r.down ++ [.cancel] else r.down }
    else none
  | .take => if r.out.buffer = [] then none else some { r with out := r.out.receive }
  | .stopFlow => some { r with stopped := true }
  | .forget => some { r with registered := false }
  | .closePending => if r.registered then some { r with ch := r.ch.close, registered := false } else none

end Request

end Dylaris.Flow
