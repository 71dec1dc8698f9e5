import Mathlib.Data.List.AList
import Dylaris.Library.Machine

/-!
# The registry of node connections

`core/grpc/registry.go`: every node holds a stream to Core, and the handlers of Core send their requests
through the connection that the registry has for the node.  A reply finds its request through the
connection's map of pending requests, from the request's id to the channel the request waits on.

The model is a machine whose steps are the sections the code runs under a lock, and the single
operations between them.

* A channel is a cell of a heap (`World.chans`).  It counts how often it has been closed and what has
  been sent on it after that; in Go either is a panic that ends the process.
* A connection is a cell of a heap as well (`World.conns`): the registry's map and `replaced` are
  pointers to connections.
* A `Call` is a running call of `SendRequest`, `AwaitReply`, `SendRequestStreaming` or
  `CleanupRequest`, or the pump of a streaming request, at its next operation.
* `RouteResponse` and `CloseStreamingRequest` may be called at any moment, on any connection and for any
  message, which covers what the read loops do.

A wait may end at any moment, and a `Send` fails or does not.
-/

set_option autoImplicit false

namespace Dylaris.Registry

/-! ## Messages -/

/-- The payloads that the registry tells apart. -/
inductive Payload
  | chunk
  | wsFrame
  | wsClose
  | error
  | transferDone (totalBytes : Int) (filename : String)
  | listResp (files : List String) (more : Bool)
  | other
deriving DecidableEq, Repr

/-- A `NodeMessage` of a node. -/
structure Msg where
  requestID : String
  payload : Payload
  flowWindow : Nat
deriving DecidableEq, Repr

namespace Msg

variable (m : Msg)

/-- `IsFinalTransferDone`. -/
def isFinalTransferDone : Bool :=
  match m.payload with
  | .transferDone totalBytes filename => 0 < totalBytes ∨ filename = ""
  | _ => false

/-- The message ends its transfer. -/
def ends : Bool := m.isFinalTransferDone ∨ m.payload = .error ∨ m.payload = .wsClose

/-- The messages that count against the window of a streaming request. -/
def counted : Bool := m.payload = .chunk ∨ m.payload = .wsFrame

end Msg

/-! ## Channels -/

abbrev ChanId := Nat

/-- A channel. -/
structure Chan where
  cap : Nat
  buffer : List Msg
  /-- How often it has been closed. -/
  closes : Nat
  /-- What has been sent on it after it was closed. -/
  lateSends : Nat
deriving DecidableEq, Repr

namespace Chan

/-- `make(chan …, cap)`. -/
def make (cap : Nat) : Chan := ⟨cap, [], 0, 0⟩

variable (c : Chan)

def close : Chan := { c with closes := c.closes + 1 }

def closed : Bool := c.closes ≠ 0

/-- There is room in the buffer. -/
def room : Bool := c.buffer.length < c.cap

def send (m : Msg) : Chan :=
  if c.closed then { c with lateSends := c.lateSends + 1 } else { c with buffer := c.buffer ++ [m] }

def receive : Chan := { c with buffer := c.buffer.tail }

end Chan

/-! ## The pump -/

/-- `flowGrantEvery`. -/
def flowGrantEvery : Nat := 16

/-- The local variables of `pumpFlow`; `hand` is the message it has taken from the request's channel and
not yet handed on. -/
structure Pump where
  hand : Option Msg
  taken : Nat
  honours : Bool
  ended : Bool
deriving DecidableEq, Repr

namespace Pump

def start : Pump := ⟨none, 0, false, false⟩

variable (p : Pump) (m : Msg)

def receive : Pump := { p with hand := some m, ended := m.ends }

/-- What `pumpFlow` does once the reader's channel has taken the message, and what it then grants. -/
def handOver : Pump × Option Nat :=
  let p := { p with hand := none }
  if !m.counted then (p, none)
  else
    let p := { p with honours := p.honours || m.flowWindow ≠ 0 }
    if !p.honours then (p, none)
    else if flowGrantEvery ≤ p.taken + 1 then ({ p with taken := 0 }, some (p.taken + 1))
    else ({ p with taken := p.taken + 1 }, none)

end Pump

/-! ## Connections and calls -/

abbrev ConnId := Nat

/-- The pending requests of a connection: request id to channel. -/
abbrev Pending := AList fun _ : String ↦ ChanId

/-- The channels of pending requests, in the order a `range` over the map meets them. -/
def Pending.chans (p : Pending) : List ChanId := p.entries.map Sigma.snd

/-- A `NodeConnection`. -/
structure Conn where
  nodeID : Nat
  /-- `none` is the nil map of a connection that has been torn down. -/
  pending : Option Pending
  replaced : Option ConnId
  ended : Bool
  /-- The key the stream logged in with, if it did with one. -/
  authKey : Option (List UInt8)
deriving DecidableEq

/-- `bytes.Equal`, which does not tell a nil slice from an empty one. -/
def keysEqual (k l : Option (List UInt8)) : Bool := k.getD [] = l.getD []

/-- What a call returns. -/
inductive Answer
  | reply (m : Msg)
  | error (text : String)
  | nothing
deriving DecidableEq, Repr

/-- Where a call is. -/
inductive Call
  /-- `SendRequest` has found the node's connection. -/
  | found (conn : ConnId) (id : String) (listing : Bool)
  /-- `SendRequest`, at its `Send`. -/
  | sending (conn : ConnId) (id : String) (listing : Bool) (ch : ChanId)
  /-- `SendRequest`, at its `select`, with the files of the parts of a listing it has received. -/
  | waiting (conn : ConnId) (id : String) (listing : Bool) (ch : ChanId) (parts : List String)
  /-- `SendRequest`, at its deferred delete. -/
  | leaving (conn : ConnId) (id : String) (answer : Answer)
  /-- `AwaitReply` has returned `wait` and `stop`; `ch` is its channel, if it was registered. -/
  | awaiting (conn : ConnId) (id : String) (ch : Option ChanId)
  /-- `SendRequestStreaming` has found the node's connection. -/
  | streaming (conn : ConnId) (id : String)
  /-- `SendRequestStreaming` has registered its channel, and is at the map of stops. -/
  | registered (conn : ConnId) (id : String) (ch out stop : ChanId)
  /-- `SendRequestStreaming`, at its `Send`. -/
  | opening (conn : ConnId) (id : String) (ch out stop : ChanId)
  /-- `SendRequestStreaming`, at the `stopFlow` of its failure path. -/
  | failing (id : String) (text : String)
  /-- `pumpFlow`. -/
  | pumping (conn : ConnId) (id : String) (ch out stop : ChanId) (p : Pump)
  /-- `CleanupRequest`, at its `stopFlow`. -/
  | cleanup (node : Nat) (id : String)
  /-- `CleanupRequest`, at `GetConnection`, then at its delete. -/
  | looking (node : Nat) (id : String)
  | cleaning (conn : ConnId) (id : String)
  | done (answer : Answer)
deriving DecidableEq, Repr

/-- Core: the registry, the heaps of its pointers, and the running calls. -/
structure World where
  conns : List Conn
  /-- `Registry.connections`. -/
  entry : Nat → Option ConnId
  chans : List Chan
  flowStops : AList fun _ : String ↦ ChanId
  calls : List Call
  /-- The request ids that have been drawn: those of streaming requests, and the others. -/
  streamed : List String
  plain : List String

/-- Nothing has connected. -/
def World.start : World := ⟨[], fun _ ↦ none, [], ∅, [], [], []⟩

namespace World

variable (w : World)

def setConn (c : ConnId) (conn : Conn) : World := { w with conns := w.conns.set c conn }

/-- `close(ch)`. -/
def close (ch : ChanId) : World := { w with chans := w.chans.modify ch Chan.close }

/-- `ch <- m`. -/
def send (ch : ChanId) (m : Msg) : World := { w with chans := w.chans.modify ch fun c ↦ c.send m }

/-- `<-ch`, where there is a message. -/
def receive (ch : ChanId) : World := { w with chans := w.chans.modify ch Chan.receive }

/-- Close every channel of a connection's pending requests, and drop the map. -/
def tearDown (c : ConnId) (conn : Conn) : World :=
  { (conn.pending.getD ∅).chans.foldl close w with
    conns := w.conns.set c { conn with pending := none } }

/-! ## The registry -/

/-- `RegisterProved`. -/
def registerProved (node : Nat) (authKey : Option (List UInt8)) : World :=
  let conn : Conn := ⟨node, some ∅, w.entry node, false, authKey⟩
  let w := match (w.entry node).bind fun old ↦ (w.conns[old]?).map (old, ·) with
    | some (old, oldConn) =>
      (w.tearDown old oldConn).setConn old { oldConn with pending := none, replaced := none }
    | none => w
  { w with
    conns := w.conns ++ [conn]
    entry := Function.update w.entry node (some w.conns.length) }

/-- Whether the connection that an ending one has replaced gets the entry back. -/
def restores (conn : Conn) : Option (ConnId × Conn) :=
  (conn.replaced.bind fun prev ↦ (w.conns[prev]?).map (prev, ·)).filter fun (_, prev) ↦
    !prev.ended && prev.authKey.isSome && keysEqual prev.authKey conn.authKey

/-- `Unregister` of a connection, for the node it has been registered for. -/
def unregister (c : ConnId) (conn : Conn) : World :=
  let gone : Conn := { conn with ended := true, replaced := none }
  if w.entry conn.nodeID = some c then
    let torn := (w.tearDown c conn).setConn c { gone with pending := none }
    match w.restores conn with
    | some (prev, prevConn) =>
      { torn.setConn prev { prevConn with pending := some ∅ } with
        entry := Function.update w.entry conn.nodeID (some prev) }
    | none => { torn with entry := Function.update w.entry conn.nodeID none }
  else w.setConn c gone

/-- The channel of a pending request. -/
def pendingChan (c : ConnId) (id : String) : Option ChanId :=
  (w.conns[c]?).bind fun conn ↦ conn.pending.bind (AList.lookup id)

/-- `conn.pending[id] = ch`, on a map that is not nil. -/
def register (c : ConnId) (conn : Conn) (pending : Pending) (id : String) (ch : ChanId) : World :=
  w.setConn c { conn with pending := some (pending.insert id ch) }

/-- `delete(conn.pending, id)`, which does nothing on a nil map. -/
def forget (c : ConnId) (id : String) : World :=
  match w.conns[c]? with
  | some conn => w.setConn c { conn with pending := conn.pending.map (AList.erase id) }
  | none => w

/-- One turn of the loop of `RouteResponse`; `expired` says whether the deadline has passed. -/
def routeResponse (c : ConnId) (m : Msg) (expired : Bool) : World :=
  match w.pendingChan c m.requestID with
  | some ch =>
    match w.chans[ch]? with
    | some chan =>
      -- A send on a closed channel is tried, whatever is in the buffer.
      if chan.room || chan.closed then w.send ch m
      else if expired then (w.close ch).forget c m.requestID
      else w
    | none => w
  | none => w

/-- `CloseStreamingRequest`. -/
def closeStreamingRequest (c : ConnId) (id : String) : World :=
  match w.pendingChan c id with
  | some ch => (w.close ch).forget c id
  | none => w

/-- `stopFlow`. -/
def stopFlow (id : String) : World :=
  match w.flowStops.lookup id with
  | some stop => { w.close stop with flowStops := w.flowStops.erase id }
  | none => w

end World

/-! ## The calls -/

/-- A move of a call. -/
inductive Move
  /-- The next section under a lock. -/
  | proceed
  /-- A `Send` returns, with an error or without. -/
  | sent (err : Option String)
  /-- A receive from the request's channel: a message, or that it is closed. -/
  | receive
  | timeout
  | handOver
  | stopped
  /-- `stop`, of `AwaitReply`. -/
  | stop
deriving DecidableEq, Repr

/-- What the connection of a call answers where it has been torn down. -/
def connectionClosed (node : Nat) : String := "node " ++ toString node ++ " connection closed"

def notConnected (node : Nat) : String := "node " ++ toString node ++ " not connected"

def failedToSend (node : Nat) (err : String) : String :=
  "failed to send to node " ++ toString node ++ ": " ++ err

def timeoutWaiting (node : Nat) (id : String) : String :=
  "timeout waiting for response from node " ++ toString node ++ " (request " ++ id ++ ")"

/-- `SendRequest` has received a reply: it waits on for a listing that is not complete, and joins the
parts of one that is. -/
def received (conn : ConnId) (id : String) (listing : Bool) (ch : ChanId) (parts : List String)
    (m : Msg) : Call :=
  match m.payload with
  | .listResp files more =>
    if listing && more then .waiting conn id listing ch (parts ++ files)
    else .leaving conn id (.reply { m with payload := .listResp (parts ++ files) more })
  | _ => .leaving conn id (.reply m)

/-- The result of a receive: the first message, or `none` where the channel is closed and empty.  It
blocks on an open and empty one. -/
def Chan.next (c : Chan) : Option (Option Msg) :=
  match c.buffer with
  | m :: _ => some (some m)
  | [] => if c.closed then some none else none

/-- The next operation of a call. -/
def callStep (w : World) : Call → Move → Option (World × Call)
  | .found c id listing, .proceed =>
    (w.conns[c]?).map fun conn ↦ match conn.pending with
      | none => (w, .done (.error (connectionClosed conn.nodeID)))
      | some pending =>
        ({ w.register c conn pending id w.chans.length with chans := w.chans ++ [.make 1] },
          .sending c id listing w.chans.length)
  | .sending c id listing ch, .sent err =>
    (w.conns[c]?).map fun conn ↦ match err with
      | none => (w, .waiting c id listing ch [])
      | some err => (w, .leaving c id (.error (failedToSend conn.nodeID err)))
  | .waiting c id listing ch parts, .receive =>
    (w.conns[c]?).bind fun conn ↦ ((w.chans[ch]?).bind Chan.next).map fun
      | some m => (w.receive ch, received c id listing ch parts m)
      | none => (w, .leaving c id (.error (connectionClosed conn.nodeID ++ " while waiting")))
  | .waiting c id _ _ _, .timeout =>
    (w.conns[c]?).map fun conn ↦ (w, .leaving c id (.error (timeoutWaiting conn.nodeID id)))
  | .leaving c id answer, .proceed => some (w.forget c id, .done answer)
  -- `wait`; it may be called more than once.
  | .awaiting c id (some ch), .receive =>
    ((w.chans[ch]?).bind Chan.next).map fun
      | some _ => (w.receive ch, .awaiting c id (some ch))
      | none => (w, .awaiting c id (some ch))
  | .awaiting c id ch, .stop =>
    some (if ch.isSome ∧ w.pendingChan c id = ch then w.forget c id else w, .done .nothing)
  | .streaming c id, .proceed =>
    (w.conns[c]?).map fun conn ↦ match conn.pending with
      | none => (w, .done (.error (connectionClosed conn.nodeID)))
      | some pending =>
        let n := w.chans.length
        ({ w.register c conn pending id n with chans := w.chans ++ [.make 64, .make 1, .make 0] },
          .registered c id n (n + 1) (n + 2))
  | .registered c id ch out stop, .proceed =>
    some ({ w with flowStops := w.flowStops.insert id stop }, .opening c id ch out stop)
  | .opening c id ch out stop, .sent err =>
    (w.conns[c]?).map fun conn ↦ match err with
      | none => (w, .pumping c id ch out stop .start)
      | some err =>
        -- The entry is looked at and removed by its id; what is closed is the call's own channel.
        (if (w.pendingChan c id).isSome then (w.forget c id).close ch else w,
          .failing id (failedToSend conn.nodeID err))
  | .failing id text, .proceed => some (w.stopFlow id, .done (.error text))
  | .pumping c id ch out stop p, .receive =>
    match p.hand with
    | some _ => none
    | none => ((w.chans[ch]?).bind Chan.next).map fun
      | some m => (w.receive ch, .pumping c id ch out stop (p.receive m))
      | none => (w.close out, .done .nothing)
  | .pumping _ _ _ out stop _, .stopped =>
    (w.chans[stop]?).bind fun chan ↦ if chan.closed then some (w.close out, .done .nothing) else none
  | .pumping c id ch out stop p, .handOver =>
    p.hand.bind fun m ↦ (w.chans[out]?).bind fun chan ↦
      if chan.room || chan.closed then
        some (w.send out m, .pumping c id ch out stop (p.handOver m).1)
      else none
  | .cleanup node id, .proceed => some (w.stopFlow id, .looking node id)
  | .looking node id, .proceed =>
    some (w, match w.entry node with
      | some c => .cleaning c id
      | none => .done .nothing)
  | .cleaning c id, .proceed => some (w.forget c id, .done .nothing)
  | _, _ => none

/-- A step of Core. -/
inductive Label
  | registerProved (node : Nat) (authKey : Option (List UInt8))
  | unregister (c : ConnId)
  | routeResponse (c : ConnId) (m : Msg) (expired : Bool)
  | closeStreamingRequest (c : ConnId) (id : String)
  | sendRequest (node : Nat) (id : String) (listing : Bool)
  | awaitReply (c : ConnId) (id : String)
  | sendRequestStreaming (node : Nat) (id : String)
  | cleanupRequest (node : Nat) (id : String)
  /-- The reader of a streaming request takes a message from its channel. -/
  | take (n : Nat)
  | call (n : Nat) (a : Move)
deriving DecidableEq, Repr

namespace World

variable (w : World)

/-- A call is made. -/
def addCall (t : Call) : World := { w with calls := w.calls ++ [t] }

/-- `AwaitReply`. -/
def awaitReply (c : ConnId) (conn : Conn) (id : String) : World :=
  match conn.pending with
  | none => w.addCall (.awaiting c id none)
  | some pending =>
    { (w.register c conn pending id w.chans.length).addCall (.awaiting c id (some w.chans.length)) with
      chans := w.chans ++ [.make 1] }

/-- The steps of Core.  The callers draw the id of a streaming request afresh (`uuid.NewString`); a file
write uses one id for its request and for the reply that it awaits later. -/
def step : Label → Option World
  | .registerProved node authKey => some (w.registerProved node authKey)
  | .unregister c => (w.conns[c]?).map (w.unregister c)
  | .routeResponse c m expired => some (w.routeResponse c m expired)
  | .closeStreamingRequest c id => some (w.closeStreamingRequest c id)
  | .sendRequest node id listing =>
    if id ∈ w.streamed then none
    else some ({ w with plain := id :: w.plain }.addCall <|
      match w.entry node with
      | some c => .found c id listing
      | none => .done (.error (notConnected node)))
  | .awaitReply c id =>
    if id ∈ w.streamed then none
    else (w.conns[c]?).map fun conn ↦ { w with plain := id :: w.plain }.awaitReply c conn id
  | .sendRequestStreaming node id =>
    if id ∈ w.streamed ∨ id ∈ w.plain then none
    else some ({ w with streamed := id :: w.streamed }.addCall <|
      match w.entry node with
      | some c => .streaming c id
      | none => .done (.error (notConnected node)))
  | .cleanupRequest node id => some (w.addCall (.cleanup node id))
  | .take n =>
    match w.calls[n]? with
    | some (.pumping _ _ _ out _ _) => some (w.receive out)
    | _ => none
  | .call n a =>
    (w.calls[n]?).bind fun t ↦ (callStep w t a).map fun (w', t') ↦
      { w' with calls := w.calls.set n t' }

end World

end Dylaris.Registry
