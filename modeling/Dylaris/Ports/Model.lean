import Mathlib.Data.List.AList
import Dylaris.Library.Machine

/-!
# The port ledger of a node

`node/port_mgr.go` and `node/port_persist.go`: which host port each server has.  The node keeps it in
memory, by port, and in Redis twice, by server: one key for each server, which Core reads, and one hash,
which the node reads back after a restart.

A Go map is an association list without duplicate keys, Mathlib's `AList`.  A loop over a map follows the
order of the list, and the step `shuffle` gives the lists any other order, so that nothing rests on it.
Every Redis command succeeds, so a port is stored as a number and `retryForget` has nothing to do.
-/

set_option autoImplicit false

namespace Dylaris.Ports

/-- A `map[K]V`. -/
abbrev GoMap (κ α : Type) := AList fun _ : κ ↦ α

/-- What the node is configured with. -/
structure Config where
  rangeStart : Int
  rangeEnd : Int
  getenv : String → String

namespace Config

variable (cfg : Config)

/-- The node's own listeners, with their default ports. -/
def listeners : List (String × String) :=
  [("SFTP_PORT", "25520"), ("BEAM_GRPC_PORT", "25521"), ("MIGRATION_PORT", "25522"),
    ("BEAM_LAN_PORT", "25523")]

/-- `hostPortProblem`. -/
def hostPortProblem (port : Int) : String :=
  if port < 1024 ∨ 65535 < port then "host port " ++ toString port ++ " is outside 1024-65535"
  else
    match listeners.find? fun l ↦
      toString port = if cfg.getenv l.1 = "" then l.2 else cfg.getenv l.1 with
    | some l => "host port " ++ toString port ++ " is the node's own " ++ l.1
    | none => ""

/-- The ports of the range, in order. -/
def candidates : List Int :=
  (List.range (cfg.rangeEnd - cfg.rangeStart + 1).toNat).map fun i ↦ cfg.rangeStart + i

end Config

/-- The ledger in memory, `usedPorts`, with the keys of the servers and the hash in Redis. -/
structure PortManager where
  used : GoMap Int String
  keys : GoMap String Int
  hash : GoMap String Int

/-- A node that has no server, with an empty Redis. -/
def PortManager.start : PortManager := ⟨∅, ∅, ∅⟩

namespace PortManager

variable (s : PortManager)

/-- `persist`. -/
def persist (serverUUID : String) (port : Int) : PortManager :=
  { s with keys := s.keys.insert serverUUID port, hash := s.hash.insert serverUUID port }

/-- `forget`. -/
def forget (serverUUID : String) : PortManager :=
  { s with keys := s.keys.erase serverUUID, hash := s.hash.erase serverUUID }

/-- The first port of a server that a loop over `usedPorts` comes to. -/
def portOf (serverUUID : String) : Option Int :=
  (s.used.entries.find? fun e ↦ e.2 = serverUUID).map Sigma.fst

/-- `GetPort`. -/
def getPort (serverUUID : String) : Int := (s.portOf serverUUID).getD 0

/-- `AllocatePort`, with the candidates in the order in which it tries them. -/
def allocatePort (cfg : Config) (candidates : List Int) (serverUUID : String) :
    Except String Int × PortManager :=
  match s.portOf serverUUID with
  | some port => (.ok port, s)
  | none =>
    match candidates.find? fun port ↦ cfg.hostPortProblem port = "" ∧ s.used.lookup port = none with
    | some port =>
      (.ok port, { s.persist serverUUID port with used := s.used.insert port serverUUID })
    | none => (.error ("port range " ++ toString cfg.rangeStart ++ "-" ++ toString cfg.rangeEnd ++
        " exhausted"), s)

/-- `ReleasePort`. -/
def releasePort (serverUUID : String) : PortManager :=
  match s.portOf serverUUID with
  | some port => { s.forget serverUUID with used := s.used.erase port }
  | none => s

/-- `usedPorts` without a server's old allocation. -/
def dropOld (serverUUID : String) (port : Int) : GoMap Int String :=
  match s.used.entries.find? fun e ↦ e.2 = serverUUID ∧ e.1 ≠ port with
  | some e => s.used.erase e.1
  | none => s.used

/-- `SetPort`. -/
def setPort (serverUUID : String) (port : Int) : Except String Unit × PortManager :=
  match (s.used.lookup port).filter (· ≠ serverUUID) with
  | some existingUUID => (.error ("port " ++ toString port ++ " is already allocated to server " ++
      existingUUID), s)
  | none => (.ok (), { s.persist serverUUID port with
      used := (s.dropOld serverUUID port).insert port serverUUID })

/-- One turn of `AdoptExistingBindings`. -/
def adopt (binding : (_ : String) × Int) : PortManager :=
  if binding.2 ≤ 0 then s
  else if s.getPort binding.1 = binding.2 then s
  else (s.setPort binding.1 binding.2).2

/-- `AdoptExistingBindings`. -/
def adoptExistingBindings (bindings : List ((_ : String) × Int)) : PortManager := bindings.foldl adopt s

/-- What `bindings[uuid]` gives: 0 for a server that has none. -/
def bound (bindings : GoMap String Int) (serverUUID : String) : Int :=
  (bindings.lookup serverUUID).getD 0

/-- One turn of the first loop of `AdoptContainerBindings`. -/
def giveWay (bindings : GoMap String Int) (binding : (_ : String) × Int) : PortManager :=
  match s.used.lookup binding.2 with
  | none => s
  | some owner =>
    if owner = binding.1 ∨ bound bindings owner = binding.2 then s
    else if bound bindings owner = 0 then
      PortManager.forget { s with used := s.used.erase binding.2 } owner
    else { s with used := s.used.erase binding.2 }

/-- `AdoptContainerBindings`; its two loops may go through the map in two orders. -/
def adoptContainerBindings (bindings again : GoMap String Int) : PortManager :=
  (bindings.entries.foldl (fun s ↦ s.giveWay bindings) s).adoptExistingBindings again.entries

/-- `usedPorts` as a map of servers to ports gives it: of two servers with one port, the later one. -/
def load (allocations : GoMap String Int) : GoMap Int String :=
  allocations.entries.foldl (fun used e ↦ used.insert e.2 e.1) ∅

/-- `NewPortManager`: the keys of the servers are read where they can be listed (`rebuildFromScan`), and
else the hash. -/
def restart (canScan : Bool) : PortManager :=
  if canScan then { s with
    used := load s.keys
    hash := s.keys.entries.foldl (fun hash e ↦ hash.insert e.1 e.2) ∅ }
  else { s with used := load s.hash }

/-- What `releaseGonePorts` finds on the host: the containers, if they could be listed, whether every
storage path could be read, and the servers that have a directory. -/
structure Host where
  containers : Option (List String)
  readable : Bool
  dirs : List String

/-- `releaseGonePorts`. -/
def releaseGonePorts (host : Host) : PortManager :=
  match host.containers with
  | none => s
  | some containers =>
    if host.readable then
      (s.used.entries.map Sigma.snd).foldl (fun s uuid ↦
        if containers.contains uuid || host.dirs.contains uuid then s else s.releasePort uuid) s
    else s

/-- `restorePortLedger`, with the ports that the saved configurations hold. -/
def restorePortLedger (saved : List ((_ : String) × Int)) (bindings : GoMap String Int) (host : Host) :
    PortManager :=
  (s.adoptExistingBindings (saved.filter fun e ↦ ¬0 < bound bindings e.1)).releaseGonePorts host

end PortManager

/-! ## The operations -/

inductive Label
  | allocatePort (serverUUID : String) (candidates : List Int)
  | setPort (serverUUID : String) (port : Int)
  | releasePort (serverUUID : String)
  | adoptContainerBindings (bindings again : GoMap String Int)
  | adoptExistingBindings (bindings : List ((_ : String) × Int))
  | restart (canScan : Bool)
  | restorePortLedger (saved : List ((_ : String) × Int)) (bindings : GoMap String Int)
      (host : PortManager.Host)
  | shuffle (s : PortManager)

/-- The candidates come in any order (`rand.Shuffle`), and so do the entries of a map. -/
def PortManager.step (cfg : Config) (s : PortManager) : Label → Option PortManager
  | .allocatePort serverUUID candidates =>
    if candidates.isPerm cfg.candidates then some (s.allocatePort cfg candidates serverUUID).2 else none
  | .setPort serverUUID port => some (s.setPort serverUUID port).2
  | .releasePort serverUUID => some (s.releasePort serverUUID)
  | .adoptContainerBindings bindings again =>
    if again.entries.isPerm bindings.entries then some (s.adoptContainerBindings bindings again) else none
  | .adoptExistingBindings bindings => some (s.adoptExistingBindings bindings)
  | .restart canScan => some (s.restart canScan)
  | .restorePortLedger saved bindings host => some (s.restorePortLedger saved bindings host)
  | .shuffle s' =>
    if s'.used.entries.isPerm s.used.entries && s'.keys.entries.isPerm s.keys.entries &&
      s'.hash.entries.isPerm s.hash.entries then some s' else none

end Dylaris.Ports
