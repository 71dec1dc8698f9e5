import Dylaris.Library.Table

/-!
# The rows behind an authorization decision

The tables `core/authz` reads and the member handlers write, as they are in the database, and the
store functions over them (`core/store/authz_grants.go`, `core/store/server_grants.go` and the invite
section of `core/store/postgres.go`).

* `DB` holds the tables and the constraints of the schema: the primary keys, that a server's node
  and owner and a grant's user exist, the two uniqueness rules of `server_invites`, and that ids are
  real ones (serial ids start at 1, a user id is a UUID and so never empty).  They are fields, so
  every write has to show that it keeps them.
* A read answers `Except StoreErr`: `noRows` is the store's `sql.ErrNoRows`, `fault` any other
  failure.  The tables themselves never fault; `AuthzStore` is the interface the resolver is written
  against.
* Nullable columns are options.
-/

set_option autoImplicit false

namespace Dylaris.Authz

open Table

/-- A grant/deny override set. -/
structure CapOverrides where
  grant : List String
  deny : List String
deriving DecidableEq, Repr

/-- A named bundle of PANEL capabilities. -/
structure PanelRole where
  id : Nat
  capabilities : List String
deriving DecidableEq, Repr

/-- An owner's reusable bundle of SERVER and OWNER capabilities. -/
structure ServerRole where
  id : Nat
  ownerUserID : String
  capabilities : List String
deriving DecidableEq, Repr

/-- The part of `users` that is read: the name, and the user's panel role and overrides. -/
structure UserRow where
  id : String
  username : String
  panelRoleID : Option Nat
  panelCapOverrides : CapOverrides
deriving DecidableEq, Repr

/-- The part of `nodes` that is read. -/
structure NodeRow where
  id : Nat
  ownerID : Option String
deriving DecidableEq, Repr

/-- The part of `servers` that is read. -/
structure ServerRow where
  id : Nat
  uuid : String
  nodeID : Nat
  ownerID : String
  proxyID : Option Nat
deriving DecidableEq, Repr

/-- A `server_invites` row: a grant on one server, or with no server an account-wide one. -/
structure InviteRow where
  serverID : Option Nat
  userID : String
  ownerUserID : Option String
  serverRoleID : Option Nat
  capOverrides : CapOverrides
  inherit : Bool
deriving DecidableEq, Repr

/-- `models.Server` as `GetServerByID` fills it: the row with its node's owner joined. -/
structure Server where
  id : Nat
  uuid : String
  nodeID : Nat
  nodeOwnerID : Option String
  nodeOwnerLoaded : Bool
  ownerID : String
  proxyID : Option Nat
deriving DecidableEq, Repr

/-- The grant the resolver works with.  `role` is the joined server role; `none` means "not
fetched". -/
structure ServerGrant where
  serverID : Option Nat
  userID : String
  ownerUserID : String
  serverRoleID : Option Nat
  capOverrides : CapOverrides
  inherit : Bool
  role : Option ServerRole
deriving DecidableEq, Repr

/-- Why a read gave no row. -/
inductive StoreErr
  | noRows | fault
deriving DecidableEq, Repr

/-- The answer of a store read. -/
abbrev Read (α : Type) := Except StoreErr α

/-- `sql.ErrNoRows` for an absent row. -/
def ofRow {α : Type} : Option α → Read α
  | some a => .ok a
  | none => .error .noRows

/-- Where a grant applies: on one server, or on everything an owner has. -/
inductive Place
  | server (id : Nat)
  | account (owner : String)
deriving DecidableEq, Repr

/-- The key of a grant.  The two unique indexes — `(server_id, user_id)`, and the partial one on
`(owner_user_id, user_id)` where `server_id IS NULL` — are disjoint, so they are one key. -/
def InviteRow.key (g : InviteRow) : Option (Place × String) :=
  match g.serverID with
  | some sid => some (.server sid, g.userID)
  | none => g.ownerUserID.map fun owner ↦ (.account owner, g.userID)

theorem InviteRow.key_eq_server {g : InviteRow} {sid : Nat} {u : String} :
    g.key = some (.server sid, u) ↔ g.serverID = some sid ∧ g.userID = u := by
  cases hs : g.serverID <;> simp [InviteRow.key, hs]

theorem InviteRow.key_eq_account {g : InviteRow} {owner u : String} :
    g.key = some (.account owner, u) ↔
      g.serverID = none ∧ g.ownerUserID = some owner ∧ g.userID = u := by
  cases hs : g.serverID <;> cases ho : g.ownerUserID <;> simp [InviteRow.key, hs, ho]

/-- The tables, with the constraints the schema puts on them. -/
structure DB where
  users : List UserRow
  nodes : List NodeRow
  servers : List ServerRow
  panelRoles : List PanelRole
  roles : List ServerRole
  invites : List InviteRow
  /-- The stored `permissions_mode` setting. -/
  permissionsMode : Option String
  user_id_ne : ∀ u ∈ users, u.id ≠ ""
  server_id_ne : ∀ s ∈ servers, s.id ≠ 0
  server_unique : Unique (fun s ↦ some s.id) servers
  server_node : ∀ s ∈ servers, ∃ n ∈ nodes, n.id = s.nodeID
  server_owner : ∀ s ∈ servers, ∃ u ∈ users, u.id = s.ownerID
  role_unique : Unique (fun r ↦ some r.id) roles
  invite_user : ∀ g ∈ invites, ∃ u ∈ users, u.id = g.userID
  invite_unique : Unique InviteRow.key invites

namespace DB

variable (db : DB)

/-! ## The reads -/

/-- `GetServerByID`: the row joined to its node and its owner; a row without either is not found. -/
def getServerByID (id : Nat) : Read Server :=
  match lookup (fun s ↦ some s.id) id db.servers with
  | none => .error .noRows
  | some s =>
    match db.nodes.find? (fun n ↦ n.id = s.nodeID), db.users.find? (fun u ↦ u.id = s.ownerID) with
    | some n, some _ => .ok ⟨s.id, s.uuid, s.nodeID, n.ownerID, true, s.ownerID, s.proxyID⟩
    | _, _ => .error .noRows

/-- `GetNodeByID`. -/
def getNodeByID (id : Nat) : Read NodeRow := ofRow (db.nodes.find? fun n ↦ n.id = id)

/-- `GetPanelRole`. -/
def getPanelRole (id : Nat) : Read PanelRole := ofRow (db.panelRoles.find? fun r ↦ r.id = id)

/-- `GetServerRole`. -/
def getServerRole (id : Nat) : Read ServerRole :=
  ofRow (lookup (fun r ↦ some r.id) id db.roles)

/-- `GetUserPanelAuthz`: the user's panel role id and overrides. -/
def getUserPanelAuthz (userID : String) : Read (Option Nat × CapOverrides) :=
  ofRow ((db.users.find? fun u ↦ u.id = userID).map fun u ↦ (u.panelRoleID, u.panelCapOverrides))

/-- `GetUserByUsername`: case-insensitive, the exact spelling first.  `lower` is the database's
`LOWER`; rows are kept in the order they were created. -/
def getUserByUsername (lower : String → String) (username : String) : Read UserRow :=
  let named := db.users.filter fun u ↦ lower u.username = lower username
  ofRow ((named.find? fun u ↦ u.username = username).or named.head?)

/-- `scanGrant`: the row without its role. -/
def scanGrant (g : InviteRow) : ServerGrant :=
  ⟨g.serverID, g.userID, g.ownerUserID.getD "", g.serverRoleID, g.capOverrides, g.inherit, none⟩

/-- `scanGrantsWithRole`: the row with its server role joined. -/
def scanGrantWithRole (g : InviteRow) : ServerGrant :=
  { scanGrant g with
    role := g.serverRoleID.bind fun id ↦ lookup (fun r ↦ some r.id) id db.roles }

/-- `GetServerGrant`. -/
def getServerGrant (serverID : Nat) (userID : String) : Read ServerGrant :=
  ofRow ((lookup InviteRow.key (.server serverID, userID) db.invites).map scanGrant)

/-- `GetAccountGrant`. -/
def getAccountGrant (ownerUserID userID : String) : Read ServerGrant :=
  ofRow ((lookup InviteRow.key (.account ownerUserID, userID) db.invites).map scanGrant)

/-- `GetServerAndAccountGrants`: one statement for both, sorted apart afterwards, the last row of
each kind winning. -/
def getServerAndAccountGrants (serverID : Nat) (ownerUserID userID : String) :
    Read (Option ServerGrant × Option ServerGrant) :=
  let grants := db.invites.filter fun g ↦
    g.userID = userID ∧
      (g.serverID = some serverID ∨ g.serverID = none ∧ g.ownerUserID = some ownerUserID)
  let last (p : InviteRow → Bool) := (grants.filter p).getLast?.map db.scanGrantWithRole
  .ok (last fun g ↦ g.serverID.isSome, last fun g ↦ g.serverID.isNone)

/-- `ListGrantsForUser`. -/
def listGrantsForUser (userID : String) : Read (List ServerGrant) :=
  .ok ((db.invites.filter fun g ↦ g.userID = userID).map db.scanGrantWithRole)

end DB

/-- The slice of the store the resolver needs (`authz.Store`), with the two optional interfaces
`grantPairStore` and `grantListStore` that a store may also have. -/
structure AuthzStore where
  getServerByID : Nat → Read Server
  getPanelRole : Nat → Read PanelRole
  getServerRole : Nat → Read ServerRole
  getUserPanelAuthz : String → Read (Option Nat × CapOverrides)
  getServerGrant : Nat → String → Read ServerGrant
  getAccountGrant : String → String → Read ServerGrant
  getServerAndAccountGrants :
    Option (Nat → String → String → Read (Option ServerGrant × Option ServerGrant))
  listGrantsForUser : Option (String → Read (List ServerGrant))

/-- The tables as a store.  `pair` and `list` say whether it offers the two optional interfaces;
`*store.PostgresStore` offers both. -/
def DB.authzStore (db : DB) (pair list : Bool) : AuthzStore where
  getServerByID := db.getServerByID
  getPanelRole := db.getPanelRole
  getServerRole := db.getServerRole
  getUserPanelAuthz := db.getUserPanelAuthz
  getServerGrant := db.getServerGrant
  getAccountGrant := db.getAccountGrant
  getServerAndAccountGrants := if pair then some db.getServerAndAccountGrants else none
  listGrantsForUser := if list then some db.listGrantsForUser else none

end Dylaris.Authz
