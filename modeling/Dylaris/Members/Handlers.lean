import Mathlib.Data.List.Sort
import Dylaris.Members.Writes

/-!
# The member handlers

`AssignGrant` and `RevokeGrant` (`core/handlers/servers/server_grants.go`), `InviteMember`,
`UpdateMemberPermissions` and `RemoveMember` (`core/handlers/servers/members.go`), behind the
capability their routes require.  A handler answers with an error or with the tables it leaves behind;
`perform` is one request, from the route to the write.

A request body is `none` when it does not decode.  The audit rows, the events and the beam stamps a
handler publishes after its write are left out, and so is the answer of a handler whose store is not
connected.
-/

set_option autoImplicit false

namespace Dylaris.Members

open Authz

/-! ## Answers -/

/-- An error answer. -/
structure HttpError where
  status : Nat
  message : String
deriving DecidableEq, Repr

/-- What a handler answers. -/
abbrev Answer (α : Type) := Except HttpError α

/-- Answer with an error if `c` holds. -/
def refuse (c : Prop) [Decidable c] (status : Nat) (message : String) : Answer Unit :=
  if c then .error ⟨status, message⟩ else .ok ()

/-- The value, or an error answer where there is none. -/
def orFail {α : Type} (o : Option α) (status : Nat) (message : String) : Answer α :=
  match o with
  | some a => .ok a
  | none => .error ⟨status, message⟩

theorem bind_eq_ok {α β : Type} {x : Answer α} {f : α → Answer β} {b : β} :
    (x >>= f) = .ok b ↔ ∃ a, x = .ok a ∧ f a = .ok b := by
  cases x with
  | error e =>
    constructor
    · intro h
      cases h
    · rintro ⟨a, h, -⟩
      cases h
  | ok a =>
    constructor
    · exact fun h ↦ ⟨a, rfl, h⟩
    · rintro ⟨a', h, hf⟩
      cases h
      exact hf

@[simp] theorem refuse_eq_ok {c : Prop} [Decidable c] {status : Nat} {message : String} {u : Unit} :
    refuse c status message = .ok u ↔ ¬ c := by
  rw [refuse]
  split <;> simp_all

@[simp] theorem orFail_eq_ok {α : Type} {o : Option α} {status : Nat} {message : String} {a : α} :
    orFail o status message = .ok a ↔ o = some a := by
  cases o <;> simp [orFail]

@[simp] theorem toOption_eq_some {ε α : Type} {x : Except ε α} {a : α} :
    x.toOption = some a ↔ x = .ok a := by
  cases x <;> simp [Except.toOption]

/-! ## The environment of a handler -/

/-- What the handlers use beside the tables. -/
structure Env where
  hooks : Hooks
  /-- Whether the store offers the pair read and the list read. -/
  pair : Bool
  list : Bool
  /-- `FeatureFlags.BYONOwnershipInForce`; `none` when no flags are wired. -/
  flags : Option Bool
  /-- The database's `LOWER`. -/
  lower : String → String
  /-- What `uuid.Parse` accepts. -/
  validUUID : String → Bool

namespace Env

variable (env : Env) (db : DB)

/-- The resolver of the handlers. -/
def resolve (idn : Identity) (serverID : Nat) : Resolution :=
  (db.resolver env.hooks env.pair env.list).resolve idn serverID

/-- `PermissionsMode`: unset or unknown means simple. -/
def permissionsMode : String :=
  match db.permissionsMode with
  | none => "simple"
  | some m => if m = "off" ∨ m = "simple" ∨ m = "advanced" then m else "simple"

/-- `UserOwnedByOther`. -/
def userOwnedByOther (ownerID : Option String) (userID : String) : Bool :=
  match ownerID with
  | none => false
  | some o => if o = "" ∨ userID ≠ "" ∧ o = userID then false else env.flags.getD true

/-- `NodeOwnedByOther`: a node that cannot be read counts as foreign. -/
def nodeOwnedByOther (nodeID : Nat) (userID : String) : Bool :=
  match db.getNodeByID nodeID with
  | .error _ => true
  | .ok node => env.userOwnedByOther node.ownerID userID

/-- An admin on the platform's own machine. -/
def adminHere (idn : Identity) (srv : Server) : Bool :=
  idn.isAdmin && !env.nodeOwnedByOther db srv.nodeID idn.userID

/-- `RequireCap`: a SERVER capability is checked on the server in the path, any other one without a
server. -/
def requireCap (capID : String) (idn : Identity) (pathServer : Nat) : Answer Unit :=
  match get capID with
  | none => .error ⟨500, "unknown capability"⟩
  | some c => do
    refuse (idn.isAdmin = false ∧ idn.userID = "") 401 "Unauthorized"
    refuse (c.scope = .server ∧ pathServer = 0) 403 "Forbidden"
    let serverID := if c.scope = .server then pathServer else 0
    refuse ((env.resolve db idn serverID).hasCap capID = false) 403 "Forbidden"

/-- `refuseDelegationWhenOff`. -/
def refuseDelegationWhenOff (idn : Identity) : Answer Unit :=
  refuse (idn.isAdmin = false ∧ permissionsMode db = "off") 403 "Delegation is disabled"

end Env

/-! ## Grants -/

/-- The body of `POST /api/grants`.  Without a server id the grant is account-wide. -/
structure AssignGrantRequest where
  username : String
  serverID : Option Nat
  serverRoleID : Option Nat
  grantCaps : List String
  denyCaps : List String
  inherit : Bool
deriving DecidableEq, Repr

/-- The body of `DELETE /api/grants`. -/
structure RevokeGrantRequest where
  username : String
  serverID : Option Nat
deriving DecidableEq, Repr

/-- `dedupeCaps`: duplicates removed, order preserved. -/
def dedupeCaps (caps : List String) : List String :=
  caps.foldl (fun out c ↦ if c ∈ out then out else out ++ [c]) []

/-- `validateServerOwnerCaps`: the complaint about the first capability that is not a SERVER or OWNER
one. -/
def validateServerOwnerCaps : List String → Option String
  | [] => none
  | id :: rest => match get id with
    | none => some ("unknown capability: " ++ id)
    | some c =>
      if c.scope ≠ .server ∧ c.scope ≠ .owner then some ("not a server/owner capability: " ++ id)
      else validateServerOwnerCaps rest

/-- Answer 400 with the complaint, if there is one. -/
def refuseInvalid : Option String → Answer Unit
  | none => .ok ()
  | some message => .error ⟨400, message⟩

/-- `RevokeUncoversInheritance`: removing the direct grant would let a wider one flow down from the
proxy. -/
def revokeUncoversInheritance (db : DB) (srv : Server) (targetID : String) : Bool :=
  match srv.proxyID with
  | none => false
  | some p => match db.getServerByID p with
    | .error _ => false
    | .ok proxy =>
      if proxy.ownerID ≠ srv.ownerID then false
      else match db.getServerGrant proxy.id targetID with
        | .error _ => false
        | .ok g => g.inherit && (g.ownerUserID == "" || g.ownerUserID == srv.ownerID)

namespace Env

variable (env : Env) (db : DB)

/-- The server of a grant request, which must not belong to the target. -/
def grantServer (serverID : Option Nat) (targetID : String) : Answer (Option Server) :=
  match serverID with
  | none => .ok none
  | some sid => do
    let srv ← orFail (db.getServerByID sid).toOption 404 "Server not found"
    refuse (targetID = srv.ownerID) 400 "Cannot assign a grant to the server owner"
    return some srv

/-- The capabilities of the role of a grant request, which must belong to the realm's owner. -/
def grantRoleCaps (roleID : Option Nat) (ownerUserID : String) : Answer (List String) :=
  match roleID with
  | none => .ok []
  | some id => do
    let role ← orFail ((db.getServerRole id).toOption.filter fun r ↦ r.ownerUserID = ownerUserID)
      404 "Server role not found in this realm"
    return role.capabilities

/-- The owner, or an admin on the platform's own machine. -/
def ownsOrRuns (idn : Identity) (srv : Server) : Prop :=
  srv.ownerID = idn.userID ∨ env.adminHere db idn srv

instance (idn : Identity) (srv : Server) : Decidable (env.ownsOrRuns db idn srv) :=
  inferInstanceAs (Decidable (_ ∨ _))

/-- The checks on a grant by somebody who is neither the owner nor an admin on the platform's own
machine. -/
def checkDelegator (res : Resolution) (req : AssignGrantRequest) (roleCaps : List String)
    (hadGrant : Bool) : Answer Unit := do
  refuse (res.hasCap "members.write" = false) 403 "Forbidden"
  let requested := dedupeCaps (roleCaps ++ req.grantCaps)
  refuse ((capSubset res requested).length ≠ requested.length) 403
    "Cannot grant capabilities you do not hold"
  refuse (req.inherit = true) 403 "Only the owner can let a grant flow down to child servers"
  refuse (hadGrant = true ∧ res.hasCap "members.delete" = false) 403
    "Changing an existing member's access needs the right to remove members"

/-- The delegation cap.  An account-wide grant is always in the acting user's own realm. -/
def checkGrant (idn : Identity) (req : AssignGrantRequest) (targetID : String) (srv : Option Server)
    (roleCaps : List String) : Answer Unit :=
  match srv with
  | none => .ok ()
  | some s =>
    if env.ownsOrRuns db idn s then .ok ()
    else checkDelegator (env.resolve db idn s.id) req roleCaps
      (db.getServerGrant s.id targetID).toOption.isSome

/-- `AssignGrant`. -/
def assignGrant (idn : Identity) (body : Option AssignGrantRequest) : Answer DB := do
  let req ← orFail body 400 "Invalid JSON"
  refuse (req.username = "") 400 "Username required"
  refuseInvalid (validateServerOwnerCaps req.grantCaps)
  refuseInvalid (validateServerOwnerCaps req.denyCaps)
  refuse (idn.userID = "") 403 "Forbidden"
  refuseDelegationWhenOff db idn
  let target ← orFail (db.getUserByUsername env.lower req.username).toOption 404 "User not found"
  refuse (target.id = idn.userID) 400 "Cannot assign a grant to yourself"
  let srv ← grantServer db req.serverID target.id
  let ownerUserID := srv.elim idn.userID (·.ownerID)
  let roleCaps ← grantRoleCaps db req.serverRoleID ownerUserID
  env.checkGrant db idn req target.id srv roleCaps
  orFail (db.upsertServerGrant req.serverID target.id ownerUserID req.serverRoleID
    ⟨req.grantCaps, req.denyCaps⟩ req.inherit).toOption 500 "Failed to assign grant"

/-- The checks on a revocation by somebody who is neither the owner nor an admin on the platform's own
machine. -/
def checkRevoker (idn : Identity) (srv : Server) (targetID : String) : Answer Unit :=
  if env.ownsOrRuns db idn srv then .ok ()
  else do
    refuse ((env.resolve db idn srv.id).hasCap "members.delete" = false) 403 "Forbidden"
    refuse (revokeUncoversInheritance db srv targetID = true) 403
      "Removing this grant would give them the wider access they inherit from the proxy; only the owner can do that"

/-- The owner of the realm a revocation is in. -/
def revokeRealm (idn : Identity) (serverID : Option Nat) (targetID : String) : Answer String :=
  match serverID with
  | none => .ok idn.userID
  | some sid => do
    let srv ← orFail (db.getServerByID sid).toOption 404 "Server not found"
    env.checkRevoker db idn srv targetID
    return srv.ownerID

/-- The answer of a revocation to the outcome of its delete. -/
def answerRevoked : Except StoreErr DB → Answer DB
  | .error .noRows => .error ⟨404, "Grant not found"⟩
  | .error .fault => .error ⟨500, "Failed to revoke grant"⟩
  | .ok db => .ok db

/-- `RevokeGrant`. -/
def revokeGrant (idn : Identity) (body : Option RevokeGrantRequest) : Answer DB := do
  let req ← orFail body 400 "Invalid JSON"
  refuse (req.username = "") 400 "Username required"
  refuse (idn.userID = "") 403 "Forbidden"
  let target ← orFail (db.getUserByUsername env.lower req.username).toOption 404 "User not found"
  let ownerUserID ← env.revokeRealm db idn req.serverID target.id
  answerRevoked (db.deleteServerGrant req.serverID ownerUserID target.id)

end Env

/-! ## Members -/

/-- The vocabulary of the older routes. -/
def invitePermissionKeys : List String :=
  ["overview", "console", "files", "config", "setup", "power", "players", "members", "network",
    "backups", "inherit"]

/-- `unknownPermissionKeys`. -/
def unknownPermissionKeys (perms : Perms) : List String :=
  ((perms.map Prod.fst).filter fun k ↦ k ∉ invitePermissionKeys).insertionSort (· ≤ ·)

/-- `refuseBadPermissionMap`: no map, or a key outside the vocabulary. -/
def refuseBadPermissionMap : Option Perms → Answer Perms
  | none => .error ⟨400, "permissions is required and says what this member may do: " ++
      ", ".intercalate invitePermissionKeys ++
      ". Send \x7b\x7d for no permissions beyond seeing the server."⟩
  | some perms =>
    let bad := unknownPermissionKeys perms
    if bad ≠ [] then
      .error ⟨400, "Unknown permission(s): " ++ ", ".intercalate bad ++ ". Valid keys are " ++
        ", ".intercalate invitePermissionKeys⟩
    else .ok perms

/-- The permissions with one key of the vocabulary set. -/
def onlyTab (key : String) : Option TabPermissions :=
  let off : TabPermissions :=
    ⟨false, false, false, false, false, false, false, false, false, false, false⟩
  match key with
  | "console" => some { off with console := true }
  | "files" => some { off with files := true }
  | "config" => some { off with config := true }
  | "setup" => some { off with setup := true }
  | "power" => some { off with power := true }
  | "members" => some { off with members := true }
  | "overview" => some { off with overview := true }
  | "network" => some { off with network := true }
  | "players" => some { off with players := true }
  | "backups" => some { off with backups := true }
  | _ => none

/-- `callerMayDelegate`: the caller holds everything the key confers.  Letting a grant flow down is
the owner's call; a key that is not known confers nothing. -/
def callerMayDelegate (res : Resolution) (key : String) : Bool :=
  if key = "inherit" then false
  else match onlyTab key with
    | none => true
    | some tp => (mapLegacyInviteCaps tp).all res.hasCap

/-- `denyAllPermissions`. -/
def denyAllPermissions (perms : Perms) : Perms := perms.map fun kv ↦ (kv.1, false)

/-- The body of `POST /api/servers/{id}/members`. -/
structure InviteRequest where
  username : String
  permissions : Option Perms
deriving DecidableEq, Repr

namespace Env

variable (env : Env) (db : DB)

/-- `mayReplaceMemberAccess`. -/
def mayReplaceMemberAccess (idn : Identity) (serverID : Nat) : Bool :=
  match db.getServerByID serverID with
  | .error _ => false
  | .ok srv =>
    if env.ownsOrRuns db idn srv then true else (env.resolve db idn serverID).hasCap "members.delete"

/-- `capPermissions`: the owner and an admin are uncapped, everyone else may hand on only what they
hold. -/
def capPermissions (idn : Identity) (serverID : Nat) (perms : Perms) : Perms :=
  match db.getServerByID serverID with
  | .error _ => denyAllPermissions perms
  | .ok srv =>
    if env.ownsOrRuns db idn srv then perms
    else perms.map fun kv ↦ (kv.1, kv.2 && callerMayDelegate (env.resolve db idn serverID) kv.1)

/-- `InviteMember`. -/
def inviteMember (idn : Identity) (serverID : Nat) (body : Option InviteRequest) : Answer DB := do
  let req ← orFail body 400 ("Invalid JSON: this endpoint takes only username and permissions (" ++
    ", ".intercalate invitePermissionKeys ++ ")")
  refuse (req.username = "") 400 "Username required"
  let perms ← refuseBadPermissionMap req.permissions
  refuseDelegationWhenOff db idn
  let srv ← orFail (db.getServerByID serverID).toOption 404 "Server not found"
  let target ← orFail (db.getUserByUsername env.lower req.username).toOption 404 "User not found"
  refuse (target.id = srv.ownerID) 400 "Cannot invite the server owner"
  refuse (target.id = idn.userID) 400 "Cannot invite yourself"
  orFail (db.createInvite serverID target.id (env.capPermissions db idn serverID perms)).toOption 409
    "Failed to create invite (user may already be invited)"

/-- `UpdateMemberPermissions`. -/
def updateMemberPermissions (idn : Identity) (serverID : Nat) (targetID : String)
    (body : Option (Option Perms)) : Answer DB := do
  refuse (env.validUUID targetID = false) 400 "Invalid user ID"
  let req ← orFail body 400 ("Invalid JSON: this endpoint takes only permissions (" ++
    ", ".intercalate invitePermissionKeys ++ ")")
  let perms ← refuseBadPermissionMap req
  refuse (idn.userID = targetID) 403 "You cannot change your own access"
  refuseDelegationWhenOff db idn
  refuse (env.mayReplaceMemberAccess db idn serverID = false) 403
    "Changing an existing member's access needs the right to remove members"
  return db.updateInvitePermissions serverID targetID (env.capPermissions db idn serverID perms)

/-- `RemoveMember`. -/
def removeMember (idn : Identity) (serverID : Nat) (targetID : String) : Answer DB := do
  refuse (env.validUUID targetID = false) 400 "Invalid user ID"
  let srv ← orFail (db.getServerByID serverID).toOption 404 "Server not found"
  refuse (¬ env.ownsOrRuns db idn srv ∧ revokeUncoversInheritance db srv targetID = true) 403
    "Removing this member would give them the wider access they inherit from the proxy; only the owner can do that"
  return db.deleteInvite serverID targetID

end Env

/-! ## Requests -/

/-- A request to one of the five routes. -/
inductive Call
  | assignGrant (body : Option AssignGrantRequest)
  | revokeGrant (body : Option RevokeGrantRequest)
  | inviteMember (serverID : Nat) (body : Option InviteRequest)
  | updateMemberPermissions (serverID : Nat) (targetID : String) (body : Option (Option Perms))
  | removeMember (serverID : Nat) (targetID : String)
deriving DecidableEq, Repr

namespace Env

variable (env : Env) (db : DB)

/-- One request: the capability its route requires, then its handler. -/
def perform (idn : Identity) : Call → Answer DB
  | .assignGrant body => do
    env.requireCap db "roles.write" idn 0
    env.assignGrant db idn body
  | .revokeGrant body => do
    env.requireCap db "roles.delete" idn 0
    env.revokeGrant db idn body
  | .inviteMember serverID body => do
    env.requireCap db "members.write" idn serverID
    env.inviteMember db idn serverID body
  | .updateMemberPermissions serverID targetID body => do
    env.requireCap db "members.write" idn serverID
    env.updateMemberPermissions db idn serverID targetID body
  | .removeMember serverID targetID => do
    env.requireCap db "members.delete" idn serverID
    env.removeMember db idn serverID targetID

end Env

/-- The server a request is about; an account-wide one names none. -/
def Call.serverID : Call → Option Nat
  | .assignGrant body => body.bind (·.serverID)
  | .revokeGrant body => body.bind (·.serverID)
  | .inviteMember sid _ => some sid
  | .updateMemberPermissions sid _ _ => some sid
  | .removeMember sid _ => some sid

/-- The member a request is about. -/
def Env.affected (env : Env) (db : DB) : Call → Option String
  | .assignGrant body => body.bind fun req ↦
      (db.getUserByUsername env.lower req.username).toOption.map (·.id)
  | .revokeGrant body => body.bind fun req ↦
      (db.getUserByUsername env.lower req.username).toOption.map (·.id)
  | .inviteMember _ body => body.bind fun req ↦
      (db.getUserByUsername env.lower req.username).toOption.map (·.id)
  | .updateMemberPermissions _ targetID _ => some targetID
  | .removeMember _ targetID => some targetID

end Dylaris.Members
