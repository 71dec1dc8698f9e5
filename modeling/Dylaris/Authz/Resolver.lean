import Dylaris.Authz.Catalog
import Dylaris.Authz.Store

/-!
# The resolver

`core/authz/resolver.go`, the single place an authorization decision is made.  `Resolver.resolve`
builds the decision context for one identity and one server (server id 0 means no server), and
`Resolution.hasCap` answers a single check from it.  `Resolver.resolveListed` does the same for every
server of a list, from one read of the caller's grants.

The server half of both is `resolveOnServer`, which is written against `GrantReads` — where the
grants come from is all that differs.  The panel role, which the source reads on first use, is a
value here, and a set (`map[string]bool`) is a list of its members.
-/

set_option autoImplicit false

namespace Dylaris.Authz

/-- The request principal. -/
structure Identity where
  userID : String
  username : String
  isAdmin : Bool
deriving DecidableEq, Repr

/-- The two optional hooks main installs on the resolver: whether a server is a public read-only
showcase, and whether a server runs on hardware that is somebody else's for a user. -/
structure Hooks where
  demoRead : Option (String → Bool)
  foreignNode : Option (Server → String → Bool)

/-- The resolver: its hooks and its store. -/
structure Resolver extends Hooks where
  store : AuthzStore

/-- The materialised decision context for one identity and scope. -/
structure Resolution where
  admin : Bool
  /-- Panel admin on a server on somebody else's node: every PANEL capability, server rights only by
  grant. -/
  adminPanel : Bool
  ownerSelf : Bool
  demoRead : Bool
  panelCaps : List String
  serverCaps : List String
  ownerCaps : List String
  server : Option Server
deriving DecidableEq, Repr

/-- A resolution that grants nothing. -/
def Resolution.empty : Resolution := ⟨false, false, false, false, [], [], [], none⟩

/-- SERVER read capabilities a public demo showcase must not grant although they are reads. -/
def demoReadDeny : List String :=
  ["network.read", "members.read", "files.read", "server.audit.read", "backups.read",
    "domains.read"]

/-- `HasCap`. -/
def Resolution.hasCap (res : Resolution) (capID : String) : Bool :=
  match get capID with
  | none => false
  | some c =>
    if res.admin then true
    else if res.adminPanel && c.scope == .panel then true
    else if res.demoRead && c.scope == .server && c.verb == .read && !demoReadDeny.contains capID
    then true
    else match c.scope with
      | .panel => res.panelCaps.contains capID
      | .server => res.ownerSelf || res.serverCaps.contains capID
      | .owner => res.ownerSelf || res.ownerCaps.contains capID

/-- `applyOverrides`: add every grant, then remove every deny. -/
def applyOverrides (caps : List String) (ov : CapOverrides) : List String :=
  (caps ++ ov.grant).filter fun c ↦ !ov.deny.contains c

/-- Fold capabilities into a resolution, each into the set its scope names.  A PANEL capability is
dropped. -/
def Resolution.addCaps (res : Resolution) (caps : List String) : Resolution :=
  { res with
    ownerCaps := res.ownerCaps ++ caps.filter fun c ↦ scopeOf c = some .owner
    serverCaps := res.serverCaps ++ caps.filter fun c ↦ scopeOf c = some .server }

/-- The resolution on a demo showcase carries the mark, any other one is left as it is. -/
def Hooks.markDemo (hooks : Hooks) (res : Resolution) (srv : Server) : Resolution :=
  match hooks.demoRead with
  | some demo => if demo srv.uuid then { res with demoRead := true } else res
  | none => res

/-- The reads the server half of a resolution makes. -/
structure GrantReads where
  /-- The caller's direct grant on a server and account-wide grant in an owner's realm. -/
  pair : Nat → String → Option ServerGrant × Option ServerGrant
  /-- The caller's direct grant on a proxy, for inheritance. -/
  direct : Nat → Option ServerGrant
  server : Nat → Option Server

namespace Resolver

variable (r : Resolver)

/-- `setPanelLoad`: the capabilities of the panel role, then the per-user overrides.  A failed read
leaves the set empty. -/
def panelLoad (userID : String) : List String :=
  match r.store.getUserPanelAuthz userID with
  | .error _ => []
  | .ok (roleID, overrides) =>
    let caps := match roleID with
      | none => []
      | some id => match r.store.getPanelRole id with
        | .ok role => role.capabilities
        | .error _ => []
    applyOverrides caps overrides

/-- `storeGrantReads`: the reads answered by the store, one statement for the pair where it can. -/
def storeGrantReads (userID : String) : GrantReads where
  pair serverID owner :=
    match r.store.getServerAndAccountGrants with
    | some getPair => match getPair serverID owner userID with
      | .ok p => p
      | .error _ => (none, none)
    | none => ((r.store.getServerGrant serverID userID).toOption,
        (r.store.getAccountGrant owner userID).toOption)
  direct serverID := (r.store.getServerGrant serverID userID).toOption
  server id := (r.store.getServerByID id).toOption

/-- What a role gives in `realmOwner`'s realm: its capabilities, if it belongs to that realm. -/
def realmCaps (realmOwner : String) : Option ServerRole → List String
  | none => []
  | some role =>
    if role.ownerUserID = "" ∨ role.ownerUserID = realmOwner then role.capabilities else []

/-- What a grant gives in `realmOwner`'s realm: what its role gives, with the overrides applied. -/
def grantCaps (g : ServerGrant) (realmOwner : String) : List String :=
  let role := g.serverRoleID.bind fun id ↦ g.role.or (r.store.getServerRole id).toOption
  applyOverrides (realmCaps realmOwner role) g.capOverrides

/-- `applyGrant`: fold what a grant gives into the resolution. -/
def applyGrant (res : Resolution) (g : ServerGrant) (realmOwner : String) : Resolution :=
  res.addCaps (r.grantCaps g realmOwner)

/-- `applyGrant` where there is a grant. -/
def applyGrant? (res : Resolution) (g : Option ServerGrant) (realmOwner : String) : Resolution :=
  match g with
  | some g => r.applyGrant res g realmOwner
  | none => res

/-- A grant belongs to the realm of the owner who gave it: it counts on a server of `owner` when it
names no owner or that one. -/
def ownedBy (owner : String) (g : ServerGrant) : Bool :=
  g.ownerUserID == "" || g.ownerUserID == owner

/-- The grant a server takes from the proxy in front of it: never across owners, and only one that is
marked to flow down. -/
def inheritedGrant (srv : Server) (reads : GrantReads) : Option ServerGrant :=
  match srv.proxyID with
  | none => none
  | some p => match reads.server p with
    | none => none
    | some psrv =>
      if psrv.ownerID = srv.ownerID then
        match reads.direct p with
        | none => none
        | some pg => if pg.inherit && ownedBy srv.ownerID pg then some pg else none
      else none

/-- `resolveOnServer`: demo read, the owner short-circuit, then the grants — the direct one, or
without one the one inherited from the proxy, and on top the account-wide one. -/
def resolveOnServer (res : Resolution) (id : Identity) (srv : Server) (reads : GrantReads) :
    Resolution :=
  let res := r.markDemo res srv
  if srv.ownerID = id.userID then { res with ownerSelf := true }
  else
    let (direct, acct) := reads.pair srv.id srv.ownerID
    -- A row left behind by an owner change is not this owner's grant.
    let direct := direct.filter (ownedBy srv.ownerID)
    let grant := direct.or (inheritedGrant srv reads)
    let res := r.applyGrant? res grant srv.ownerID
    r.applyGrant? res acct srv.ownerID

/-- The part of `Resolve` after the admin short-circuit. -/
def resolveUser (res : Resolution) (id : Identity) (serverID : Nat) : Resolution :=
  if id.userID = "" then res
  else
    let res := { res with panelCaps := r.panelLoad id.userID }
    if serverID = 0 then { res with ownerSelf := true }
    else
      match res.server.filter (fun srv ↦ srv.id == serverID) with
      | some srv => r.resolveOnServer res id srv (r.storeGrantReads id.userID)
      | none => match r.store.getServerByID serverID with
        | .error _ => res
        | .ok srv =>
          r.resolveOnServer { res with server := some srv } id srv (r.storeGrantReads id.userID)

/-- `Resolve`. -/
def resolve (id : Identity) (serverID : Nat) : Resolution :=
  if id.isAdmin then
    let res := { Resolution.empty with admin := true }
    if serverID = 0 then res
    else match r.foreignNode with
      | none => res
      | some foreign => match r.store.getServerByID serverID with
        -- A server that does not exist keeps the short-circuit; one that cannot be read does not.
        | .error .noRows => res
        | .error .fault => r.resolveUser { res with admin := false, adminPanel := true } id serverID
        | .ok srv =>
          let res := { res with server := some srv }
          if foreign srv id.userID then
            r.resolveUser { res with admin := false, adminPanel := true } id serverID
          else res
  else r.resolveUser Resolution.empty id serverID

/-- The loop that fills the result map of `ResolveListed`. -/
def collect (f : Server → Resolution) (servers : List Server) : Nat → Option Resolution :=
  servers.foldl (fun out srv ↦ Function.update out srv.id (some (f srv))) fun _ ↦ none

/-- The reads of `ResolveListed`: the caller's grants sorted into two maps, a proxy's row from the
list where it is on it. -/
def listedReads (userID : String) (grants : List ServerGrant) (servers : List Server) :
    GrantReads :=
  let direct := Table.index (fun g : ServerGrant ↦ g.serverID) grants
  let account := Table.index (fun g : ServerGrant ↦
    if g.serverID = none then some g.ownerUserID else none) grants
  let listed := Table.index (fun s : Server ↦ some s.id) servers
  { pair := fun serverID owner ↦ (direct serverID, account owner)
    direct := direct
    server := fun sid ↦ (listed sid).or ((r.storeGrantReads userID).server sid) }

/-- `ResolveListed`: the resolution of every server a list query returned, the caller's grants read
once for all of them.  A store that cannot list grants is asked one server at a time. -/
def resolveListed (id : Identity) (servers : List Server) : Nat → Option Resolution :=
  match r.store.listGrantsForUser with
  | none => collect (fun srv ↦ r.resolve id srv.id) servers
  | some list =>
    if id.isAdmin ∨ id.userID = "" then collect (fun srv ↦ r.resolve id srv.id) servers
    else match list id.userID with
      | .error _ => fun _ ↦ none
      | .ok grants =>
        collect (fun srv ↦ r.resolveOnServer
          { Resolution.empty with panelCaps := r.panelLoad id.userID, server := some srv }
          id srv (r.listedReads id.userID grants servers)) servers

end Resolver

/-- `CapSubset`: the delegation cap, the requested capabilities the resolution holds. -/
def capSubset (res : Resolution) (requested : List String) : List String :=
  requested.filter res.hasCap

end Dylaris.Authz
