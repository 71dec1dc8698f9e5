import Dylaris.Authz.Effective

/-!
# The writes to the grant table

The five store functions the member handlers call: `UpsertServerGrant` and `DeleteServerGrant`
(`core/store/server_grants.go`), and `CreateInvite`, `UpdateInvitePermissions` and `DeleteInvite`
(`core/store/postgres.go`), with the mapping of the older permission booleans to capabilities.

Every one of them touches the row under one key and nothing else.  `Writes db db' k row` says so: the
other tables are the same, and a grant is read from `db'` as from `db`, except that under `k` there is
now `row`.  What that does to a user's capabilities is worked out once, at the end, for any write.
-/

set_option autoImplicit false

namespace Dylaris.Authz

open Option Table

/-! ## The older permission map -/

/-- The permission map of the older member routes. -/
abbrev Perms := List (String × Bool)

/-- The key is in the map and true. -/
def Perms.on (p : Perms) (key : String) : Bool := p.lookup key == some true

/-- `models.TabPermissions`, the fields an invite can set. -/
structure TabPermissions where
  console : Bool
  files : Bool
  config : Bool
  setup : Bool
  overview : Bool
  power : Bool
  players : Bool
  members : Bool
  network : Bool
  backups : Bool
  inherit : Bool
deriving DecidableEq, Repr

/-- The map read into the struct, as `json.Unmarshal` of its own encoding does. -/
def Perms.tabs (p : Perms) : TabPermissions where
  console := p.on "console"
  files := p.on "files"
  config := p.on "config"
  setup := p.on "setup"
  overview := p.on "overview"
  power := p.on "power"
  players := p.on "players"
  members := p.on "members"
  network := p.on "network"
  backups := p.on "backups"
  inherit := p.on "inherit"

/-- `MapLegacyInviteCaps`. -/
def mapLegacyInviteCaps (p : TabPermissions) : List String :=
  (if p.console then ["console.read", "console.send"] else []) ++
  (if p.files then ["files.read", "files.write", "files.delete"] else []) ++
  (if p.config then ["config.read", "config.write", "mods.read", "mods.write", "mods.delete"]
    else []) ++
  (if p.power then ["power.start", "power.stop", "power.restart", "power.kill", "rcon.exec",
    "players.read", "players.manage"] else []) ++
  (if p.network then ["network.read", "network.write"] else []) ++
  (if p.overview then ["overview.read"] else []) ++
  (if p.members then ["members.read", "members.write", "members.delete"] else []) ++
  (if p.setup then ["server.settings.write"] else []) ++
  (if p.players then ["players.read", "players.manage"] else []) ++
  (if p.backups then ["backups.read", "backups.create", "backups.delete", "backups.restore"]
    else [])

/-! ## The store functions -/

namespace DB

/-- The tables with other grant rows. -/
def setInvites (db : DB) (rows : List InviteRow) (huser : ∀ g ∈ rows, ∃ u ∈ db.users, u.id = g.userID)
    (hunique : Unique InviteRow.key rows) : DB :=
  { db with invites := rows, invite_user := huser, invite_unique := hunique }

/-- Where a grant with this server id and owner applies. -/
def placeOf (serverID : Option Nat) (ownerUserID : String) : Place :=
  match serverID with
  | some sid => .server sid
  | none => .account ownerUserID

theorem key_placeOf (serverID : Option Nat) (userID owner : String) (roleID : Option Nat)
    (ov : CapOverrides) (inherit : Bool) :
    InviteRow.key ⟨serverID, userID, some owner, roleID, ov, inherit⟩
      = some (placeOf serverID owner, userID) := by
  cases serverID <;> rfl

theorem mem_update {k : Place × String} {set : InviteRow → InviteRow} {rows : List InviteRow}
    {g : InviteRow} (h : g ∈ update InviteRow.key k set rows) :
    ∃ r ∈ rows, g = r ∨ g = set r := by
  obtain ⟨r, hr, rfl⟩ := List.mem_map.mp h
  refine ⟨r, hr, ?_⟩
  split
  · exact .inr rfl
  · exact .inl rfl

/-- `UpsertServerGrant`.  A conflict replaces every column the key does not fix; a user that is not
there violates the foreign key. -/
def upsertServerGrant (db : DB) (serverID : Option Nat) (userID ownerUserID : String)
    (serverRoleID : Option Nat) (overrides : CapOverrides) (inherit : Bool) : Except StoreErr DB :=
  let new : InviteRow := ⟨serverID, userID, some ownerUserID, serverRoleID, overrides, inherit⟩
  if huser : ∃ u ∈ db.users, u.id = userID then
    .ok (db.setInvites
      (upsert InviteRow.key (placeOf serverID ownerUserID, userID) (fun _ ↦ new) new db.invites)
      (by
        intro g hg
        rw [upsert] at hg
        split at hg
        · obtain ⟨r, hr, rfl | rfl⟩ := mem_update hg
          · exact db.invite_user _ hr
          · exact huser
        · rcases List.mem_append.mp hg with hg | hg
          · exact db.invite_user g hg
          · rw [List.mem_singleton.mp hg]
            exact huser)
      (db.invite_unique.upsert (fun _ _ ↦ key_placeOf ..) (key_placeOf ..)))
  else .error .fault

/-- A delete of the row under a key. -/
def deleteGrantAt (db : DB) (k : Place × String) : DB :=
  db.setInvites (delete InviteRow.key k db.invites)
    (fun g hg ↦ db.invite_user g (List.mem_filter.mp hg).1) (db.invite_unique.delete k)

/-- `DeleteServerGrant`. -/
def deleteServerGrant (db : DB) (serverID : Option Nat) (ownerUserID userID : String) :
    Except StoreErr DB :=
  let k := (placeOf serverID ownerUserID, userID)
  match lookup InviteRow.key k db.invites with
  | none => .error .noRows
  | some _ => .ok (db.deleteGrantAt k)

/-- `DeleteInvite`. -/
def deleteInvite (db : DB) (serverID : Nat) (userID : String) : DB :=
  db.deleteGrantAt (.server serverID, userID)

/-- `CreateInvite`: a plain insert, which fails on a row that is already there. -/
def createInvite (db : DB) (serverID : Nat) (userID : String) (permissions : Perms) :
    Except StoreErr DB :=
  let tp := permissions.tabs
  let new : InviteRow := ⟨some serverID, userID, db.ownerOf serverID, none,
    ⟨mapLegacyInviteCaps tp, []⟩, tp.inherit⟩
  if h : lookup InviteRow.key (.server serverID, userID) db.invites = none ∧
      ∃ u ∈ db.users, u.id = userID then
    .ok (db.setInvites (db.invites ++ [new])
      (by
        intro g hg
        rcases List.mem_append.mp hg with hg | hg
        · exact db.invite_user g hg
        · rw [List.mem_singleton.mp hg]
          exact h.2)
      (db.invite_unique.insert rfl h.1))
  else .error .fault

/-- What `UpdateInvitePermissions` makes of a row: the grants are replaced, the denies and the server
role stay, and the row is taken into the realm of the server's owner. -/
def setPermissions (db : DB) (permissions : Perms) (serverID : Nat) (g : InviteRow) : InviteRow :=
  { g with
    capOverrides := ⟨mapLegacyInviteCaps permissions.tabs, g.capOverrides.deny⟩
    inherit := permissions.tabs.inherit
    ownerUserID := db.ownerOf serverID }

theorem key_setPermissions (db : DB) (permissions : Perms) {serverID : Nat} {userID : String}
    (g : InviteRow) (hg : g.key = some (.server serverID, userID)) :
    (db.setPermissions permissions serverID g).key = some (.server serverID, userID) := by
  obtain ⟨hserver, huser⟩ := InviteRow.key_eq_server.mp hg
  exact InviteRow.key_eq_server.mpr ⟨hserver, huser⟩

/-- `UpdateInvitePermissions`. -/
def updateInvitePermissions (db : DB) (serverID : Nat) (userID : String) (permissions : Perms) : DB :=
  db.setInvites
    (update InviteRow.key (.server serverID, userID) (db.setPermissions permissions serverID)
      db.invites)
    (by
      intro g hg
      obtain ⟨r, hr, rfl | rfl⟩ := mem_update hg
      · exact db.invite_user _ hr
      · exact db.invite_user r hr)
    (db.invite_unique.update (db.key_setPermissions permissions))

end DB

/-! ## What a write changes -/

/-- `db'` is `db` with `row` under the key `k` of the grant table. -/
structure Writes (db db' : DB) (k : Place × String) (row : Option InviteRow) : Prop where
  users : db'.users = db.users
  nodes : db'.nodes = db.nodes
  servers : db'.servers = db.servers
  roles : db'.roles = db.roles
  lookup : ∀ j, lookup InviteRow.key j db'.invites
    = if j = k then row else lookup InviteRow.key j db.invites

variable {db db' : DB} {userID : String}

theorem DB.upsertServerGrant_writes {serverID : Option Nat} {owner : String}
    {roleID : Option Nat} {ov : CapOverrides} {inherit : Bool}
    (h : db.upsertServerGrant serverID userID owner roleID ov inherit = .ok db') :
    Writes db db' (DB.placeOf serverID owner, userID)
      (some ⟨serverID, userID, some owner, roleID, ov, inherit⟩) := by
  simp only [DB.upsertServerGrant] at h
  split at h
  · cases h
    refine ⟨rfl, rfl, rfl, rfl, fun j ↦ ?_⟩
    refine (lookup_upsert (fun _ _ ↦ DB.key_placeOf ..) (DB.key_placeOf ..) j _).trans ?_
    cases lookup InviteRow.key (DB.placeOf serverID owner, userID) db.invites <;> rfl
  · cases h

theorem DB.deleteGrantAt_writes (db : DB) (k : Place × String) :
    Writes db (db.deleteGrantAt k) k none :=
  ⟨rfl, rfl, rfl, rfl, fun j ↦ lookup_delete k j db.invites⟩

theorem DB.deleteServerGrant_writes {serverID : Option Nat} {owner : String}
    (h : db.deleteServerGrant serverID owner userID = .ok db') :
    Writes db db' (DB.placeOf serverID owner, userID) none := by
  simp only [DB.deleteServerGrant] at h
  split at h
  · cases h
  · cases h
    exact db.deleteGrantAt_writes _

theorem DB.createInvite_writes {serverID : Nat} {perms : Perms}
    (h : db.createInvite serverID userID perms = .ok db') :
    db.direct serverID userID = none ∧ Writes db db' (.server serverID, userID)
      (some ⟨some serverID, userID, db.ownerOf serverID, none,
        ⟨mapLegacyInviteCaps perms.tabs, []⟩, perms.tabs.inherit⟩) := by
  simp only [DB.createInvite] at h
  split at h
  · rename_i hfree
    cases h
    exact ⟨hfree.1, rfl, rfl, rfl, rfl,
      lookup_insert (InviteRow.key_eq_server.mpr ⟨rfl, rfl⟩) hfree.1⟩
  · cases h

theorem DB.updateInvitePermissions_writes (db : DB) (serverID : Nat) (userID : String)
    (perms : Perms) :
    Writes db (db.updateInvitePermissions serverID userID perms) (.server serverID, userID)
      ((db.direct serverID userID).map (db.setPermissions perms serverID)) :=
  ⟨rfl, rfl, rfl, rfl, fun j ↦
    lookup_update (db.key_setPermissions perms) j db.invites⟩

/-! ## What a write does to a user's capabilities -/

namespace Writes

section

variable {db db' : DB} {k : Place × String} {row : Option InviteRow} (h : Writes db db' k row)

include h

theorem getServerByID (sid : Nat) : db'.getServerByID sid = db.getServerByID sid := by
  simp only [DB.getServerByID, h.servers, h.nodes, h.users]

theorem ownerOf (sid : Nat) : db'.ownerOf sid = db.ownerOf sid := by
  rw [DB.ownerOf, DB.ownerOf, h.servers]

theorem optCaps (owner : String) (o : Option InviteRow) :
    db'.optCaps owner o = db.optCaps owner o := by
  cases o with
  | none => rfl
  | some g => simp only [DB.optCaps, elim_some, DB.rowCaps, DB.roleCaps, h.roles]

theorem direct (sid : Nat) (u : String) :
    db'.direct sid u = if (.server sid, u) = k then row else db.direct sid u :=
  h.lookup (.server sid, u)

theorem account (owner u : String) :
    db'.account owner u = if (.account owner, u) = k then row else db.account owner u :=
  h.lookup (.account owner, u)

theorem inherited_eq {s : Server} {u : String} (hp : ∀ p, s.proxyID = some p → (.server p, u) ≠ k) :
    db'.inherited s u = db.inherited s u := by
  rw [DB.inherited, DB.inherited]
  cases hproxy : s.proxyID with
  | none => rfl
  | some p =>
    rw [bind_some, bind_some, h.ownerOf, h.direct, if_neg (hp p hproxy)]

/-- A write that touches neither the user's row on the server, nor the one on its proxy, nor the
account-wide one of its owner changes nothing there. -/
theorem grantedCaps_eq {s : Server} {u : String} (hs : (.server s.id, u) ≠ k)
    (hp : ∀ p, s.proxyID = some p → (.server p, u) ≠ k) (ha : (.account s.ownerID, u) ≠ k) :
    db'.grantedCaps s u = db.grantedCaps s u := by
  simp only [DB.grantedCaps, DB.onServer, h.direct, if_neg hs, h.inherited_eq hp, h.account,
    if_neg ha, h.optCaps]

end

/-- A write of somebody else's row. -/
theorem grantedCaps_of_ne {db db' : DB} {place : Place} {u v : String} {row : Option InviteRow}
    (h : Writes db db' (place, u) row) (hv : v ≠ u) (s : Server) :
    db'.grantedCaps s v = db.grantedCaps s v := by
  refine h.grantedCaps_eq ?_ (fun p _ ↦ ?_) ?_ <;> exact fun heq ↦ hv (Prod.mk.inj heq).2

/-- An account-wide write reaches only the servers of its owner. -/
theorem grantedCaps_of_account {db db' : DB} {owner u : String} {row : Option InviteRow}
    (h : Writes db db' (.account owner, u) row) {s : Server} (hs : s.ownerID ≠ owner) (v : String) :
    db'.grantedCaps s v = db.grantedCaps s v := by
  refine h.grantedCaps_eq (by simp) (by simp) fun heq ↦ hs ?_
  simpa using (Prod.mk.inj heq).1

section

variable {db db' : DB} {sid : Nat} {u : String} {row : Option InviteRow}
  (h : Writes db db' (.server sid, u) row)

include h

theorem account_of_server (owner v : String) : db'.account owner v = db.account owner v := by
  rw [h.account, if_neg (by simp)]

/-- A row that does not flow down is inherited by nobody. -/
theorem inherited_of_not_inherit (hrow : ∀ r ∈ row, r.inherit = false) (s : Server) :
    db'.inherited s u = if s.proxyID = some sid then none else db.inherited s u := by
  by_cases hp : s.proxyID = some sid
  · rw [if_pos hp, DB.inherited, hp, bind_some, h.direct, if_pos rfl]
    split
    · cases row with
      | none => rfl
      | some r => simp [filter_some, hrow r rfl]
    · rfl
  · rw [if_neg hp]
    refine h.inherited_eq fun p hproxy heq ↦ hp ?_
    rw [hproxy, Place.server.inj (Prod.mk.inj heq).1]

variable {s : Server}

/-- The server itself, when the row written is of its owner's realm: the row and the account-wide
one, and nothing inherited. -/
theorem grantedCaps_self {r : InviteRow} (hrow : row = some r) (hs : s.id = sid)
    (hr : r.InRealm s.ownerID) : db'.grantedCaps s u
      = db.rowCaps s.ownerID r ++ db.optCaps s.ownerID (db.account s.ownerID u) := by
  simp only [DB.grantedCaps, DB.onServer, h.direct, hs, if_true, hrow, filter_some, hr,
    decide_true, some_or, h.account_of_server, h.optCaps]
  rfl

/-- The server itself, when the row is deleted: what it inherits takes over. -/
theorem grantedCaps_delete (hrow : row = none) (hs : s.id = sid) : db'.grantedCaps s u
    = db.optCaps s.ownerID (if s.proxyID = some sid then none else db.inherited s u) ++
      db.optCaps s.ownerID (db.account s.ownerID u) := by
  have hinh := h.inherited_of_not_inherit (by simp [hrow]) s
  simp [DB.grantedCaps, DB.onServer, h.direct, hs, hrow, hinh, h.account_of_server, h.optCaps]

/-- Any other server: if the row does not flow down, what was inherited through it is gone. -/
theorem grantedCaps_behind (hrow : ∀ r ∈ row, r.inherit = false) (hs : s.id ≠ sid) :
    db'.grantedCaps s u = db.optCaps s.ownerID
      (((db.direct s.id u).filter fun g ↦ g.InRealm s.ownerID).or
        (if s.proxyID = some sid then none else db.inherited s u)) ++
      db.optCaps s.ownerID (db.account s.ownerID u) := by
  have hne : (.server s.id, u) ≠ ((.server sid, u) : Place × String) := by simpa using hs
  simp only [DB.grantedCaps, DB.onServer, h.direct, if_neg hne, h.inherited_of_not_inherit hrow s,
    h.account_of_server, h.optCaps]

end

end Writes

end Dylaris.Authz
