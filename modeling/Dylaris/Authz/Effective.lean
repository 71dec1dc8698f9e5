import Dylaris.Authz.Resolver

/-!
# What an identity holds on a server

The resolver computes; this file says what it computes.  On a server of `owner`, a user's grants are

* the direct row, if it belongs to `owner`'s realm, and otherwise the row inherited from a proxy of
  the same owner that is marked to flow down (`DB.onServer`: a direct row *shadows* the inherited
  one, it does not add to it), and
* the account-wide row in `owner`'s realm (`DB.account`), which always adds.

`DB.grantedCaps` collects what they give, and `Holds` is the whole answer for a SERVER or OWNER
capability: admin, or a demo showcase, or owner, or granted.  `hasCap_resolve` connects it to the
code: over the tables, `HasCap` on `Resolve` is `Holds`.

The connection goes through `ReadsTables`, the specification of the reads `resolveOnServer` makes, which
both ways of reading the grants meet.
-/

set_option autoImplicit false

namespace Dylaris.Authz

open List Option Table

/-- The resolver over the tables, with or without the two optional store interfaces. -/
def DB.resolver (db : DB) (hooks : Hooks) (pair list : Bool) : Resolver :=
  { hooks with store := db.authzStore pair list }

/-! ## The abstract answer -/

/-- The row belongs to `owner`'s realm: it names no owner, or that one. -/
def InviteRow.InRealm (owner : String) (g : InviteRow) : Prop :=
  g.ownerUserID.getD "" = "" ∨ g.ownerUserID.getD "" = owner

instance (owner : String) : DecidablePred (InviteRow.InRealm owner) :=
  fun _ ↦ inferInstanceAs (Decidable (_ ∨ _))

namespace DB

variable (db : DB)

/-- The user's own row on a server. -/
def direct (sid : Nat) (u : String) : Option InviteRow :=
  lookup InviteRow.key (.server sid, u) db.invites

/-- The user's account-wide row in an owner's realm. -/
def account (owner u : String) : Option InviteRow :=
  lookup InviteRow.key (.account owner, u) db.invites

/-- The capabilities a role gives in `owner`'s realm. -/
def roleCaps (owner : String) (roleID : Option Nat) : List String :=
  Resolver.realmCaps owner (roleID.bind fun id ↦ lookup (fun r ↦ some r.id) id db.roles)

/-- What a row gives in `owner`'s realm. -/
def rowCaps (owner : String) (g : InviteRow) : List String :=
  applyOverrides (db.roleCaps owner g.serverRoleID) g.capOverrides

/-- What an optional row gives. -/
def optCaps (owner : String) (g : Option InviteRow) : List String := g.elim [] (db.rowCaps owner)

/-- The owner of a server. -/
def ownerOf (sid : Nat) : Option String :=
  (lookup (fun s ↦ some s.id) sid db.servers).map (·.ownerID)

/-- The row a server takes from the proxy in front of it. -/
def inherited (s : Server) (u : String) : Option InviteRow :=
  s.proxyID.bind fun p ↦
    if db.ownerOf p = some s.ownerID then
      (db.direct p u).filter fun g ↦ g.inherit ∧ g.InRealm s.ownerID
    else none

/-- The row that decides on a server: the direct one shadows the inherited one. -/
def onServer (s : Server) (u : String) : Option InviteRow :=
  ((db.direct s.id u).filter fun g ↦ g.InRealm s.ownerID).or (db.inherited s u)

/-- Everything the user's rows give on a server. -/
def grantedCaps (s : Server) (u : String) : List String :=
  db.optCaps s.ownerID (db.onServer s u) ++ db.optCaps s.ownerID (db.account s.ownerID u)

end DB

/-- A read a public showcase discloses. -/
def demoCap (capID : String) : Bool :=
  match get capID with
  | some c => c.scope == .server && c.verb == .read && !demoReadDeny.contains capID
  | none => false

namespace Hooks

variable (hooks : Hooks)

/-- The server is a showcase and the capability is a read it discloses. -/
def demo (s : Server) (capID : String) : Bool :=
  match hooks.demoRead with
  | some demo => demo s.uuid && demoCap capID
  | none => false

/-- The identity is a panel admin and the server is not on hardware that is somebody else's. -/
def adminOn (id : Identity) (s : Server) : Bool :=
  id.isAdmin && match hooks.foreignNode with
    | some foreign => !foreign s id.userID
    | none => true

end Hooks

/-- The identity holds a SERVER or OWNER capability on the server. -/
def Holds (hooks : Hooks) (db : DB) (id : Identity) (s : Server) (capID : String) : Prop :=
  hooks.adminOn id s ∨ id.userID ≠ "" ∧
    (hooks.demo s capID ∨ s.ownerID = id.userID ∨ capID ∈ db.grantedCaps s id.userID)

instance (hooks : Hooks) (db : DB) (id : Identity) (s : Server) (capID : String) :
    Decidable (Holds hooks db id s capID) :=
  inferInstanceAs (Decidable (_ ∨ _ ∧ _))

/-! ## Rows of the tables -/

/-- A server's node and owner exist, so the join drops no row. -/
theorem DB.getServerByID_eq (db : DB) (sid : Nat) : ∃ nodeOwner : ServerRow → Option String,
    db.getServerByID sid = ofRow ((lookup (fun s ↦ some s.id) sid db.servers).map fun s ↦
      ⟨s.id, s.uuid, s.nodeID, nodeOwner s, true, s.ownerID, s.proxyID⟩) := by
  refine ⟨fun s ↦ (db.nodes.find? fun n ↦ n.id = s.nodeID).bind (·.ownerID), ?_⟩
  rw [DB.getServerByID]
  cases hrow : lookup (fun s ↦ some s.id) sid db.servers with
  | none => rfl
  | some s =>
    have hmem := (mem_of_lookup hrow).1
    obtain ⟨n, hn⟩ : ∃ n, (db.nodes.find? fun n ↦ n.id = s.nodeID) = some n := by
      obtain ⟨n, hn, hid⟩ := db.server_node s hmem
      exact isSome_iff_exists.mp (find?_isSome.mpr ⟨n, hn, by simpa using hid⟩)
    obtain ⟨u, hu⟩ : ∃ u, (db.users.find? fun u ↦ u.id = s.ownerID) = some u := by
      obtain ⟨u, hu, hid⟩ := db.server_owner s hmem
      exact isSome_iff_exists.mp (find?_isSome.mpr ⟨u, hu, by simpa using hid⟩)
    simp [hn, hu, ofRow]

variable {sid : Nat} {s : Server}

variable {db : DB}

section

variable (h : db.getServerByID sid = .ok s)

include h

theorem DB.getServerByID_ok :
    ∃ row ∈ db.servers, row.id = sid ∧ s.id = sid ∧ s.uuid = row.uuid ∧ s.ownerID = row.ownerID ∧
      s.proxyID = row.proxyID := by
  obtain ⟨nodeOwner, hread⟩ := db.getServerByID_eq sid
  rw [hread] at h
  cases hrow : lookup (fun s ↦ some s.id) sid db.servers with
  | none => simp [hrow, ofRow] at h
  | some row =>
    obtain ⟨hmem, hid⟩ := mem_of_lookup hrow
    simp only [hrow, map_some, ofRow, Except.ok.injEq] at h
    subst h
    exact ⟨row, hmem, Option.some.inj hid, Option.some.inj hid, rfl, rfl, rfl⟩

theorem DB.id_ne_of_getServerByID : sid ≠ 0 := by
  obtain ⟨row, hmem, hid, -⟩ := DB.getServerByID_ok h
  exact hid ▸ db.server_id_ne row hmem

theorem DB.ownerID_ne_of_getServerByID : s.ownerID ≠ "" := by
  obtain ⟨row, hmem, -, -, -, howner, -⟩ := DB.getServerByID_ok h
  obtain ⟨u, hu, huid⟩ := db.server_owner row hmem
  rw [howner, ← huid]
  exact db.user_id_ne u hu

end

theorem DB.ownerOf_eq (db : DB) (sid : Nat) :
    db.ownerOf sid = (db.getServerByID sid).toOption.map (·.ownerID) := by
  obtain ⟨nodeOwner, hread⟩ := db.getServerByID_eq sid
  rw [hread, DB.ownerOf]
  cases lookup (fun s : ServerRow ↦ some s.id) sid db.servers <;> rfl

@[simp] theorem toOption_ofRow {α : Type} (o : Option α) : (ofRow o).toOption = o := by
  cases o <;> rfl

variable {capID : String}

theorem DB.mem_rowCaps {owner : String} {g : InviteRow} : capID ∈ db.rowCaps owner g ↔
      (capID ∈ db.roleCaps owner g.serverRoleID ∨ capID ∈ g.capOverrides.grant) ∧
        capID ∉ g.capOverrides.deny := by
  simp [DB.rowCaps, applyOverrides, or_and_right]

variable {u : String}

theorem DB.mem_grantedCaps :
    capID ∈ db.grantedCaps s u ↔ capID ∈ db.optCaps s.ownerID (db.onServer s u) ∨
      capID ∈ db.optCaps s.ownerID (db.account s.ownerID u) := by
  simp [DB.grantedCaps]

/-- The user of a grant exists. -/
theorem DB.user_ne_of_direct {g : InviteRow} (h : db.direct sid u = some g) : u ≠ "" := by
  obtain ⟨hmem, hkey⟩ := mem_of_lookup h
  obtain ⟨usr, husr, hid⟩ := db.invite_user g hmem
  rw [← (InviteRow.key_eq_server.mp hkey).2, ← hid]
  exact db.user_id_ne usr husr

/-! ## The reads of a resolution -/

/-- A scan of a row that the resolver cannot tell from another: with or without its role joined. -/
def Scan (db : DB) (f : InviteRow → ServerGrant) : Prop :=
  f = DB.scanGrant ∨ f = db.scanGrantWithRole

variable {f : InviteRow → ServerGrant}

theorem Scan.grantCaps (hf : Scan db f) (hooks : Hooks)
    (pair list : Bool) (g : InviteRow) (owner : String) :
    (db.resolver hooks pair list).grantCaps (f g) owner = db.rowCaps owner g := by
  have hrole : ∀ id, ((db.resolver hooks pair list).store.getServerRole id).toOption
      = lookup (fun r ↦ some r.id) id db.roles := fun id ↦ toOption_ofRow _
  -- A role that is joined is the row the second read would find, so asking again changes nothing.
  rcases hf with rfl | rfl
  · simp [Resolver.grantCaps, DB.rowCaps, DB.roleCaps, DB.scanGrant, hrole]
  · cases hr : g.serverRoleID with
    | none => simp [Resolver.grantCaps, DB.rowCaps, DB.roleCaps, DB.scanGrant,
        DB.scanGrantWithRole, hr]
    | some id => simp [Resolver.grantCaps, DB.rowCaps, DB.roleCaps, DB.scanGrant,
        DB.scanGrantWithRole, hr, hrole]

theorem Scan.ownedBy (hf : Scan db f) (owner : String)
    (g : InviteRow) : Resolver.ownedBy owner (f g) = decide (g.InRealm owner) := by
  rw [Bool.eq_iff_iff, decide_eq_true_iff, Resolver.ownedBy, Bool.or_eq_true, beq_iff_eq, beq_iff_eq]
  rcases hf with rfl | rfl <;> exact Iff.rfl

theorem Scan.inherit (hf : Scan db f) (g : InviteRow) : (f g).inherit = g.inherit := by
  rcases hf with rfl | rfl <;> rfl

/-- The reads answer from the tables, for user `u`. -/
structure ReadsTables (db : DB) (u : String) (reads : GrantReads) : Prop where
  pair : ∀ sid owner, owner ≠ "" → ∃ f, Scan db f ∧
    reads.pair sid owner = ((db.direct sid u).map f, (db.account owner u).map f)
  direct : ∀ sid, ∃ f, Scan db f ∧ reads.direct sid = (db.direct sid u).map f
  server : ∀ sid, reads.server sid = (db.getServerByID sid).toOption

/-- The last row of `GetServerAndAccountGrants` of each kind is the only one. -/
theorem DB.getServerAndAccountGrants_eq (db : DB) (sid : Nat) (owner u : String) :
    db.getServerAndAccountGrants sid owner u = .ok ((db.direct sid u).map db.scanGrantWithRole,
      (db.account owner u).map db.scanGrantWithRole) := by
  simp only [DB.getServerAndAccountGrants, List.filter_filter]
  congr 3
  · refine getLast?_filter_eq_lookup db.invite_unique fun g ↦ ?_
    rw [InviteRow.key_eq_server]
    cases hs : g.serverID <;> simp [and_comm]
  · refine getLast?_filter_eq_lookup db.invite_unique fun g ↦ ?_
    rw [InviteRow.key_eq_account]
    cases hs : g.serverID <;> simp [and_comm]

/-- The store's own reads answer from the tables, in one statement or in two. -/
theorem storeGrantReads_readsTables (db : DB) (hooks : Hooks) (pair list : Bool) (u : String) :
    ReadsTables db u ((db.resolver hooks pair list).storeGrantReads u) where
  pair sid owner _ := by
    cases pair with
    | true =>
      refine ⟨db.scanGrantWithRole, .inr rfl, ?_⟩
      simp [Resolver.storeGrantReads, DB.resolver, DB.authzStore, db.getServerAndAccountGrants_eq]
    | false =>
      refine ⟨DB.scanGrant, .inl rfl, ?_⟩
      simp [Resolver.storeGrantReads, DB.resolver, DB.authzStore, DB.getServerGrant,
        DB.getAccountGrant, DB.direct, DB.account]
  direct sid := ⟨DB.scanGrant, .inl rfl, by
    simp [Resolver.storeGrantReads, DB.resolver, DB.authzStore, DB.getServerGrant, DB.direct]⟩
  server _ := rfl

/-! ## What the server half of a resolution answers -/

@[simp] theorem Resolution.addCaps_nil (res : Resolution) : res.addCaps [] = res := by
  simp [addCaps]

/-- `resolveOnServer` read off the rows of the tables. -/
def DB.resolveRows (db : DB) (hooks : Hooks) (res : Resolution) (id : Identity) (s : Server) :
    Resolution :=
  let res := hooks.markDemo res s
  if s.ownerID = id.userID then { res with ownerSelf := true }
  else (res.addCaps (db.optCaps s.ownerID (db.onServer s id.userID))).addCaps
    (db.optCaps s.ownerID (db.account s.ownerID id.userID))

theorem Scan.applyGrant? (hf : Scan db f) (hooks : Hooks)
    (pair list : Bool) (res : Resolution) (o : Option InviteRow) (owner : String) :
    (db.resolver hooks pair list).applyGrant? res (o.map f) owner
      = res.addCaps (db.optCaps owner o) := by
  cases o with
  | none => simp [Resolver.applyGrant?, DB.optCaps]
  | some g =>
    simp only [map_some, Resolver.applyGrant?, Resolver.applyGrant, hf.grantCaps]
    rfl

theorem Scan.filter_ownedBy (hf : Scan db f)
    (o : Option InviteRow) (owner : String) : (o.map f).filter (Resolver.ownedBy owner)
      = (o.filter fun g ↦ g.InRealm owner).map f := by
  cases o with
  | none => rfl
  | some g => by_cases hg : g.InRealm owner <;> simp [filter_some, hf.ownedBy, hg]

/-- The inherited grant is the inherited row, scanned. -/
theorem ReadsTables.inheritedGrant {reads : GrantReads} (h : ReadsTables db u reads) (s : Server) :
    ∃ f, Scan db f ∧ Resolver.inheritedGrant s reads = (db.inherited s u).map f := by
  cases hp : s.proxyID with
  | none => exact ⟨_, .inl rfl, by simp [Resolver.inheritedGrant, DB.inherited, hp]⟩
  | some p =>
    obtain ⟨f, hf, hdir⟩ := h.direct p
    refine ⟨f, hf, ?_⟩
    rw [Resolver.inheritedGrant, DB.inherited, hp, bind_some]
    simp only [h.server p, hdir, db.ownerOf_eq]
    cases db.getServerByID p with
    | error e => rfl
    | ok ps =>
      simp only [Except.toOption, map_some, some_inj]
      split
      · cases db.direct p u with
        | none => rfl
        | some g =>
          by_cases hi : g.inherit = true <;> by_cases hg : g.InRealm s.ownerID <;>
            simp [filter_some, hf.ownedBy, hf.inherit, hi, hg]
      · rfl

variable {id : Identity}

/-- Reads that answer from the tables give what the rows give. -/
theorem ReadsTables.resolveOnServer {reads : GrantReads}
    (h : ReadsTables db id.userID reads) (hooks : Hooks) (pair list : Bool) (res : Resolution)
    (hs : s.ownerID ≠ "") : (db.resolver hooks pair list).resolveOnServer res id s reads
      = db.resolveRows hooks res id s := by
  obtain ⟨f, hf, hpair⟩ := h.pair s.id s.ownerID hs
  obtain ⟨f', hf', hinh⟩ := h.inheritedGrant s
  have hone : ∀ res : Resolution, (db.resolver hooks pair list).applyGrant? res
      ((((db.direct s.id id.userID).map f).filter (Resolver.ownedBy s.ownerID)).or
        (Resolver.inheritedGrant s reads)) s.ownerID
        = res.addCaps (db.optCaps s.ownerID (db.onServer s id.userID)) := by
    intro res
    rw [hf.filter_ownedBy, hinh, DB.onServer]
    cases (db.direct s.id id.userID).filter fun g ↦ g.InRealm s.ownerID with
    | none => exact hf'.applyGrant? hooks pair list res _ _
    | some g => exact hf.applyGrant? hooks pair list res (some g) _
  rw [Resolver.resolveOnServer, DB.resolveRows]
  split
  · rfl
  · simp only [hpair, hone, hf.applyGrant?]
    rfl

/-- The capability is in the set its scope names. -/
def Resolution.InCaps (res : Resolution) (capID : String) : Prop :=
  scopeOf capID = some .server ∧ capID ∈ res.serverCaps ∨
    scopeOf capID = some .owner ∧ capID ∈ res.ownerCaps

variable {res : Resolution}

theorem Resolution.inCaps_addCaps {caps : List String}
    (hcap : Delegable capID) : (res.addCaps caps).InCaps capID ↔ res.InCaps capID ∨ capID ∈ caps := by
  rcases hcap with h | h <;> simp [addCaps, InCaps, h]

theorem hasCap_of_delegable (hcap : Delegable capID)
    (hadmin : res.admin = false) : res.hasCap capID = true ↔
      res.demoRead = true ∧ demoCap capID = true ∨ res.ownerSelf = true ∨ res.InCaps capID := by
  obtain ⟨c, hc⟩ : ∃ c, get capID = some c := by
    cases hget : get capID with
    | none => rcases hcap with h | h <;> simp [scopeOf, hget] at h
    | some c => exact ⟨c, rfl⟩
  have hscope : c.scope = .server ∨ c.scope = .owner := by
    rcases hcap with h | h
    · exact .inl (by simpa [scopeOf, hc] using h)
    · exact .inr (by simpa [scopeOf, hc] using h)
  rw [Resolution.hasCap, hc]
  rcases hscope with h | h
  · by_cases hd : res.demoRead = true <;> by_cases hv : c.verb = .read <;>
      by_cases hm : capID ∈ demoReadDeny <;>
      simp [hadmin, h, hd, hv, hm, demoCap, hc, Resolution.InCaps, scopeOf]
  · simp [hadmin, h, demoCap, hc, Resolution.InCaps, scopeOf]

/-- A resolution in which nothing has been decided about a server yet. -/
structure Resolution.Undecided (res : Resolution) : Prop where
  admin : res.admin = false
  ownerSelf : res.ownerSelf = false
  demoRead : res.demoRead = false
  serverCaps : res.serverCaps = []
  ownerCaps : res.ownerCaps = []

theorem Resolution.Undecided.setPanel (h : res.Undecided) (caps : List String)
    (server : Option Server) : { res with panelCaps := caps, server := server }.Undecided :=
  ⟨h.admin, h.ownerSelf, h.demoRead, h.serverCaps, h.ownerCaps⟩

/-- The demo mark is the only thing `markDemo` decides. -/
theorem Hooks.markDemo_undecided (hooks : Hooks) (hres : res.Undecided)
    (s : Server) (capID : String) :
    (hooks.markDemo res s).admin = false ∧ (hooks.markDemo res s).ownerSelf = false ∧
      ((hooks.markDemo res s).demoRead = true ∧ demoCap capID = true ↔
        hooks.demo s capID = true) ∧
      ¬ (hooks.markDemo res s).InCaps capID := by
  have hnone : ¬ res.InCaps capID := by
    simp [Resolution.InCaps, hres.serverCaps, hres.ownerCaps]
  rw [markDemo]
  cases hd : hooks.demoRead with
  | none => simp [hres.admin, hres.ownerSelf, hres.demoRead, Hooks.demo, hd, hnone]
  | some demo =>
    by_cases hu : demo s.uuid = true
    · refine ⟨by simp [hu, hres.admin], by simp [hu, hres.ownerSelf],
        by simp [hu, Hooks.demo, hd], ?_⟩
      simpa [hu, Resolution.InCaps] using hnone
    · simp [hu, hres.admin, hres.ownerSelf, hres.demoRead, Hooks.demo, hd, hnone]

/-- The server half of a resolution: demo, owner, or what the rows give. -/
theorem hasCap_resolveRows (db : DB) (hooks : Hooks) (hres : res.Undecided)
    (hcap : Delegable capID) :
    (db.resolveRows hooks res id s).hasCap capID = true ↔
      hooks.demo s capID = true ∨ s.ownerID = id.userID ∨
        capID ∈ db.grantedCaps s id.userID := by
  obtain ⟨hadmin, hself, hdemo, hcaps⟩ := hooks.markDemo_undecided hres s capID
  rw [DB.resolveRows]
  by_cases howner : s.ownerID = id.userID
  · simp only [if_pos howner]
    refine (hasCap_of_delegable hcap (by exact hadmin)).trans ?_
    simp [howner]
  simp only [if_neg howner]
  refine (hasCap_of_delegable hcap (by exact hadmin)).trans ?_
  rw [Resolution.inCaps_addCaps hcap, Resolution.inCaps_addCaps hcap]
  -- Adding capabilities keeps the flags.
  change (hooks.markDemo res s).demoRead = true ∧ _ ∨ (hooks.markDemo res s).ownerSelf = true ∨ _
    ↔ _
  rw [hdemo, hself]
  simp [hcaps, howner, DB.grantedCaps]

/-! ## What a resolution answers -/

/-- The part of `Resolve` after the admin short-circuit, on a server the tables have. -/
theorem hasCap_resolveUser (db : DB) (hooks : Hooks) (pair list : Bool)
    (hres : res.Undecided) (hserver : ∀ s, res.server = some s → db.getServerByID s.id = .ok s)
    (hs : db.getServerByID sid = .ok s)
    (hcap : Delegable capID) :
    ((db.resolver hooks pair list).resolveUser res id sid).hasCap capID = true ↔
      id.userID ≠ "" ∧
        (hooks.demo s capID ∨ s.ownerID = id.userID ∨ capID ∈ db.grantedCaps s id.userID) := by
  have hne := DB.id_ne_of_getServerByID hs
  have howner := DB.ownerID_ne_of_getServerByID hs
  have key : ∀ res' : Resolution, res'.Undecided →
      (((db.resolver hooks pair list).resolveOnServer res' id s
        ((db.resolver hooks pair list).storeGrantReads id.userID)).hasCap capID = true ↔
        hooks.demo s capID ∨ s.ownerID = id.userID ∨ capID ∈ db.grantedCaps s id.userID) := by
    intro res' hres'
    rw [(storeGrantReads_readsTables db hooks pair list id.userID).resolveOnServer hooks pair list
      res' howner]
    exact hasCap_resolveRows db hooks hres' hcap
  rw [Resolver.resolveUser]
  by_cases hu : id.userID = ""
  · rw [if_pos hu, hasCap_of_delegable hcap hres.admin]
    simp [hu, hres.demoRead, hres.ownerSelf, Resolution.InCaps, hres.serverCaps, hres.ownerCaps]
  simp only [if_neg hu, if_neg hne]
  have hread : (db.resolver hooks pair list).store.getServerByID sid = .ok s := hs
  cases hf : res.server.filter fun srv ↦ srv.id == sid with
  | none =>
    simp only [hread]
    refine (key _ (hres.setPanel _ _)).trans ?_
    simp [hu]
  | some srv =>
    obtain ⟨hsome, hid⟩ := filter_eq_some_iff.mp hf
    have hsrv := hserver srv hsome
    rw [beq_iff_eq.mp hid, hs] at hsrv
    cases hsrv
    refine (key _ (hres.setPanel _ _)).trans ?_
    simp [hu]

/-- **`HasCap` on `Resolve` is `Holds`**, for every SERVER and OWNER capability on a server the
tables have. -/
theorem hasCap_resolve (db : DB) (hooks : Hooks) (pair list : Bool) (id : Identity)
    (hs : db.getServerByID sid = .ok s) (hcap : Delegable capID) :
    ((db.resolver hooks pair list).resolve id sid).hasCap capID = true ↔
      Holds hooks db id s capID := by
  obtain ⟨-, -, -, hid, -⟩ := DB.getServerByID_ok hs
  have hne := DB.id_ne_of_getServerByID hs
  have hread : (db.resolver hooks pair list).store.getServerByID sid = .ok s := hs
  have hadminCap : ∀ res : Resolution, res.admin = true → res.hasCap capID = true := by
    intro res hres
    cases hget : get capID with
    | none => rcases hcap with h | h <;> simp [scopeOf, hget] at h
    | some c => simp [Resolution.hasCap, hget, hres]
  rw [Resolver.resolve, Holds]
  by_cases hadm : id.isAdmin = true
  · simp only [if_pos hadm, if_neg hne]
    cases hf : (db.resolver hooks pair list).foreignNode with
    | none =>
      have hf' : hooks.foreignNode = none := hf
      simp [hadminCap, Hooks.adminOn, hadm, hf']
    | some foreign =>
      have hf' : hooks.foreignNode = some foreign := hf
      simp only [hread]
      by_cases hforeign : foreign s id.userID = true
      · rw [if_pos hforeign, hasCap_resolveUser db hooks pair list ⟨rfl, rfl, rfl, rfl, rfl⟩ ?_ hs
          hcap]
        · simp [Hooks.adminOn, hf', hforeign]
        · intro s' hs'
          simp only [some_inj] at hs'
          rw [← hs', hid]
          exact hs
      · simp [hadminCap, Hooks.adminOn, hadm, hf', hforeign]
  · rw [if_neg hadm, hasCap_resolveUser db hooks pair list ⟨rfl, rfl, rfl, rfl, rfl⟩ ?_ hs hcap]
    · simp [Hooks.adminOn, hadm]
    · intro s' hs'
      simp [Resolution.empty] at hs'

end Dylaris.Authz
