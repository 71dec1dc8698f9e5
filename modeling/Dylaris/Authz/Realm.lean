import Dylaris.Authz.Listed

/-!
# Owner realms are isolated

Every owner has a realm: their servers, the roles they made and the grants they gave.  A check on a
server of `owner` may read nothing else, or one customer's role edits would change the access to
another customer's server.

That is a statement about two states of the store.  `AgreeInRealm u row db db'` says that they agree
on what such a check is allowed to read: the server's row and its proxy's, and the grants to `u` and
the roles that belong to the owner or to nobody.  A direct row from another
realm is dropped, an inherited one never crosses owners, an account-wide one is keyed by the owner, and a
role from another realm gives nothing.

Nothing a grant says ever reaches a PANEL check, which reads the user's panel role alone
(`hasCap_resolve_panel`).
-/

set_option autoImplicit false

namespace Dylaris.Authz

open List Option Table

/-- Two states that agree on what a check for user `u` on the server `row` may read. -/
structure AgreeInRealm (u : String) (row : ServerRow) (db db' : DB) : Prop where
  left : row ∈ db.servers
  right : row ∈ db'.servers
  proxy : ∀ r : ServerRow, row.proxyID = some r.id → (r ∈ db.servers ↔ r ∈ db'.servers)
  /-- The user's grants that belong to the owner or name none. -/
  grants : ∀ g : InviteRow, g.userID = u ∧ g.InRealm row.ownerID →
    (g ∈ db.invites ↔ g ∈ db'.invites)
  /-- The roles that belong to the owner or to nobody. -/
  roles : ∀ r : ServerRole, r.ownerUserID = row.ownerID ∨ r.ownerUserID = "" →
    (r ∈ db.roles ↔ r ∈ db'.roles)

namespace AgreeInRealm

variable {u : String} {row : ServerRow} {db db' : DB} (h : AgreeInRealm u row db db')

include h

theorem direct_filter (sid : Nat) :
    ((db.direct sid u).filter fun g ↦ g.InRealm row.ownerID)
      = (db'.direct sid u).filter fun g ↦ g.InRealm row.ownerID := by
  have huser : ∀ db : DB, ((db.direct sid u).filter fun g ↦ g.InRealm row.ownerID)
      = (db.direct sid u).filter fun g ↦ g.userID = u ∧ g.InRealm row.ownerID := by
    intro db
    cases hd : db.direct sid u with
    | none => rfl
    | some g =>
      have hu : g.userID = u := (InviteRow.key_eq_server.mp (mem_of_lookup hd).2).2
      simp [filter_some, hu]
  rw [huser db, huser db']
  exact lookup_filter_congr db.invite_unique db'.invite_unique h.grants _

theorem account_eq : db.account row.ownerID u = db'.account row.ownerID u := by
  -- The key of an account-wide row names the owner, so the filter drops nothing.
  have hfilter : ∀ db : DB, db.account row.ownerID u = (db.account row.ownerID u).filter
      fun g ↦ g.userID = u ∧ g.InRealm row.ownerID := by
    intro db
    cases ha : db.account row.ownerID u with
    | none => rfl
    | some g =>
      obtain ⟨-, ho, hu⟩ := InviteRow.key_eq_account.mp (mem_of_lookup ha).2
      simp [filter_some, ho, hu, InviteRow.InRealm]
  rw [hfilter db, hfilter db']
  exact lookup_filter_congr db.invite_unique db'.invite_unique h.grants _

theorem ownerOf_proxy {p : Nat} (hp : row.proxyID = some p) : db.ownerOf p = db'.ownerOf p := by
  have hfilter : ∀ db : DB, Table.lookup (fun s ↦ some s.id) p db.servers
      = (Table.lookup (fun s ↦ some s.id) p db.servers).filter fun s ↦ row.proxyID = some s.id := by
    intro db
    cases hl : Table.lookup (fun s ↦ some s.id) p db.servers with
    | none => rfl
    | some s =>
      have hid : s.id = p := Option.some.inj (mem_of_lookup hl).2
      simp [filter_some, hp, hid]
  rw [DB.ownerOf, DB.ownerOf, hfilter db, hfilter db']
  exact congrArg _ (lookup_filter_congr db.server_unique db'.server_unique h.proxy p)

theorem roleCaps_eq (roleID : Option Nat) :
    db.roleCaps row.ownerID roleID = db'.roleCaps row.ownerID roleID := by
  have hfilter : ∀ o : Option ServerRole, Resolver.realmCaps row.ownerID o
      = Resolver.realmCaps row.ownerID
        (o.filter fun r ↦ r.ownerUserID = row.ownerID ∨ r.ownerUserID = "") := by
    intro o
    cases o with
    | none => rfl
    | some r =>
      by_cases hr : r.ownerUserID = row.ownerID ∨ r.ownerUserID = ""
      · simp [filter_some, hr]
      · rw [filter_some, if_neg (by simpa using hr)]
        exact if_neg fun hc ↦ hr hc.symm
  cases roleID with
  | none => rfl
  | some id =>
    rw [DB.roleCaps, DB.roleCaps, bind_some, bind_some, hfilter,
      lookup_filter_congr db.role_unique db'.role_unique h.roles, ← hfilter]

theorem optCaps_eq (o : Option InviteRow) :
    db.optCaps row.ownerID o = db'.optCaps row.ownerID o := by
  cases o with
  | none => rfl
  | some g => exact congrArg (applyOverrides · g.capOverrides) (h.roleCaps_eq g.serverRoleID)

theorem inherited_eq {s s' : Server} (hs : s.ownerID = row.ownerID) (hs' : s'.ownerID = row.ownerID)
    (hp : s.proxyID = row.proxyID) (hp' : s'.proxyID = row.proxyID) :
    db.inherited s u = db'.inherited s' u := by
  have hand : ∀ o : Option InviteRow, (o.filter fun g ↦ g.inherit ∧ g.InRealm row.ownerID)
      = (o.filter fun g ↦ g.InRealm row.ownerID).filter fun g ↦ g.inherit := by
    intro o
    cases o with
    | none => rfl
    | some g => by_cases hg : g.InRealm row.ownerID <;> simp [filter_some, hg]
  rw [DB.inherited, DB.inherited, hp, hp', hs, hs']
  cases hproxy : row.proxyID with
  | none => rfl
  | some p =>
    rw [bind_some, bind_some, h.ownerOf_proxy hproxy, hand, hand, h.direct_filter p]

/-- What the user's rows give on the server is the same in both states. -/
theorem grantedCaps_eq {s s' : Server} (hid : s.id = s'.id) (hs : s.ownerID = row.ownerID)
    (hs' : s'.ownerID = row.ownerID) (hp : s.proxyID = row.proxyID)
    (hp' : s'.proxyID = row.proxyID) : db.grantedCaps s u = db'.grantedCaps s' u := by
  rw [DB.grantedCaps, DB.grantedCaps, DB.onServer, DB.onServer, hs, hs', hid, h.direct_filter,
    h.inherited_eq hs hs' hp hp', h.account_eq, h.optCaps_eq, h.optCaps_eq]

end AgreeInRealm

/-- The read of a row of the table. -/
theorem DB.getServerByID_of_mem {db : DB} {row : ServerRow} (h : row ∈ db.servers) :
    ∃ s, db.getServerByID row.id = .ok s ∧ s.id = row.id ∧ s.uuid = row.uuid ∧
      s.ownerID = row.ownerID ∧ s.proxyID = row.proxyID := by
  obtain ⟨nodeOwner, hread⟩ := db.getServerByID_eq row.id
  rw [(lookup_eq_some_iff db.server_unique).mpr ⟨h, rfl⟩] at hread
  exact ⟨_, hread, rfl, rfl, rfl, rfl⟩

/-! ## PANEL capabilities -/

/-- What a PANEL check reads is left alone by the server half of a resolution. -/
theorem Resolver.hasCap_resolveOnServer_panel (r : Resolver) (res : Resolution) (id : Identity)
    (s : Server) (reads : GrantReads) {capID : String} (hcap : scopeOf capID = some .panel) :
    (r.resolveOnServer res id s reads).hasCap capID = res.hasCap capID := by
  have hgrant : ∀ (res : Resolution) g, (r.applyGrant? res g s.ownerID).admin = res.admin ∧
      (r.applyGrant? res g s.ownerID).adminPanel = res.adminPanel ∧
      (r.applyGrant? res g s.ownerID).panelCaps = res.panelCaps := by
    intro res g
    cases g <;> exact ⟨rfl, rfl, rfl⟩
  have hdemo : (r.markDemo res s).admin = res.admin ∧
      (r.markDemo res s).adminPanel = res.adminPanel ∧
      (r.markDemo res s).panelCaps = res.panelCaps := by
    rw [Hooks.markDemo]
    split
    · split <;> exact ⟨rfl, rfl, rfl⟩
    · exact ⟨rfl, rfl, rfl⟩
  obtain ⟨c, hc, hscope⟩ : ∃ c, get capID = some c ∧ c.scope = .panel := by
    simpa [scopeOf] using hcap
  rw [Resolver.resolveOnServer]
  split
  · simp [Resolution.hasCap, hc, hscope, hdemo]
  · simp [Resolution.hasCap, hc, hscope, hgrant, hdemo]

/-- **A PANEL check of a non-admin reads the panel role and the per-user overrides**, whatever the
server and whatever the grants. -/
theorem Resolver.hasCap_resolve_panel (r : Resolver) {id : Identity} (hadmin : id.isAdmin = false)
    (sid : Nat) {capID : String} (hcap : scopeOf capID = some .panel) :
    (r.resolve id sid).hasCap capID
      = (id.userID != "" && (r.panelLoad id.userID).contains capID) := by
  obtain ⟨c, hc, hscope⟩ : ∃ c, get capID = some c ∧ c.scope = .panel := by
    simpa [scopeOf] using hcap
  rw [Resolver.resolve, if_neg (by simp [hadmin]), Resolver.resolveUser]
  by_cases hu : id.userID = ""
  · simp [hu, Resolution.hasCap, hc, hscope, Resolution.empty]
  simp only [if_neg hu, Resolution.empty, filter_none]
  split
  · simp [Resolution.hasCap, hc, hscope, hu]
  · split
    · simp [Resolution.hasCap, hc, hscope, hu]
    · rw [r.hasCap_resolveOnServer_panel _ _ _ _ hcap]
      simp [Resolution.hasCap, hc, hscope, hu]

/-- The state with every grant and every server role taken out. -/
def DB.withoutGrants (db : DB) : DB :=
  { db with
    roles := [], invites := []
    role_unique := List.Pairwise.nil
    invite_user := by simp
    invite_unique := List.Pairwise.nil }

/-- **Owner realms are isolated.**  For a user who is not an admin, two states that agree in the realm
answer every SERVER and OWNER check on the server alike; and no grant and no role decides a PANEL
check, on any server. -/
theorem realm_isolated (hooks : Hooks) (pair list : Bool) (db db' : DB) (id : Identity)
    (row : ServerRow) (hadmin : id.isAdmin = false) (hagree : AgreeInRealm id.userID row db db') :
    (∀ capID, Delegable capID →
      ((db.resolver hooks pair list).resolve id row.id).hasCap capID
        = ((db'.resolver hooks pair list).resolve id row.id).hasCap capID) ∧
    (∀ sid capID, scopeOf capID = some .panel →
      ((db.resolver hooks pair list).resolve id sid).hasCap capID
        = ((db.withoutGrants.resolver hooks pair list).resolve id sid).hasCap capID) := by
  refine ⟨fun capID hcap ↦ ?_, fun sid capID hcap ↦ ?_⟩
  · obtain ⟨s, hread, hid, huuid, hs, hp⟩ := DB.getServerByID_of_mem hagree.left
    obtain ⟨s', hread', hid', huuid', hs', hp'⟩ := DB.getServerByID_of_mem hagree.right
    rw [Bool.eq_iff_iff, hasCap_resolve db hooks pair list id hread hcap,
      hasCap_resolve db' hooks pair list id hread' hcap, Holds, Holds,
      hagree.grantedCaps_eq (hid.trans hid'.symm) hs hs' hp hp']
    have hdemo : hooks.demo s capID = hooks.demo s' capID := by
      rw [Hooks.demo, Hooks.demo, huuid, huuid']
    have hadm : ∀ s, hooks.adminOn id s = false := by
      intro s
      simp [Hooks.adminOn, hadmin]
    simp only [hdemo, hadm, hs, hs']
  · rw [Resolver.hasCap_resolve_panel _ hadmin sid hcap,
      Resolver.hasCap_resolve_panel _ hadmin sid hcap]
    rfl

/-- `sharedProxy` with a second owner, who gave the friend everything in their own realm and put the
same rights into a row on the backend. -/
def sharedProxy.intruded : DB :=
  { sharedProxy with
    roles := sharedProxy.roles ++ [⟨2, "other", ["server.delete", "users.delete"]⟩]
    invites := sharedProxy.invites ++
      [⟨none, "friend", some "other", some 2, ⟨["server.delete"], []⟩, true⟩,
        ⟨some 2, "friend", some "other", some 2, ⟨["server.delete"], []⟩, true⟩]
    role_unique := by decide
    invite_user := by decide
    invite_unique := by decide }

theorem realm_isolated_intruded :
    ((sharedProxy.intruded.resolver ⟨none, none⟩ true true).resolve ⟨"friend", "Friend", false⟩
      2).hasCap "server.delete" = false :=
  ((realm_isolated ⟨none, none⟩ true true sharedProxy sharedProxy.intruded
    ⟨"friend", "Friend", false⟩ ⟨2, "backend", 1, "owner", some 1⟩ rfl
    { left := by decide
      right := by decide
      proxy := fun _ _ ↦ Iff.rfl
      grants := by
        rintro g ⟨-, hg⟩
        simp only [sharedProxy.intruded, mem_append, mem_pair, iff_self_or]
        rintro (rfl | rfl) <;> exact absurd hg (by decide)
      roles := by
        intro r hr
        simp only [sharedProxy.intruded, mem_append, mem_singleton, iff_self_or]
        rintro rfl
        exact absurd hr (by decide) }).1 "server.delete" (by decide)).symm.trans (by decide)

end Dylaris.Authz
