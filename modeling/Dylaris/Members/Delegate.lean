import Dylaris.Members.Handlers

/-!
# What a delegate's request writes

The five handlers check different things.  This file says once, for a caller who is not an admin, what
a request that succeeds has written and what its checks have established: `Wrote`.  Either
the request was account-wide, or it is about one server and wrote one row there; and then the caller
owns that server, or it is one of the cases of `Delegated`.

Nothing later unfolds a handler again.
-/

set_option autoImplicit false

namespace Dylaris.Members

open Authz List

/-- The caller holds the capability on the server, as the resolver answers. -/
def Env.Held (env : Env) (db : DB) (idn : Identity) (sid : Nat) (capID : String) : Prop :=
  (env.resolve db idn sid).hasCap capID = true

instance (env : Env) (db : DB) (idn : Identity) (sid : Nat) (capID : String) :
    Decidable (env.Held db idn sid capID) :=
  inferInstanceAs (Decidable (_ = true))

variable {env : Env} {db db' : DB} {idn : Identity}

variable {sid : Nat} {s : Server} {capID : String}

/-- What a caller holds on a server of the tables. -/
theorem held_iff (hs : db.getServerByID sid = .ok s)
    (hcap : Delegable capID) : env.Held db idn sid capID ↔ Holds env.hooks db idn s capID :=
  hasCap_resolve db env.hooks env.pair env.list idn hs hcap

theorem held_of_owner (hs : db.getServerByID sid = .ok s)
    (howner : s.ownerID = idn.userID) (hcap : Delegable capID) :
    env.Held db idn sid capID := by
  refine (held_iff hs hcap).mpr (.inr ⟨?_, .inr (.inl howner)⟩)
  rw [← howner]
  exact DB.ownerID_ne_of_getServerByID hs

/-- Two states that differ in the grants only differ in what the grants give. -/
theorem held_mono {db₁ db₂ : DB} (h₁ : db₁.getServerByID sid = .ok s)
    (h₂ : db₂.getServerByID sid = .ok s) {m : Identity} (hcap : Delegable capID)
    (himp : capID ∈ db₁.grantedCaps s m.userID → capID ∈ db₂.grantedCaps s m.userID)
    (h : env.Held db₁ m sid capID) : env.Held db₂ m sid capID := by
  rw [held_iff h₂ hcap]
  rw [held_iff h₁ hcap] at h
  rcases h with hadmin | ⟨hu, hdemo | howner | hgranted⟩
  · exact .inl hadmin
  · exact .inr ⟨hu, .inl hdemo⟩
  · exact .inr ⟨hu, .inr (.inl howner)⟩
  · exact .inr ⟨hu, .inr (.inr (himp hgranted))⟩

/-! ## The checks -/

@[simp] theorem mem_dedupeCaps {c : String} {caps : List String} : c ∈ dedupeCaps caps ↔ c ∈ caps := by
  have hfold : ∀ out : List String,
      c ∈ caps.foldl (fun out c ↦ if c ∈ out then out else out ++ [c]) out ↔
        c ∈ out ∨ c ∈ caps := by
    induction caps with
    | nil => simp
    | cons x rest ih =>
      intro out
      rw [foldl_cons, ih, mem_cons]
      by_cases hx : x ∈ out
      · rw [if_pos hx]
        have : c = x → c ∈ out := fun h ↦ h ▸ hx
        tauto
      · rw [if_neg hx, mem_append, mem_singleton, or_assoc]
  simpa [dedupeCaps] using hfold []

/-- The delegation cap lets through exactly what the resolution holds. -/
theorem length_capSubset_eq {res : Resolution} {requested : List String} :
    (capSubset res requested).length = requested.length ↔
      ∀ c ∈ requested, res.hasCap c = true := by
  rw [capSubset, length_filter_eq_length_iff]

theorem checkDelegator_ok {res : Resolution} {req : AssignGrantRequest} {roleCaps : List String}
    {hadGrant : Bool} {u : Unit} (h : Env.checkDelegator res req roleCaps hadGrant = .ok u) :
    (∀ c ∈ roleCaps ++ req.grantCaps, res.hasCap c = true) ∧ req.inherit = false ∧
      (hadGrant = false ∨ res.hasCap "members.delete" = true) := by
  simp only [Env.checkDelegator, bind_eq_ok, refuse_eq_ok, exists_const, not_not,
    length_capSubset_eq, mem_dedupeCaps, not_and, Bool.not_eq_true, Bool.not_eq_false] at h
  obtain ⟨-, hcaps, hinherit, hdelete⟩ := h
  refine ⟨hcaps, hinherit, ?_⟩
  cases hadGrant with
  | false => exact .inl rfl
  | true => exact .inr (hdelete rfl)

theorem grantServer_ok {serverID : Option Nat} {targetID : String} {srv : Option Server}
    (h : Env.grantServer db serverID targetID = .ok srv) : serverID = none ∧ srv = none ∨
      ∃ sid s, serverID = some sid ∧ srv = some s ∧ db.getServerByID sid = .ok s := by
  cases serverID with
  | none =>
    cases h
    exact .inl ⟨rfl, rfl⟩
  | some sid =>
    simp only [Env.grantServer, bind_eq_ok, orFail_eq_ok, refuse_eq_ok, exists_const,
      toOption_eq_some] at h
    obtain ⟨s, hs, -, hsrv⟩ := h
    cases hsrv
    exact .inr ⟨sid, s, rfl, rfl, hs⟩

theorem grantRoleCaps_ok {roleID : Option Nat} {owner : String} {caps : List String}
    (h : Env.grantRoleCaps db roleID owner = .ok caps) : db.roleCaps owner roleID = caps := by
  cases roleID with
  | none =>
    cases h
    rfl
  | some id =>
    simp only [Env.grantRoleCaps, DB.getServerRole, toOption_ofRow, bind_eq_ok, orFail_eq_ok,
      Option.filter_eq_some_iff, decide_eq_true_eq] at h
    obtain ⟨role, ⟨hrole, howner⟩, hcaps⟩ := h
    cases hcaps
    rw [DB.roleCaps, Option.bind_some, hrole]
    exact if_pos (.inr howner)

/-- `RevokeUncoversInheritance` asks whether the server inherits a grant of the target. -/
theorem revokeUncoversInheritance_eq (s : Server) (u : String) :
    revokeUncoversInheritance db s u = (db.inherited s u).isSome := by
  rw [revokeUncoversInheritance, DB.inherited]
  cases s.proxyID with
  | none => rfl
  | some p =>
    simp only [Option.bind_some, db.ownerOf_eq]
    cases hp : db.getServerByID p with
    | error e => rfl
    | ok ps =>
      obtain ⟨-, -, -, hid, -⟩ := DB.getServerByID_ok hp
      simp only [Except.toOption, Option.map_some, Option.some_inj, hid]
      by_cases howner : ps.ownerID = s.ownerID
      · simp only [howner, ne_eq, not_true, if_false, if_true, DB.getServerGrant]
        change _ = Option.isSome (Option.filter _ (Table.lookup InviteRow.key (.server p, u) _))
        cases Table.lookup InviteRow.key (.server p, u) db.invites with
        | none => rfl
        | some g =>
          by_cases hi : g.inherit = true <;> by_cases hg : g.InRealm s.ownerID <;>
            simp_all [ofRow, DB.scanGrant, Option.filter_some, InviteRow.InRealm]
      · simp [howner]

/-! ## The cap on the older permission map -/

theorem refuseBadPermissionMap_ok {req : Option Perms} {p : Perms}
    (h : refuseBadPermissionMap req = .ok p) : req = some p := by
  cases req with
  | none => cases h
  | some q =>
    simp only [refuseBadPermissionMap] at h
    split at h
    · cases h
    · cases h
      rfl

theorem on_map_and (p : Perms) (f : String → Bool) (key : String) :
    Perms.on (p.map fun kv ↦ (kv.1, kv.2 && f kv.1)) key = (p.on key && f key) := by
  induction p with
  | nil => simp [Perms.on]
  | cons kv rest ih =>
    obtain ⟨k, v⟩ := kv
    by_cases hk : key = k
    · subst hk
      cases v <;> cases hf : f key <;> simp [Perms.on, hf]
    · simpa [Perms.on, lookup_cons, beq_false_of_ne hk] using ih

/-- The capabilities of a permission map are those of its keys. -/
theorem mem_mapLegacyInviteCaps_tabs {p : Perms} : capID ∈ mapLegacyInviteCaps p.tabs ↔
      ∃ key tp, p.on key = true ∧ onlyTab key = some tp ∧ capID ∈ mapLegacyInviteCaps tp := by
  constructor
  · intro h
    simp only [mapLegacyInviteCaps, mem_append, mem_ite_nil_right, or_assoc] at h
    -- One case per key, in the order of the mapping.
    rcases h with h | h | h | h | h | h | h | h | h | h
    · exact ⟨"console", _, h.1, rfl, h.2⟩
    · exact ⟨"files", _, h.1, rfl, h.2⟩
    · exact ⟨"config", _, h.1, rfl, h.2⟩
    · exact ⟨"power", _, h.1, rfl, h.2⟩
    · exact ⟨"network", _, h.1, rfl, h.2⟩
    · exact ⟨"overview", _, h.1, rfl, h.2⟩
    · exact ⟨"members", _, h.1, rfl, h.2⟩
    · exact ⟨"setup", _, h.1, rfl, h.2⟩
    · exact ⟨"players", _, h.1, rfl, h.2⟩
    · exact ⟨"backups", _, h.1, rfl, h.2⟩
  · rintro ⟨key, tp, hon, honly, hc⟩
    unfold onlyTab at honly
    split at honly <;> cases honly
    all_goals
      simp only [mapLegacyInviteCaps, mem_append, mem_ite_nil_right,
        Bool.false_eq_true, false_and, or_false, false_or, true_and] at hc
      simp only [mapLegacyInviteCaps, mem_append, mem_ite_nil_right, or_assoc,
        Perms.tabs, hon, hc, true_and, true_or, or_true]

theorem not_ownsOrRuns (hadmin : idn.isAdmin = false) (howner : s.ownerID ≠ idn.userID) :
    ¬ env.ownsOrRuns db idn s := by
  simp [Env.ownsOrRuns, Env.adminHere, hadmin, howner]

/-- A key of a delegate's permission map is on after the cap if the delegate may hand it on. -/
theorem on_capPermissions (hs : db.getServerByID sid = .ok s)
    (hnot : ¬ env.ownsOrRuns db idn s) (p : Perms) (key : String) :
    (env.capPermissions db idn sid p).on key
      = (p.on key && callerMayDelegate (env.resolve db idn sid) key) := by
  rw [Env.capPermissions, hs, ← on_map_and]
  exact congrArg (Perms.on · key) (if_neg hnot)

/-- What a delegate's permission map confers after the cap is held by the delegate, and never flows
down. -/
theorem capPermissions_held (hs : db.getServerByID sid = .ok s)
    (hnot : ¬ env.ownsOrRuns db idn s) (p : Perms) :
    (∀ c ∈ mapLegacyInviteCaps (env.capPermissions db idn sid p).tabs, env.Held db idn sid c) ∧
      (env.capPermissions db idn sid p).tabs.inherit = false := by
  constructor
  · intro c hc
    obtain ⟨key, tp, hon, honly, hmem⟩ := mem_mapLegacyInviteCaps_tabs.mp hc
    rw [on_capPermissions hs hnot, Bool.and_eq_true, callerMayDelegate, honly] at hon
    obtain ⟨-, hmay⟩ := hon
    split at hmay
    · cases hmay
    · exact all_eq_true.mp hmay c hmem
  · exact (on_capPermissions hs hnot p "inherit").trans (by simp [callerMayDelegate])

/-! ## What a request writes -/

/-- The row a delegate writes: in the owner's realm, not flowing down, and granting only what the
delegate holds. -/
structure DelegateRow (env : Env) (db : DB) (idn : Identity) (s : Server) (r : InviteRow) : Prop where
  owner : r.ownerUserID = some s.ownerID
  inherit : r.inherit = false
  grant : ∀ c ∈ r.capOverrides.grant, env.Held db idn s.id c

/-- What the request of a delegate on server `s` about user `u` writes, and what its checks have
established. -/
inductive Delegated (env : Env) (db : DB) (idn : Identity) (s : Server) (u : String) :
    Call → Option InviteRow → Prop
  | assignGrant {req : AssignGrantRequest} {r : InviteRow} (hu : u ≠ idn.userID)
      (hr : DelegateRow env db idn s r) (hrole : r.serverRoleID = req.serverRoleID)
      (hov : r.capOverrides = ⟨req.grantCaps, req.denyCaps⟩)
      (hheld : ∀ c ∈ db.roleCaps s.ownerID r.serverRoleID, env.Held db idn s.id c)
      (hreplace : db.direct s.id u = none ∨ env.Held db idn s.id "members.delete") :
      Delegated env db idn s u (.assignGrant (some req)) (some r)
  | inviteMember {username : String} {p q : Perms} {r : InviteRow} (hu : u ≠ idn.userID)
      (hr : DelegateRow env db idn s r) (hrole : r.serverRoleID = none)
      (hov : r.capOverrides = ⟨mapLegacyInviteCaps q.tabs, []⟩)
      (hcapped : ∀ key, q.on key = (p.on key && callerMayDelegate (env.resolve db idn s.id) key))
      (hfree : db.direct s.id u = none) :
      Delegated env db idn s u (.inviteMember s.id (some ⟨username, some p⟩)) (some r)
  | updateMemberPermissions {p : Perms} (hu : u ≠ idn.userID)
      (hdelete : env.Held db idn s.id "members.delete")
      (hrow : ∀ g ∈ db.direct s.id u, DelegateRow env db idn s
        (db.setPermissions (env.capPermissions db idn s.id p) s.id g)) :
      Delegated env db idn s u (.updateMemberPermissions s.id u (some (some p)))
        ((db.direct s.id u).map (db.setPermissions (env.capPermissions db idn s.id p) s.id))
  | revokeGrant {req : RevokeGrantRequest} (hinh : db.inherited s u = none) :
      Delegated env db idn s u (.revokeGrant (some req)) none
  | removeMember (hinh : db.inherited s u = none) :
      Delegated env db idn s u (.removeMember s.id u) none

/-- A successful request has written one row of the affected user: an account-wide one in the caller's
own realm, or the one on the server it is about, where the caller is the owner or a delegate. -/
def Wrote (env : Env) (db db' : DB) (idn : Identity) (call : Call) (u : String) : Prop :=
  (call.serverID = none ∧ ∃ row, Writes db db' (.account idn.userID, u) row) ∨
    ∃ sid s row, call.serverID = some sid ∧ db.getServerByID sid = .ok s ∧
      Writes db db' (.server sid, u) row ∧
      (s.ownerID = idn.userID ∨ Delegated env db idn s u call row)

section

variable (hadmin : idn.isAdmin = false)

include hadmin

theorem assignGrant_wrote {body : Option AssignGrantRequest}
    (h : env.assignGrant db idn body = .ok db') :
    ∃ u, env.affected db (.assignGrant body) = some u ∧
      Wrote env db db' idn (.assignGrant body) u := by
  cases body with
  | none => cases h
  | some req =>
    simp only [Env.assignGrant, bind_eq_ok, refuse_eq_ok, orFail_eq_ok, Option.some.injEq,
      exists_eq_left', exists_const, toOption_eq_some] at h
    obtain ⟨-, _, -, _, -, -, _, -, target, htarget, hself, srv, hsrv, roleCaps, hrole, _, hcheck,
      hwrite⟩ := h
    have hw := DB.upsertServerGrant_writes hwrite
    refine ⟨target.id, by simp [Env.affected, htarget, Except.toOption], ?_⟩
    rcases grantServer_ok hsrv with ⟨hnone, rfl⟩ | ⟨sid, s, hsid, rfl, hs⟩
    · rw [hnone] at hw
      exact .inl ⟨hnone, _, hw⟩
    · rw [hsid] at hw
      refine .inr ⟨sid, s, _, hsid, hs, hw, ?_⟩
      by_cases howner : s.ownerID = idn.userID
      · exact .inl howner
      rw [Env.checkGrant] at hcheck
      simp only [if_neg (not_ownsOrRuns hadmin howner)] at hcheck
      obtain ⟨hheld, hinherit, hreplace⟩ := checkDelegator_ok hcheck
      refine .inr (.assignGrant hself ⟨rfl, hinherit, ?_⟩ rfl rfl ?_ ?_)
      · exact fun c hc ↦ hheld c (mem_append_right _ hc)
      · have hcaps : db.roleCaps s.ownerID req.serverRoleID = roleCaps := grantRoleCaps_ok hrole
        exact fun c hc ↦ hheld c (mem_append_left _ (hcaps ▸ hc))
      · refine hreplace.imp_left fun hnone ↦ ?_
        simpa [DB.getServerGrant, DB.direct] using hnone

theorem revokeGrant_wrote {body : Option RevokeGrantRequest}
    (h : env.revokeGrant db idn body = .ok db') :
    ∃ u, env.affected db (.revokeGrant body) = some u ∧
      Wrote env db db' idn (.revokeGrant body) u := by
  cases body with
  | none => cases h
  | some req =>
    simp only [Env.revokeGrant, bind_eq_ok, refuse_eq_ok, orFail_eq_ok, Option.some.injEq,
      exists_eq_left', exists_const, toOption_eq_some] at h
    obtain ⟨-, -, target, htarget, owner, howner, hanswer⟩ := h
    have hwrite : db.deleteServerGrant req.serverID owner target.id = .ok db' := by
      revert hanswer
      cases db.deleteServerGrant req.serverID owner target.id with
      | error e => cases e <;> exact fun h ↦ by cases h
      | ok d => exact fun h ↦ by cases h; rfl
    have hw := DB.deleteServerGrant_writes hwrite
    refine ⟨target.id, by simp [Env.affected, htarget, Except.toOption], ?_⟩
    cases hsid : req.serverID with
    | none =>
      rw [hsid] at howner hw
      cases howner
      exact .inl ⟨hsid, _, hw⟩
    | some sid =>
      simp only [hsid, Env.revokeRealm, bind_eq_ok, orFail_eq_ok, toOption_eq_some] at howner hw
      obtain ⟨s, hs, _, hcheck, -⟩ := howner
      refine .inr ⟨sid, s, _, hsid, hs, hw, ?_⟩
      by_cases hown : s.ownerID = idn.userID
      · exact .inl hown
      · rw [Env.checkRevoker, if_neg (not_ownsOrRuns hadmin hown)] at hcheck
        simp only [bind_eq_ok, refuse_eq_ok, exists_const, revokeUncoversInheritance_eq] at hcheck
        exact .inr (.revokeGrant (by simpa using hcheck.2))

theorem inviteMember_wrote {body : Option InviteRequest}
    (h : env.inviteMember db idn sid body = .ok db') :
    ∃ u, env.affected db (.inviteMember sid body) = some u ∧
      Wrote env db db' idn (.inviteMember sid body) u := by
  cases body with
  | none => cases h
  | some req =>
    simp only [Env.inviteMember, bind_eq_ok, refuse_eq_ok, orFail_eq_ok, Option.some.injEq,
      exists_eq_left', exists_const, toOption_eq_some] at h
    obtain ⟨-, p, hp, _, -, s, hs, target, htarget, -, hself, hwrite⟩ := h
    obtain ⟨username, perms⟩ := req
    cases refuseBadPermissionMap_ok hp
    obtain ⟨hfree, hw⟩ := DB.createInvite_writes hwrite
    obtain ⟨-, -, -, hid, -⟩ := DB.getServerByID_ok hs
    refine ⟨target.id, by simp [Env.affected, htarget, Except.toOption], ?_⟩
    refine .inr ⟨sid, s, _, rfl, hs, hw, ?_⟩
    by_cases howner : s.ownerID = idn.userID
    · exact .inl howner
    subst hid
    obtain ⟨hheld, hinherit⟩ := capPermissions_held hs (not_ownsOrRuns hadmin howner) p
    refine .inr (.inviteMember hself ⟨?_, hinherit, hheld⟩ rfl rfl
      (on_capPermissions hs (not_ownsOrRuns hadmin howner) p) hfree)
    simp [db.ownerOf_eq, hs, Except.toOption]

theorem updateMemberPermissions_wrote {u : String}
    {body : Option (Option Perms)}
    (h : env.updateMemberPermissions db idn sid u body = .ok db') :
    Wrote env db db' idn (.updateMemberPermissions sid u body) u := by
  cases body with
  | none =>
    simp only [Env.updateMemberPermissions, bind_eq_ok, orFail_eq_ok] at h
    obtain ⟨_, -, _, hnone, -⟩ := h
    cases hnone
  | some req =>
    simp only [Env.updateMemberPermissions, bind_eq_ok, refuse_eq_ok, orFail_eq_ok,
      Option.some.injEq, exists_eq_left', exists_const, Bool.not_eq_false] at h
    obtain ⟨-, p, hp, hself, _, -, hmay, hwrite⟩ := h
    cases hwrite
    cases refuseBadPermissionMap_ok hp
    cases hs : db.getServerByID sid with
    | error e => simp [Env.mayReplaceMemberAccess, hs] at hmay
    | ok s =>
      obtain ⟨-, -, -, hid, -⟩ := DB.getServerByID_ok hs
      subst hid
      refine .inr ⟨s.id, s, _, rfl, hs, db.updateInvitePermissions_writes _ _ _, ?_⟩
      by_cases howner : s.ownerID = idn.userID
      · exact .inl howner
      have hnot : ¬ env.ownsOrRuns db idn s := not_ownsOrRuns hadmin howner
      obtain ⟨hheld, hinherit⟩ := capPermissions_held hs hnot p
      refine .inr (.updateMemberPermissions (Ne.symm hself) ?_ fun g _ ↦ ⟨?_, hinherit, hheld⟩)
      · simpa [Env.Held, Env.mayReplaceMemberAccess, hs, hnot] using hmay
      · simp [DB.setPermissions, db.ownerOf_eq, hs, Except.toOption]

theorem removeMember_wrote {u : String}
    (h : env.removeMember db idn sid u = .ok db') :
    Wrote env db db' idn (.removeMember sid u) u := by
  simp only [Env.removeMember, bind_eq_ok, refuse_eq_ok, orFail_eq_ok, exists_const,
    toOption_eq_some, revokeUncoversInheritance_eq] at h
  obtain ⟨-, s, hs, hcover, hwrite⟩ := h
  cases hwrite
  obtain ⟨-, -, -, hid, -⟩ := DB.getServerByID_ok hs
  subst hid
  refine .inr ⟨s.id, s, _, rfl, hs, db.deleteGrantAt_writes _, ?_⟩
  by_cases howner : s.ownerID = idn.userID
  · exact .inl howner
  · refine .inr (.removeMember ?_)
    simpa [not_ownsOrRuns hadmin howner] using hcover

/-- **What a successful request of a non-admin has written.** -/
theorem perform_wrote {call : Call}
    (h : env.perform db idn call = .ok db') :
    ∃ u, env.affected db call = some u ∧ Wrote env db db' idn call u := by
  cases call with
  | assignGrant body =>
    obtain ⟨_, -, h⟩ := bind_eq_ok.mp h
    exact assignGrant_wrote hadmin h
  | revokeGrant body =>
    obtain ⟨_, -, h⟩ := bind_eq_ok.mp h
    exact revokeGrant_wrote hadmin h
  | inviteMember sid body =>
    obtain ⟨_, -, h⟩ := bind_eq_ok.mp h
    exact inviteMember_wrote hadmin h
  | updateMemberPermissions sid u body =>
    obtain ⟨_, -, h⟩ := bind_eq_ok.mp h
    exact ⟨u, rfl, updateMemberPermissions_wrote hadmin h⟩
  | removeMember sid u =>
    obtain ⟨_, -, h⟩ := bind_eq_ok.mp h
    exact ⟨u, rfl, removeMember_wrote hadmin h⟩

end

end Dylaris.Members
