import Dylaris.Members.Delegate

/-!
# No privilege escalation through member management

Somebody who may manage members but owns nothing must not be able to hand out more than they hold.
`NoEscalation` is that law for one request: whatever the affected member holds afterwards and did not
hold before, on any server, the caller held there.

The delegation cap is what carries it, and every route has one.  But `UpdateMemberPermissions` leaves
the server role of the row alone and takes the row into the realm of the server's owner.  On a row
left behind by an earlier owner the resolver had ignored the role; after the update it counts again,
and nobody has compared it with what the caller holds.  `noEscalation_iff` says that this is the only
way: the law fails exactly for a request that revives such a role (`RevivesStaleRole`).
-/

set_option autoImplicit false

namespace Dylaris.Members

open Authz

variable {env : Env} {db db' : DB} {idn : Identity}

/-- Whatever the member gained, on any server, the caller held there before. -/
def NoEscalation (env : Env) (db db' : DB) (idn : Identity) (u : String) : Prop :=
  ∀ m : Identity, m.userID = u → ∀ sid s, db.getServerByID sid = .ok s →
    ∀ capID, Delegable capID →
    env.Held db' m sid capID → ¬ env.Held db m sid capID → env.Held db idn sid capID

/-- The request updates the permissions on a row of another realm whose server role is of the owner's
realm, and that role holds a capability, not denied on the row, that neither the member nor the caller
holds on the server. -/
def RevivesStaleRole (env : Env) (db : DB) (idn : Identity) (call : Call) : Prop :=
  ∃ sid u body s g, call = .updateMemberPermissions sid u body ∧ db.getServerByID sid = .ok s ∧
    db.direct sid u = some g ∧ ¬ g.InRealm s.ownerID ∧
    ∃ capID, Delegable capID ∧ capID ∈ db.roleCaps s.ownerID g.serverRoleID ∧
      capID ∉ g.capOverrides.deny ∧ ¬ env.Held db ⟨u, "", false⟩ sid capID ∧
      ¬ env.Held db idn sid capID

/-! ## What a member can gain -/

variable {u capID : String} {row : Option InviteRow} {s : Server}

/-- Behind a row that does not flow down a server gives what it gave, or less. -/
theorem granted_of_behind {sid : Nat}
    (hw : Writes db db' (.server sid, u) row) (hrow : ∀ r ∈ row, r.inherit = false)
    (hs : s.id ≠ sid) (h : capID ∈ db'.grantedCaps s u) :
    capID ∈ db.grantedCaps s u := by
  rw [hw.grantedCaps_behind hrow hs, List.mem_append] at h
  rw [DB.mem_grantedCaps]
  refine h.imp_left fun h ↦ ?_
  rw [DB.onServer]
  cases hd : (db.direct s.id u).filter fun g ↦ g.InRealm s.ownerID with
  | some g => simpa [hd] using h
  | none =>
    rw [hd, Option.none_or] at h
    split at h
    · simp [DB.optCaps] at h
    · exact h

theorem granted_of_account
    (h : capID ∈ db.optCaps s.ownerID (db.account s.ownerID u)) : capID ∈ db.grantedCaps s u :=
  DB.mem_grantedCaps.mpr (.inr h)

/-- On the server itself a delegate's row gives what the delegate holds, or what its role gives. -/
theorem held_of_delegateRow {r : InviteRow}
    (hw : Writes db db' (.server s.id, u) (some r)) (hr : DelegateRow env db idn s r)
    (h : capID ∈ db'.grantedCaps s u) (hbefore : capID ∉ db.grantedCaps s u) :
    env.Held db idn s.id capID ∨
      capID ∈ db.roleCaps s.ownerID r.serverRoleID ∧ capID ∉ r.capOverrides.deny := by
  have hrealm : r.InRealm s.ownerID := .inr (by rw [hr.owner]; rfl)
  rw [hw.grantedCaps_self rfl rfl hrealm, List.mem_append, DB.mem_rowCaps] at h
  rcases h with ⟨hrole | hgrant, hdeny⟩ | hacct
  · exact .inr ⟨hrole, hdeny⟩
  · exact .inl (hr.grant capID hgrant)
  · exact absurd (granted_of_account hacct) hbefore

/-- Removing a row uncovers nothing: the server inherits no grant of the member. -/
theorem granted_of_removed (hw : Writes db db' (.server s.id, u) none)
    (hinh : db.inherited s u = none) (h : capID ∈ db'.grantedCaps s u) :
    capID ∈ db.grantedCaps s u := by
  rw [hw.grantedCaps_delete rfl rfl, hinh, ite_self, List.mem_append] at h
  rcases h with h | hacct
  · simp [DB.optCaps] at h
  · exact granted_of_account hacct

variable {call : Call}

/-- **What a member gains on the server of a delegate's request, the delegate holds**, or it is in the
role of a row of another realm that the request has updated. -/
theorem delegated_gain
    (hd : Delegated env db idn s u call row) (hw : Writes db db' (.server s.id, u) row)
    (h : capID ∈ db'.grantedCaps s u) (hbefore : capID ∉ db.grantedCaps s u) :
    env.Held db idn s.id capID ∨ ∃ body g, call = .updateMemberPermissions s.id u body ∧
      db.direct s.id u = some g ∧ ¬ g.InRealm s.ownerID ∧
      capID ∈ db.roleCaps s.ownerID g.serverRoleID ∧ capID ∉ g.capOverrides.deny := by
  cases hd with
  | assignGrant _ hr _ _ hheld _ =>
    rcases held_of_delegateRow hw hr h hbefore with hheld' | ⟨hrole, -⟩
    · exact .inl hheld'
    · exact .inl (hheld capID hrole)
  | inviteMember _ hr hrole _ _ _ =>
    rcases held_of_delegateRow hw hr h hbefore with hheld | ⟨hmem, -⟩
    · exact .inl hheld
    · rw [hrole] at hmem
      simp [DB.roleCaps, Resolver.realmCaps] at hmem
  | updateMemberPermissions _ _ hrow =>
    cases hg : db.direct s.id u with
    | none =>
      -- There is no row to update, so nothing has changed.
      rw [hg] at hw
      refine absurd ?_ hbefore
      rw [hw.grantedCaps_delete rfl rfl, List.mem_append] at h
      rw [DB.mem_grantedCaps, DB.onServer, hg, Option.filter_none, Option.none_or]
      refine h.imp_left fun h ↦ ?_
      split at h
      · simp [DB.optCaps] at h
      · exact h
    | some g =>
      rw [hg] at hw hrow
      rcases held_of_delegateRow hw (hrow g rfl) h hbefore with hheld | ⟨hrole, hdeny⟩
      · exact .inl hheld
      · refine .inr ⟨_, g, rfl, rfl, fun hrealm ↦ hbefore ?_, hrole, hdeny⟩
        -- In the owner's realm the role counted before the update as well.
        rw [DB.mem_grantedCaps, DB.onServer, hg, Option.filter_some, if_pos (by simpa using hrealm)]
        exact .inl (DB.mem_rowCaps.mpr ⟨.inl hrole, hdeny⟩)
  | revokeGrant hinh | removeMember hinh => exact absurd (granted_of_removed hw hinh h) hbefore

/-- The row a delegate writes does not flow down. -/
theorem Delegated.not_inherit
    (hd : Delegated env db idn s u call row) : ∀ r ∈ row, r.inherit = false := by
  intro r hr
  cases hd with
  | assignGrant _ hrow _ _ _ _ | inviteMember _ hrow _ _ _ _ =>
    exact Option.some.inj hr ▸ hrow.inherit
  | updateMemberPermissions _ _ hrow =>
    obtain ⟨g, hg, rfl⟩ := Option.map_eq_some_iff.mp hr
    exact (hrow g hg).inherit
  | revokeGrant _ => cases hr
  | removeMember _ => cases hr

/-! ## The law, and exactly when it fails -/

/-- An account-wide row reaches the caller's own servers only. -/
theorem noEscalation_of_account
    (hw : Writes db db' (.account idn.userID, u) row) : NoEscalation env db db' idn u := by
  rintro m rfl sid s hs capID hcap hafter hbefore
  by_cases hown : s.ownerID = idn.userID
  · exact held_of_owner hs hown hcap
  · refine absurd (held_mono (hw.getServerByID sid ▸ hs) hs hcap ?_ hafter) hbefore
    rw [hw.grantedCaps_of_account hown]
    exact id

/-- The row that a delegate has updated is in the owner's realm, so its role counts. -/
theorem held_of_revived {body : Option (Option Perms)} (hs : db.getServerByID s.id = .ok s)
    (hd : Delegated env db idn s u (.updateMemberPermissions s.id u body) row)
    (hw : Writes db db' (.server s.id, u) row) {g : InviteRow} (hg : db.direct s.id u = some g)
    (hcap : Delegable capID) (hrole : capID ∈ db.roleCaps s.ownerID g.serverRoleID)
    (hdeny : capID ∉ g.capOverrides.deny) : env.Held db' ⟨u, "", false⟩ s.id capID := by
  cases hd with
  | updateMemberPermissions _ _ hrow =>
    rw [hg] at hw hrow
    have hr := hrow g rfl
    have hmem : capID ∈ db'.grantedCaps s u := by
      rw [hw.grantedCaps_self rfl rfl (.inr (by rw [hr.owner]; rfl)), List.mem_append, DB.mem_rowCaps]
      exact .inl ⟨.inl hrole, hdeny⟩
    exact (held_iff (hw.getServerByID s.id ▸ hs) hcap).mpr
      (.inr ⟨DB.user_ne_of_direct hg, .inr (.inr hmem)⟩)

/-- A delegate's request that revives no stale role keeps the law. -/
theorem noEscalation_of_delegated
    (hs : db.getServerByID s.id = .ok s) (hd : Delegated env db idn s u call row)
    (hw : Writes db db' (.server s.id, u) row) (hnot : ¬ RevivesStaleRole env db idn call) :
    NoEscalation env db db' idn u := by
  rintro m rfl sid T hT capID hcap hafter hbefore
  have hkept : ∀ himp : capID ∈ db'.grantedCaps T m.userID → capID ∈ db.grantedCaps T m.userID,
      env.Held db idn sid capID := fun himp ↦
    absurd (held_mono (hw.getServerByID sid ▸ hT) hT hcap himp hafter) hbefore
  obtain ⟨-, -, -, hTid, -⟩ := DB.getServerByID_ok hT
  subst hTid
  by_cases hTs : T.id = s.id
  · rw [hTs, hs] at hT
    cases hT
    by_contra hcaller
    refine hcaller (hkept fun hmem ↦ ?_)
    by_contra hmem'
    rcases delegated_gain hd hw hmem hmem' with hheld | ⟨body, g, rfl, hg, hstale, hrole, hdeny⟩
    · exact hcaller hheld
    · refine hnot ⟨_, _, body, _, g, rfl, hs, hg, hstale, capID, hcap, hrole, hdeny, ?_, hcaller⟩
      -- A non-admin with the member's id holds no more than the member.
      intro hplain
      rw [held_iff hs hcap] at hplain hbefore
      rcases hplain with hadm | hplain
      · simp [Hooks.adminOn] at hadm
      · exact hbefore (.inr hplain)
  · exact hkept (granted_of_behind hw hd.not_inherit hTs)

/-- **No privilege escalation through member management, exactly when no stale role is revived.**  A
request that succeeds, by a caller who is neither an admin nor the owner of the server it is about,
gives the affected member nothing on any server that the caller did not hold there — unless it updates
the permissions on a row of another realm whose role comes back to life with more than that. -/
theorem noEscalation_iff (env : Env) (db db' : DB) (idn : Identity) (call : Call) (u : String)
    (hadmin : idn.isAdmin = false)
    (howner : ∀ sid s, call.serverID = some sid → db.getServerByID sid = .ok s →
      s.ownerID ≠ idn.userID)
    (hok : env.perform db idn call = .ok db') (hu : env.affected db call = some u) :
    NoEscalation env db db' idn u ↔ ¬ RevivesStaleRole env db idn call := by
  obtain ⟨u', hu', hwrote⟩ := perform_wrote hadmin hok
  obtain rfl : u' = u := Option.some.inj (hu'.symm.trans hu)
  rcases hwrote with ⟨hnone, row, hw⟩ | ⟨sid, s, row, hsid, hs, hw, howns | hd⟩
  · refine ⟨?_, fun _ ↦ noEscalation_of_account hw⟩
    rintro - ⟨sid, u, body, s, g, rfl, -⟩
    cases hnone
  · exact absurd howns (howner sid s hsid hs)
  · obtain ⟨-, -, -, hid, -⟩ := DB.getServerByID_ok hs
    subst hid
    refine ⟨?_, noEscalation_of_delegated hs hd hw⟩
    rintro hlaw ⟨sid, _, body, s', g, rfl, hs', hg, -, capID, hcap, hrole, hdeny, hmember, hcaller⟩
    cases hsid
    cases hu
    cases hs.symm.trans hs'
    exact hcaller (hlaw ⟨u', "", false⟩ rfl s.id s hs capID hcap
      (held_of_revived hs hd hw hg hcap hrole hdeny) hmember)

/-- A deployment without demo servers and customer hardware. -/
def standardEnv : Env := ⟨⟨none, none⟩, true, true, none, id, fun _ ↦ true⟩

/-- A server that was moved to another owner and back.  The friend's row was last written while it was
away, and still carries the owner's role; a helper may manage members and nothing else. -/
def movedBack : DB where
  users := [⟨"owner", "Owner", none, ⟨[], []⟩⟩, ⟨"former", "Former", none, ⟨[], []⟩⟩,
    ⟨"helper", "Helper", none, ⟨[], []⟩⟩, ⟨"friend", "Friend", none, ⟨[], []⟩⟩,
    ⟨"guest", "Guest", none, ⟨[], []⟩⟩]
  nodes := [⟨1, none⟩]
  servers := [⟨1, "server", 1, "owner", none⟩]
  panelRoles := []
  roles := [⟨1, "owner", ["files.delete", "server.delete"]⟩]
  invites := [⟨some 1, "friend", some "former", some 1, ⟨[], []⟩, false⟩,
    ⟨some 1, "helper", some "owner", none, ⟨["members.read", "members.write", "members.delete"], []⟩,
      false⟩]
  permissionsMode := none
  user_id_ne := by decide
  server_id_ne := by decide
  server_unique := by decide
  server_node := by decide
  server_owner := by decide
  role_unique := by decide
  invite_user := by decide
  invite_unique := by decide

theorem movedBack_owner (sid : Nat) (s : Server) (hs : movedBack.getServerByID sid = .ok s) :
    s.ownerID = "owner" := by
  obtain ⟨row, hmem, -, -, -, howner, -⟩ := DB.getServerByID_ok hs
  rw [howner, List.mem_singleton.mp hmem]

/-- The helper invites a guest with the rights the helper has. -/
theorem noEscalation_iff_invite : ∃ db', standardEnv.perform movedBack ⟨"helper", "Helper", false⟩
      (.inviteMember 1 (some ⟨"Guest", some [("members", true), ("files", true)]⟩)) = .ok db' ∧
    NoEscalation standardEnv movedBack db' ⟨"helper", "Helper", false⟩ "guest" := by
  refine ⟨_, rfl, (noEscalation_iff standardEnv movedBack _ ⟨"helper", "Helper", false⟩
    (.inviteMember 1 (some ⟨"Guest", some [("members", true), ("files", true)]⟩)) "guest" rfl ?_ rfl
    rfl).mpr ?_⟩
  · intro sid s _ hs
    rw [movedBack_owner sid s hs]
    decide
  · rintro ⟨_, _, _, _, _, hcall, -⟩
    cases hcall

/-- The helper sends the friend an empty permission set, and the friend may delete the server. -/
theorem not_noEscalation_movedBack :
    ∃ db', standardEnv.perform movedBack ⟨"helper", "Helper", false⟩
      (.updateMemberPermissions 1 "friend" (some (some []))) = .ok db' ∧
    ¬ NoEscalation standardEnv movedBack db' ⟨"helper", "Helper", false⟩ "friend" := by
  refine ⟨_, rfl, fun hlaw ↦ ?_⟩
  exact absurd (hlaw ⟨"friend", "Friend", false⟩ rfl 1 _ rfl "server.delete" (by decide) (by decide)
    (by decide)) (by decide)

end Dylaris.Members
