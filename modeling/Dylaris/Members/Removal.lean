import Dylaris.Authz.Listed
import Dylaris.Members.Escalation

/-!
# Taking access away needs `members.delete`

A delegate with `members.write` alone may add members but not take anything from one.  The handlers
check this on the row they are about to overwrite: `AssignGrant` and `UpdateMemberPermissions` refuse
to replace an existing direct grant without `members.delete`, and `InviteMember` does not overwrite at
all.

A direct row is not all there is to take, though.  What a member inherits from the proxy is shadowed by
any direct row on the server, and it goes when the row on the proxy stops flowing down — and a
delegate's row never flows down.  The first can be done with `members.write` on the server, the second
with rights on the proxy alone.  `keepsAccess_iff` says that this is all.
-/

set_option autoImplicit false

namespace Dylaris.Members

open Authz

variable {env : Env} {db db' : DB} {idn : Identity}

/-- Nobody but the caller has lost a capability on the server. -/
def KeepsAccess (env : Env) (db db' : DB) (idn : Identity) (sid : Nat) : Prop :=
  ∀ m : Identity, m.userID ≠ idn.userID → ∀ capID, Delegable capID →
    env.Held db m sid capID → env.Held db' m sid capID

/-- The requests that write a member's access. -/
def Call.Assigns : Call → Prop
  | .assignGrant _ | .inviteMember _ _ | .updateMemberPermissions _ _ _ => True
  | .revokeGrant _ | .removeMember _ _ => False

/-- The request asks for the capability on the server: in the role or the overrides of a grant, or by
a key of an invite that the caller may hand on. -/
def Env.Asks (env : Env) (db : DB) (idn : Identity) (x : Server) (capID : String) : Call → Prop
  | .assignGrant (some req) => req.serverID = some x.id ∧
    (capID ∈ db.roleCaps x.ownerID req.serverRoleID ∨ capID ∈ req.grantCaps) ∧ capID ∉ req.denyCaps
  | .inviteMember sid (some ⟨_, some p⟩) => sid = x.id ∧ ∃ key tp, p.on key = true ∧
    callerMayDelegate (env.resolve db idn x.id) key = true ∧ onlyTab key = some tp ∧
    capID ∈ mapLegacyInviteCaps tp
  | _ => False

/-- The request is about the server or about its proxy, and the member has no direct grant of the
owner's realm on the server. -/
def ReachesInherited (db : DB) (call : Call) (x : Server) (u : String) : Prop :=
  (call.serverID = some x.id ∨ call.serverID ≠ none ∧ call.serverID = x.proxyID) ∧
    ((db.direct x.id u).filter fun g ↦ g.InRealm x.ownerID) = none

/-- The request reaches what the member, who is not the owner, inherits on the server, and among that
is a capability which neither a demo nor the account-wide grant gives and the request does not ask
for. -/
def TakesInherited (env : Env) (db : DB) (idn : Identity) (call : Call) (x : Server) (u : String) :
    Prop :=
  ReachesInherited db call x u ∧ x.ownerID ≠ u ∧
    ∃ g capID, db.inherited x u = some g ∧ Delegable capID ∧ capID ∈ db.rowCaps x.ownerID g ∧
      env.hooks.demo x capID = false ∧
      capID ∉ db.optCaps x.ownerID (db.account x.ownerID u) ∧ ¬ env.Asks db idn x capID call

/-! ## What is lost -/

variable {s x : Server}

/-- Nothing is inherited from a proxy of another owner. -/
theorem inherited_eq_none_of_owner {p : Nat} (hs : db.getServerByID p = .ok s)
    (hp : x.proxyID = some p) (howner : s.ownerID ≠ x.ownerID) (u : String) :
    db.inherited x u = none := by
  rw [DB.inherited, hp, Option.bind_some, if_neg]
  simp [db.ownerOf_eq, hs, Except.toOption, howner]

variable {sid : Nat} {u : String} {row : Option InviteRow}

/-- A write on a server of another owner reaches nothing behind it. -/
theorem grantedCaps_of_owner_ne
    (hw : Writes db db' (.server sid, u) row) (hs : db.getServerByID sid = .ok s)
    (hx : x.id ≠ sid) (howner : s.ownerID ≠ x.ownerID) : db'.grantedCaps x u = db.grantedCaps x u := by
  by_cases hp : x.proxyID = some sid
  · have hs' : db'.getServerByID sid = .ok s := (hw.getServerByID sid).trans hs
    have hne : (.server x.id, u) ≠ ((.server sid, u) : Place × String) := by simpa using hx
    simp only [DB.grantedCaps, DB.onServer, hw.direct, if_neg hne, hw.account_of_server, hw.optCaps,
      inherited_eq_none_of_owner hs hp howner, inherited_eq_none_of_owner hs' hp howner]
  · refine hw.grantedCaps_eq (by simpa using hx) (fun p hproxy heq ↦ hp ?_) (by simp)
    rw [hproxy, Place.server.inj (Prod.mk.inj heq).1]

variable {call : Call}

/-- A delegate without `members.delete` on the server puts a row only where there was none, and it
gives what the request asks for. -/
theorem delegated_self (hd : Delegated env db idn x u call row) (hcall : call.Assigns)
    (hserver : call.serverID = some x.id) (hlack : ¬ env.Held db idn x.id "members.delete") :
    db.direct x.id u = none ∧ ∃ r, row = some r ∧ r.InRealm x.ownerID ∧
      ∀ capID, capID ∈ db.rowCaps x.ownerID r ↔ env.Asks db idn x capID call := by
  cases hd with
  | assignGrant _ hr hrole hov _ hreplace =>
    refine ⟨hreplace.resolve_right hlack, _, rfl, .inr (by rw [hr.owner]; rfl), fun capID ↦ ?_⟩
    rw [DB.mem_rowCaps, hov, hrole]
    exact (and_iff_right hserver).symm
  | inviteMember _ hr hrole hov hcapped hfree =>
    refine ⟨hfree, _, rfl, .inr (by rw [hr.owner]; rfl), fun capID ↦ ?_⟩
    rw [DB.mem_rowCaps, hov, hrole]
    simp [Env.Asks, DB.roleCaps, Resolver.realmCaps, mem_mapLegacyInviteCaps_tabs, hcapped,
      and_assoc]
  | updateMemberPermissions _ hdelete _ => exact absurd hdelete hlack
  | revokeGrant _ => exact absurd hcall id
  | removeMember _ => exact absurd hcall id

theorem Delegated.user_ne
    (hd : Delegated env db idn s u call row) (hcall : call.Assigns) : u ≠ idn.userID := by
  cases hd with
  | assignGrant hu _ _ _ _ _ => exact hu
  | inviteMember hu _ _ _ _ => exact hu
  | updateMemberPermissions hu _ _ => exact hu
  | revokeGrant _ => exact absurd hcall id
  | removeMember _ => exact absurd hcall id

/-- Away from the server a request asks for nothing. -/
theorem not_asks_of_ne (h : call.serverID ≠ some x.id) (capID : String) :
    ¬ env.Asks db idn x capID call := by
  match call with
  | .assignGrant (some req) => exact fun hasks ↦ h hasks.1
  | .inviteMember sid (some ⟨_, some p⟩) => exact fun hasks ↦ h (congrArg some hasks.1)
  | .assignGrant none => exact id
  | .inviteMember _ none => exact id
  | .inviteMember _ (some ⟨_, none⟩) => exact id
  | .updateMemberPermissions _ _ _ => exact id
  | .revokeGrant _ => exact id
  | .removeMember _ _ => exact id

/-- **What a delegate's request leaves of a member's capabilities on a server**: all of them, unless
it reaches what is inherited there, which is then replaced by what the request asks for. -/
theorem delegated_grantedCaps (hd : Delegated env db idn s u call row) (hcall : call.Assigns)
    (hserver : call.serverID = some s.id) (hw : Writes db db' (.server s.id, u) row)
    (hsx : s.id = x.id → s = x) (hlack : ¬ env.Held db idn x.id "members.delete") :
    (ReachesInherited db call x u → ∀ capID, capID ∈ db'.grantedCaps x u ↔
        env.Asks db idn x capID call ∨ capID ∈ db.optCaps x.ownerID (db.account x.ownerID u)) ∧
      (¬ ReachesInherited db call x u → db'.grantedCaps x u = db.grantedCaps x u) := by
  by_cases hx : s.id = x.id
  · obtain rfl := hsx hx
    obtain ⟨hfree, r, rfl, hrealm, hasked⟩ := delegated_self hd hcall hserver hlack
    refine ⟨fun _ capID ↦ ?_, fun hnot ↦ absurd ⟨.inl hserver, by simp [hfree]⟩ hnot⟩
    rw [hw.grantedCaps_self rfl rfl hrealm, List.mem_append, hasked]
  · have hbehind := hw.grantedCaps_behind hd.not_inherit (Ne.symm hx)
    have hself : call.serverID ≠ some x.id := by
      rw [hserver]
      simpa using hx
    constructor
    · rintro ⟨hreach, hdirect⟩ capID
      have hp : x.proxyID = some s.id := (hreach.resolve_left hself).2.symm.trans hserver
      rw [hbehind, hdirect, if_pos hp]
      simp [not_asks_of_ne hself, DB.optCaps]
    · intro hnot
      rw [hbehind, DB.grantedCaps, DB.onServer]
      by_cases hp : x.proxyID = some s.id
      · cases hdirect : (db.direct x.id u).filter fun g ↦ g.InRealm x.ownerID with
        | some g => rfl -- the direct row shadows the proxy, before and after
        | none => exact absurd ⟨.inr ⟨by simp [hserver], by rw [hserver, hp]⟩, hdirect⟩ hnot
      · rw [if_neg hp]

theorem keepsAccess_of_eq {k : Place × String} (hw : Writes db db' k row)
    (hx : db.getServerByID sid = .ok x)
    (h : ∀ v, db'.grantedCaps x v = db.grantedCaps x v) : KeepsAccess env db db' idn sid := by
  intro m _ capID hcap hheld
  refine held_mono hx (hw.getServerByID sid ▸ hx) hcap ?_ hheld
  rw [h]
  exact id

/-- Where the grants give something else afterwards, access is kept exactly when nothing inherited is
taken. -/
theorem keepsAccess_iff_of_reaches {place : Place} (hw : Writes db db' (place, u) row)
    (hx : db.getServerByID sid = .ok x) (hu : u ≠ idn.userID) (hreach : ReachesInherited db call x u)
    (hcaps : ∀ capID, capID ∈ db'.grantedCaps x u ↔
      env.Asks db idn x capID call ∨ capID ∈ db.optCaps x.ownerID (db.account x.ownerID u)) :
    KeepsAccess env db db' idn sid ↔ ¬ TakesInherited env db idn call x u := by
  have hx' : db'.getServerByID sid = .ok x := hw.getServerByID sid ▸ hx
  have hbefore : db.onServer x u = db.inherited x u := by rw [DB.onServer, hreach.2, Option.none_or]
  constructor
  · rintro hkeep ⟨-, howner, g, capID, hg, hcap, hmem, hdemo, hacct, hasked⟩
    have hne : u ≠ "" := by
      obtain ⟨p, -, hp⟩ := Option.bind_eq_some_iff.mp hg
      split at hp
      · exact DB.user_ne_of_direct (Option.filter_eq_some_iff.mp hp).1
      · cases hp
    have hheld : env.Held db ⟨u, "", false⟩ sid capID := by
      refine (held_iff hx hcap).mpr (.inr ⟨hne, .inr (.inr ?_)⟩)
      rw [DB.mem_grantedCaps, hbefore, hg]
      exact .inl hmem
    rcases (held_iff hx' hcap).mp (hkeep ⟨u, "", false⟩ hu capID hcap hheld) with
      hadm | ⟨-, hdemo' | howner' | hgranted⟩
    · simp [Hooks.adminOn] at hadm
    · rw [hdemo] at hdemo'
      cases hdemo'
    · exact howner howner'
    · exact ((hcaps capID).mp hgranted).elim hasked hacct
  · intro hnot m _ capID hcap hheld
    by_cases hm : m.userID = u
    · subst hm
      by_contra hlost
      rw [held_iff hx hcap] at hheld
      rw [held_iff hx' hcap, Holds, not_or] at hlost
      rcases hheld with hadm | ⟨hne, hrest⟩
      · exact hlost.1 hadm
      · have hlost' := fun h ↦ hlost.2 ⟨hne, h⟩
        rcases hrest with hdemo | howner | hgranted
        · exact hlost' (.inl hdemo)
        · exact hlost' (.inr (.inl howner))
        · rw [DB.mem_grantedCaps, hbefore] at hgranted
          have hkept := fun h ↦ hlost' (.inr (.inr ((hcaps capID).mpr h)))
          rcases hgranted with hinh | hacct
          · cases hg : db.inherited x m.userID with
            | none => simp [hg, DB.optCaps] at hinh
            | some g =>
              rw [hg] at hinh
              refine hnot ⟨hreach, fun h ↦ hlost' (.inr (.inl h)), g, capID, hg, hcap, hinh, ?_,
                fun h ↦ hkept (.inr h), fun h ↦ hkept (.inl h)⟩
              exact Bool.eq_false_iff.mpr fun h ↦ hlost' (.inl h)
          · exact hkept (.inr hacct)
    · refine held_mono hx hx' hcap ?_ hheld
      rw [hw.grantedCaps_of_ne hm]
      exact id

/-! ## The law, and exactly when it fails -/

/-- **Taking access away needs `members.delete`, exactly when nothing inherited is taken.**  A caller
who is neither an admin nor the owner of the server and does not hold `members.delete` there makes no
request, on that server or on any other, that costs another user a capability on it — unless the
request takes away what that user inherits from the proxy. -/
theorem keepsAccess_iff (env : Env) (db db' : DB) (idn : Identity) (call : Call) (u : String)
    (sid : Nat) (x : Server) (hx : db.getServerByID sid = .ok x) (hadmin : idn.isAdmin = false)
    (howner : x.ownerID ≠ idn.userID) (hlack : ¬ env.Held db idn sid "members.delete")
    (hcall : call.Assigns) (hok : env.perform db idn call = .ok db')
    (hu : env.affected db call = some u) :
    KeepsAccess env db db' idn sid ↔ ¬ TakesInherited env db idn call x u := by
  obtain ⟨u', hu', hwrote⟩ := perform_wrote hadmin hok
  obtain rfl : u' = u := Option.some.inj (hu'.symm.trans hu)
  obtain ⟨-, -, -, hid, -⟩ := DB.getServerByID_ok hx
  subst hid
  -- Where the grants are the same afterwards nothing is reached, and nothing is lost.
  have hsame : ∀ {k : Place × String} {row : Option InviteRow}, Writes db db' k row →
      (∀ v, db'.grantedCaps x v = db.grantedCaps x v) → ¬ TakesInherited env db idn call x u' →
      (KeepsAccess env db db' idn x.id ↔ ¬ TakesInherited env db idn call x u') :=
    fun hw h hnot ↦ ⟨fun _ ↦ hnot, fun _ ↦ keepsAccess_of_eq hw hx h⟩
  rcases hwrote with ⟨hnone, row, hw⟩ | ⟨sid, s, row, hsid, hs, hw, howns | hd⟩
  · refine hsame hw (hw.grantedCaps_of_account howner) ?_
    rintro ⟨⟨hreach, -⟩, -⟩
    simp [hnone] at hreach
  · have hne : s.ownerID ≠ x.ownerID := fun h ↦ howner (h.symm.trans howns)
    have hxs : x.id ≠ sid := by
      rintro rfl
      cases hs.symm.trans hx
      exact hne rfl
    refine hsame hw (fun v ↦ ?_) ?_
    · by_cases hv : v = u'
      · rw [hv]
        exact grantedCaps_of_owner_ne hw hs hxs hne
      · exact hw.grantedCaps_of_ne hv x
    · rintro ⟨⟨hself | ⟨-, hproxy⟩, -⟩, -, g, capID, hg, -⟩
      · exact hxs (Option.some.inj (hself.symm.trans hsid))
      · rw [inherited_eq_none_of_owner hs (hproxy.symm.trans hsid) hne] at hg
        cases hg
  · obtain ⟨-, -, -, hsid', -⟩ := DB.getServerByID_ok hs
    subst hsid'
    have hsx : s.id = x.id → s = x := by
      intro heq
      rw [heq, hx] at hs
      cases hs
      rfl
    obtain ⟨hreached, hunreached⟩ := delegated_grantedCaps hd hcall hsid hw hsx hlack
    by_cases hreach : ReachesInherited db call x u'
    · exact keepsAccess_iff_of_reaches hw hx (hd.user_ne hcall) hreach (hreached hreach)
    refine hsame hw (fun v ↦ ?_) fun htakes ↦ hreach htakes.1
    by_cases hv : v = u'
    · rw [hv]
      exact hunreached hreach
    · exact hw.grantedCaps_of_ne hv x

/-- `sharedProxy` with a guest, and a helper who may invite on the backend. -/
def staffedProxy : DB :=
  { sharedProxy with
    users := sharedProxy.users ++ [⟨"guest", "Guest", none, ⟨[], []⟩⟩]
    invites := sharedProxy.invites ++
      [⟨some 2, "helper", some "owner", none, ⟨["members.write"], []⟩, false⟩]
    user_id_ne := by decide
    server_owner := by decide
    invite_user := by decide
    invite_unique := by decide }

/-- The helper invites a guest, who inherits nothing, and nobody loses anything. -/
theorem keepsAccess_iff_guest : ∃ db', standardEnv.perform staffedProxy ⟨"helper", "Helper", false⟩
      (.inviteMember 2 (some ⟨"Guest", some []⟩)) = .ok db' ∧
    KeepsAccess standardEnv staffedProxy db' ⟨"helper", "Helper", false⟩ 2 := by
  refine ⟨_, rfl, (keepsAccess_iff standardEnv staffedProxy _ ⟨"helper", "Helper", false⟩
    (.inviteMember 2 (some ⟨"Guest", some []⟩)) "guest" 2 sharedProxy.backend rfl rfl (by decide)
    (by decide) trivial rfl rfl).mpr ?_⟩
  rintro ⟨-, -, g, capID, hg, -⟩
  have hnone : staffedProxy.inherited sharedProxy.backend "guest" = none := by decide
  cases hg

/-- The helper invites the friend with nothing, and the friend, who had the console of the backend
through the proxy, has lost it. -/
theorem not_keepsAccess_friend :
    ¬ standardEnv.Held staffedProxy ⟨"helper", "Helper", false⟩ 2 "members.delete" ∧
    ∃ db', standardEnv.perform staffedProxy ⟨"helper", "Helper", false⟩
      (.inviteMember 2 (some ⟨"Friend", some []⟩)) = .ok db' ∧
    ¬ KeepsAccess standardEnv staffedProxy db' ⟨"helper", "Helper", false⟩ 2 := by
  refine ⟨by decide, _, rfl, fun hkeep ↦ ?_⟩
  exact absurd (hkeep ⟨"friend", "Friend", false⟩ (by decide) "console.send" (by decide) (by decide))
    (by decide)

end Dylaris.Members
