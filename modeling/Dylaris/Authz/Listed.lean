import Dylaris.Authz.Effective

/-!
# The list path

`ResolveListed` answers for every server of a list with the caller's grants read once.  Its reads
differ from the ones `Resolve` makes — one scan of all the caller's rows, sorted into two maps in
memory, and a proxy's row taken from the list where it is there — but they meet the same
specification, `ReadsTables`, as long as the listed rows are the stored ones.  So the two paths build
the same resolution.
-/

set_option autoImplicit false

namespace Dylaris.Authz

open Table

variable (db : DB) (hooks : Hooks) (pair list : Bool)

/-- The result map holds what was computed for the last row of each id. -/
theorem Resolver.collect_eq (f : Server → Resolution) (servers : List Server) (k : Nat) :
    Resolver.collect f servers k
      = (index (fun s : Server ↦ some s.id) servers k).map f := by
  induction servers using List.reverseRecOn with
  | nil => rfl
  | append_singleton rest s ih =>
    rw [Resolver.collect, List.foldl_append, index_append_singleton]
    by_cases hk : k = s.id
    · simp [hk]
    · simpa [Resolver.collect, Function.update_of_ne hk] using ih

/-- A list of stored rows, one of which has id `s.id`, is filled in for `s` from `s` itself. -/
theorem Resolver.collect_of_mem {f : Server → Resolution} {servers : List Server} {s : Server}
    (hrows : ∀ s ∈ servers, db.getServerByID s.id = .ok s) (hs : s ∈ servers) :
    Resolver.collect f servers s.id = some (f s) := by
  rw [Resolver.collect_eq]
  cases hi : index (fun s : Server ↦ some s.id) servers s.id with
  | none => exact absurd hi (index_ne_none hs rfl)
  | some s' =>
    obtain ⟨hmem, hid⟩ := mem_of_index hi
    -- Both rows are what the store has under their common id.
    have heq : db.getServerByID s'.id = .ok s := by
      rw [Option.some.inj hid]
      exact hrows s hs
    rw [hrows s' hmem] at heq
    cases heq
    rfl

/-- The prefetched reads answer from the tables. -/
theorem listedReads_readsTables {servers : List Server}
    (hrows : ∀ s ∈ servers, db.getServerByID s.id = .ok s) (u : String) :
    ReadsTables db u ((db.resolver hooks pair list).listedReads u
      ((db.invites.filter fun g ↦ g.userID = u).map db.scanGrantWithRole) servers) := by
  set rows := (db.invites.filter fun g ↦ g.userID = u).map db.scanGrantWithRole
  have hdirect : ∀ sid, index (fun g : ServerGrant ↦ g.serverID) rows sid
      = (db.direct sid u).map db.scanGrantWithRole := by
    intro sid
    refine index_view db.invite_unique fun g ↦ ?_
    rw [InviteRow.key_eq_server]
    simp [DB.scanGrantWithRole, DB.scanGrant]
  have haccount : ∀ owner, owner ≠ "" → index (fun g : ServerGrant ↦
      if g.serverID = none then some g.ownerUserID else none) rows owner
        = (db.account owner u).map db.scanGrantWithRole := by
    intro owner howner
    refine index_view db.invite_unique fun g ↦ ?_
    rw [InviteRow.key_eq_account]
    -- The source keys a row without an owner under the empty string, which is nobody's id.
    cases hs : g.serverID <;> cases ho : g.ownerUserID <;>
      simp [DB.scanGrantWithRole, DB.scanGrant, hs, ho, howner.symm]
  refine ⟨fun sid owner howner ↦ ⟨_, .inr rfl, ?_⟩, fun sid ↦ ⟨_, .inr rfl, hdirect sid⟩, ?_⟩
  · exact Prod.ext (hdirect sid) (haccount owner howner)
  intro sid
  change (index (fun s : Server ↦ some s.id) servers sid).or
    (db.getServerByID sid).toOption = _
  cases hi : index (fun s : Server ↦ some s.id) servers sid with
  | none => rfl
  | some s =>
    obtain ⟨hmem, hid⟩ := mem_of_index hi
    rw [← Option.some.inj hid, hrows s hmem]
    rfl

/-- `Resolve` of a non-admin with a user id, on a row the tables have, read off the rows. -/
theorem resolve_eq_resolveRows {id : Identity} (hadmin : id.isAdmin = false)
    (hu : id.userID ≠ "") {s : Server} (hs : db.getServerByID s.id = .ok s) :
    (db.resolver hooks pair list).resolve id s.id = db.resolveRows hooks
      { Resolution.empty with
        panelCaps := (db.resolver hooks pair list).panelLoad id.userID, server := some s } id s := by
  have hne := DB.id_ne_of_getServerByID hs
  have howner := DB.ownerID_ne_of_getServerByID hs
  have hread : (db.resolver hooks pair list).store.getServerByID s.id = .ok s := hs
  rw [← (storeGrantReads_readsTables db hooks pair list id.userID).resolveOnServer hooks pair list
    _ howner]
  simp [Resolver.resolve, Resolver.resolveUser, hadmin, hu, hne, hread, Resolution.empty]

/-- **The list path and the single-server path agree**: on a list of stored rows, every server gets a
resolution, and it answers every check as `Resolve` for that server does. -/
theorem hasCap_resolveListed (id : Identity) (hadmin : id.isAdmin = false)
    (servers : List Server) (hrows : ∀ s ∈ servers, db.getServerByID s.id = .ok s)
    (s : Server) (hs : s ∈ servers) (capID : String) :
    ((db.resolver hooks pair list).resolveListed id servers s.id).map (·.hasCap capID)
      = some (((db.resolver hooks pair list).resolve id s.id).hasCap capID) := by
  -- Without the bulk read, and for nobody, the list path calls `Resolve`.
  have hsingle : (Resolver.collect (fun srv ↦ (db.resolver hooks pair list).resolve id srv.id)
      servers s.id).map (·.hasCap capID)
        = some (((db.resolver hooks pair list).resolve id s.id).hasCap capID) := by
    rw [Resolver.collect_of_mem db hrows hs]
    rfl
  rw [Resolver.resolveListed]
  cases list with
  | false => exact hsingle
  | true =>
    by_cases hu : id.userID = ""
    · simpa [DB.resolver, DB.authzStore, hu] using hsingle
    simp only [DB.resolver, DB.authzStore, if_true, DB.listGrantsForUser, hadmin, hu, or_self,
      Bool.false_eq_true, if_false]
    rw [Resolver.collect_of_mem db hrows hs, Option.map_some]
    have hreads := (listedReads_readsTables db hooks pair true hrows id.userID).resolveOnServer
      hooks pair true { Resolution.empty with
        panelCaps := (db.resolver hooks pair true).panelLoad id.userID, server := some s }
      (DB.ownerID_ne_of_getServerByID (hrows s hs))
    have hresolve := resolve_eq_resolveRows db hooks pair true hadmin hu (hrows s hs)
    exact congrArg (fun res : Resolution ↦ some (res.hasCap capID)) (hreads.trans hresolve.symm)

/-- An owner's realm: a proxy and the server behind it, and a friend who may read and operate the
backend because the grant on the proxy flows down. -/
def sharedProxy : DB where
  users := [⟨"owner", "Owner", none, ⟨[], []⟩⟩, ⟨"friend", "Friend", none, ⟨[], []⟩⟩,
    ⟨"helper", "Helper", none, ⟨[], []⟩⟩]
  nodes := [⟨1, none⟩]
  servers := [⟨1, "proxy", 1, "owner", none⟩, ⟨2, "backend", 1, "owner", some 1⟩]
  panelRoles := []
  roles := [⟨1, "owner", ["overview.read", "console.send"]⟩]
  invites := [⟨some 1, "friend", some "owner", some 1, ⟨["files.read"], []⟩, true⟩]
  permissionsMode := none
  user_id_ne := by decide
  server_id_ne := by decide
  server_unique := by decide
  server_node := by decide
  server_owner := by decide
  role_unique := by decide
  invite_user := by decide
  invite_unique := by decide

/-- The rows of `sharedProxy` as they are read. -/
def sharedProxy.proxy : Server := ⟨1, "proxy", 1, none, true, "owner", none⟩

@[inherit_doc sharedProxy.proxy]
def sharedProxy.backend : Server := ⟨2, "backend", 1, none, true, "owner", some 1⟩

theorem hasCap_resolveListed_sharedProxy :
    ((sharedProxy.resolver ⟨none, none⟩ true true).resolveListed ⟨"friend", "Friend", false⟩
      [sharedProxy.proxy, sharedProxy.backend] 2).map (·.hasCap "console.send") = some true :=
  (hasCap_resolveListed sharedProxy ⟨none, none⟩ true true ⟨"friend", "Friend", false⟩ rfl
    [sharedProxy.proxy, sharedProxy.backend]
    (by
      intro s hs
      rcases List.mem_pair.mp hs with rfl | rfl <;> rfl)
    sharedProxy.backend (by simp) "console.send").trans (by decide)

theorem resolver_getServerByID (db : DB) (hooks : Hooks) (pair list : Bool) :
    (db.resolver hooks pair list).store.getServerByID = db.getServerByID := rfl

theorem resolver_foreignNode (db : DB) (hooks : Hooks) (pair list : Bool) :
    (db.resolver hooks pair list).foreignNode = hooks.foreignNode := rfl

theorem resolveUser_eq (db : DB) (hooks : Hooks) (pair list pair' list' : Bool)
    {res : Resolution} (id : Identity)
    (sid : Nat) (hserver : ∀ s, res.server = some s → db.getServerByID s.id = .ok s) :
    (db.resolver hooks pair list).resolveUser res id sid =
      (db.resolver hooks pair' list').resolveUser res id sid := by
  have hrows {res : Resolution} {s : Server} (hs : db.getServerByID s.id = .ok s) :
      (db.resolver hooks pair list).resolveOnServer res id s
          ((db.resolver hooks pair list).storeGrantReads id.userID) =
        (db.resolver hooks pair' list').resolveOnServer res id s
          ((db.resolver hooks pair' list').storeGrantReads id.userID) := by
    have hne := db.ownerID_ne_of_getServerByID hs
    rw [(storeGrantReads_readsTables db hooks pair list id.userID).resolveOnServer _ _ _ _ hne,
      (storeGrantReads_readsTables db hooks pair' list' id.userID).resolveOnServer _ _ _ _ hne]
  unfold Resolver.resolveUser
  split
  · rfl
  dsimp only
  split
  · rfl
  split
  · rename_i s hs
    exact hrows (hserver s (Option.filter_eq_some_iff.mp hs).1)
  · simp only [resolver_getServerByID]
    split
    · rfl
    · rename_i s hs
      obtain ⟨-, -, -, hid, -⟩ := DB.getServerByID_ok hs
      exact hrows (hid.symm ▸ hs)

/-- **One statement for both grants reads the same as two.**  Whatever the tables hold, the resolution of an
identity for a server is the same for a store that reads the grant on the server and the account-wide one
together as for a store that reads them one by one. -/
theorem resolve_eq_of_pair (db : DB) (hooks : Hooks) (pair list pair' list' : Bool) (id : Identity)
    (sid : Nat) : (db.resolver hooks pair list).resolve id sid =
      (db.resolver hooks pair' list').resolve id sid := by
  have hempty {res : Resolution} (h : res.server = none) :
      (db.resolver hooks pair list).resolveUser res id sid =
        (db.resolver hooks pair' list').resolveUser res id sid :=
    resolveUser_eq _ _ _ _ _ _ _ _ fun s hs ↦ by rw [h] at hs; cases hs
  unfold Resolver.resolve
  split
  · dsimp only
    split
    · rfl
    simp only [resolver_foreignNode]
    split
    · rfl
    · simp only [resolver_getServerByID]
      split
      · rfl
      · exact hempty rfl
      · rename_i s hs
        obtain ⟨-, -, -, hid, -⟩ := DB.getServerByID_ok hs
        split
        · exact resolveUser_eq _ _ _ _ _ _ _ _ fun s' hs' ↦ by cases hs'; exact hid.symm ▸ hs
        · rfl
  · exact hempty rfl

end Dylaris.Authz
