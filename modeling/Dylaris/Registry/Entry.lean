import Dylaris.Library.Places
import Dylaris.Registry.Steps

/-!
# Whose connection a node has

What `RegisterProved` and `Unregister` decide on is the part of a connection that the registry's own lock
guards: its node, its key, whether its stream has ended, and the connection it has replaced.  A `Roster` is
that part of all connections together with the registry's map.  The two functions are steps on rosters, no
other step of Core touches one (`step_roster`), and the results are about the roster alone.

A connection that was replaced may get the entry back.  What keeps it from coming back behind a new key is
that a connection remembers only the one it has replaced itself, so that everything registered in between
had the same key (`Current.replaced`).
-/

set_option autoImplicit false

namespace Dylaris.Registry

open List Option World Function Machine

/-! ## Rosters -/

/-- The fields of a connection that the registry's lock guards. -/
structure Login where
  nodeID : Nat
  replaced : Option ConnId
  ended : Bool
  authKey : Option (List UInt8)
deriving DecidableEq

def Conn.login (c : Conn) : Login := ⟨c.nodeID, c.replaced, c.ended, c.authKey⟩

@[ext]
structure Roster where
  logins : List Login
  entry : Nat → Option ConnId

def World.roster (w : World) : Roster := ⟨w.conns.map Conn.login, w.entry⟩

namespace Roster

variable (r : Roster)

/-- A new login takes the entry of its node, and the one it replaces forgets what it had replaced. -/
def register (node : Nat) (authKey : Option (List UInt8)) : Roster where
  logins :=
    (match r.entry node with
      | some old => r.logins.modify old fun l ↦ { l with replaced := none }
      | none => r.logins) ++ [⟨node, r.entry node, false, authKey⟩]
  entry := update r.entry node (some r.logins.length)

/-- The login that an ending one has replaced, if it gets the entry back. -/
def restores (l : Login) : Option ConnId :=
  l.replaced.filter fun prev ↦ (r.logins[prev]?).any fun p ↦
    !p.ended && p.authKey.isSome && keysEqual p.authKey l.authKey

/-- A login ends. -/
def unregister (c : ConnId) (l : Login) : Roster where
  logins := r.logins.set c { l with ended := true, replaced := none }
  entry := if r.entry l.nodeID = some c then update r.entry l.nodeID (r.restores l) else r.entry

end Roster

/-! ## Steps of Core as steps on rosters -/

theorem map_set_of_getElem? {α β : Type} {l : List α} {f : α → β} {i : Nat} {a b : α}
    (h : l[i]? = some a) (hf : f b = f a) : (l.set i b).map f = l.map f := by
  obtain ⟨hi, rfl⟩ := List.getElem?_eq_some_iff.mp h
  rw [map_set, hf, ← getElem_map f (h := by simpa using hi), set_getElem_self]

namespace World

variable {w w' : World}

@[simp] theorem roster_logins : w.roster.logins = w.conns.map Conn.login := rfl

@[simp] theorem roster_entry : w.roster.entry = w.entry := rfl

theorem roster_eq (hconns : w'.conns.map Conn.login = w.conns.map Conn.login)
    (hentry : w'.entry = w.entry) : w'.roster = w.roster := by
  rw [roster, roster, hconns, hentry]

@[simp] theorem foldl_close_entry (l : List ChanId) : (l.foldl close w).entry = w.entry := by
  induction l generalizing w with
  | nil => rfl
  | cons ch l ih => exact ih

theorem roster_setConn {c : ConnId} {conn conn' : Conn} (h : w.conns[c]? = some conn)
    (hlogin : conn'.login = conn.login) : (w.setConn c conn').roster = w.roster :=
  roster_eq (map_set_of_getElem? h hlogin) rfl

@[simp] theorem roster_forget (c : ConnId) (id : String) : (w.forget c id).roster = w.roster := by
  rw [forget]
  split
  · rename_i hconn
    exact roster_setConn hconn rfl
  · rfl

@[simp] theorem roster_close (ch : ChanId) : (w.close ch).roster = w.roster := rfl

@[simp] theorem roster_send (ch : ChanId) (m : Msg) : (w.send ch m).roster = w.roster := rfl

@[simp] theorem roster_receive (ch : ChanId) : (w.receive ch).roster = w.roster := rfl

@[simp] theorem roster_stopFlow (id : String) : (w.stopFlow id).roster = w.roster := by
  rw [stopFlow]
  split <;> rfl

@[simp] theorem roster_routeResponse (c : ConnId) (m : Msg) (expired : Bool) :
    (w.routeResponse c m expired).roster = w.roster := by
  rw [routeResponse]
  split
  · split
    · split
      · rfl
      · split
        · rw [roster_forget, roster_close]
        · rfl
    · rfl
  · rfl

@[simp] theorem roster_closeStreamingRequest (c : ConnId) (id : String) :
    (w.closeStreamingRequest c id).roster = w.roster := by
  rw [closeStreamingRequest]
  split
  · rw [roster_forget, roster_close]
  · rfl

theorem roster_awaitReply {c : ConnId} {conn : Conn} (h : w.conns[c]? = some conn) (id : String) :
    (w.awaitReply c conn id).roster = w.roster := by
  rw [awaitReply]
  split
  · rfl
  · exact roster_setConn h rfl

end World

/-- A call does not touch the roster. -/
theorem CallMove.roster {w w' : World} {t t' : Call} (h : CallMove w t w' t') : w'.roster = w.roster := by
  cases h with
  | look _ => rfl
  | receive ch _ => rfl
  | forget c id _ => exact roster_forget c id
  | stopFlow id _ => exact roster_stopFlow id
  | register hconn hpending => exact roster_setConn hconn rfl
  | registerStream hconn hpending => exact roster_setConn hconn rfl
  | list => rfl
  | fail _ => rw [roster_close, roster_forget]
  | finish => rfl
  | handOver m => rfl

namespace World

variable {w w' : World}

theorem roster_tearDown (c : ConnId) (conn conn' : Conn) :
    ((w.tearDown c conn).setConn c conn').roster =
      { w.roster with logins := w.roster.logins.set c conn'.login } := by
  simp [roster, tearDown, setConn, map_set]

theorem roster_registerProved (node : Nat) (authKey : Option (List UInt8)) :
    (w.registerProved node authKey).roster = w.roster.register node authKey := by
  cases hold : w.entry node with
  | none => simp [registerProved, Roster.register, roster, hold, Conn.login]
  | some old =>
    cases hconn : w.conns[old]? with
    | none =>
      have hmodify : ∀ f, (w.conns.map Conn.login).modify old f = w.conns.map Conn.login := fun f ↦ by
        rw [modify_eq_self]
        simpa using getElem?_eq_none_iff.mp hconn
      simp [registerProved, Roster.register, roster, hold, hconn, hmodify, Conn.login]
    | some conn =>
      have hmodify : ∀ f, (w.conns.map Conn.login).modify old f =
          (w.conns.map Conn.login).set old (f conn.login) := fun f ↦ by
        rw [modify_eq_set_getElem?]
        simp [hconn]
      simp [registerProved, Roster.register, roster, hold, hconn, hmodify, Conn.login, tearDown, setConn,
        map_set]

theorem restores_roster (conn : Conn) :
    w.roster.restores conn.login = (w.restores conn).map Prod.fst := by
  cases hreplaced : conn.replaced with
  | none => simp [Roster.restores, restores, hreplaced, Conn.login]
  | some prev =>
    cases hprev : w.conns[prev]? with
    | none => simp [Roster.restores, restores, hreplaced, hprev, Conn.login, Option.filter]
    | some p =>
      simp only [Roster.restores, restores, hreplaced, hprev, Conn.login, Option.filter, roster_logins,
        getElem?_map, map_some, any_some, bind_some]
      split <;> rfl

theorem roster_unregister {c : ConnId} {conn : Conn} (hrep : ∀ p, conn.replaced = some p → p ≠ c) :
    (w.unregister c conn).roster = w.roster.unregister c conn.login := by
  have hlogins : ∀ conn', ((w.tearDown c conn).setConn c conn').conns.map Conn.login =
      w.roster.logins.set c conn'.login := fun conn' ↦ congrArg Roster.logins (roster_tearDown c conn conn')
  rw [unregister, Roster.unregister]
  by_cases hentry : w.entry conn.nodeID = some c
  · simp only [if_pos hentry]
    rw [restores_roster]
    cases hres : w.restores conn with
    | none =>
      refine Roster.ext (hlogins _) ?_
      simp [hentry, Conn.login]
    | some prev =>
      obtain ⟨hprev, _⟩ := filter_eq_some_iff.mp hres
      obtain ⟨p, hp, hprev⟩ := bind_eq_some_iff.mp hprev
      obtain ⟨prevConn, hconn, rfl⟩ := map_eq_some_iff.mp hprev
      have hstill : ((w.tearDown c conn).setConn c
          { conn with pending := none, ended := true, replaced := none }).conns[p]? = some prevConn := by
        simpa [tearDown, setConn, getElem?_set, (hrep p hp).symm] using hconn
      refine Roster.ext ?_ ?_
      · exact (map_set_of_getElem? (b := { prevConn with pending := some ∅ }) hstill rfl).trans (hlogins _)
      · simp [hentry, Conn.login]
  · simp only [if_neg hentry]
    refine Roster.ext ?_ ?_
    · simp [setConn, map_set, Conn.login]
    · simp [setConn, Conn.login, hentry]

/-- **The steps of Core on the roster.**  A connection registers, one unregisters, or the roster stays. -/
theorem step_roster {a : Label}
    (hrep : ∀ (c : ConnId) (conn : Conn) p, w.conns[c]? = some conn → conn.replaced = some p → p ≠ c)
    (h : w.step a = some w') :
    (∃ node authKey, a = .registerProved node authKey ∧ w'.roster = w.roster.register node authKey) ∨
      (∃ c conn, a = .unregister c ∧ w.conns[c]? = some conn ∧
        w'.roster = w.roster.unregister c conn.login) ∨
      w'.roster = w.roster := by
  cases a with
  | registerProved node authKey =>
    cases h
    exact .inl ⟨node, authKey, rfl, roster_registerProved node authKey⟩
  | unregister c =>
    obtain ⟨conn, hconn, rfl⟩ := map_eq_some_iff.mp h
    exact .inr (.inl ⟨c, conn, rfl, hconn, roster_unregister fun p hp ↦ hrep c conn p hconn hp⟩)
  | routeResponse c m expired =>
    cases h
    exact .inr (.inr (roster_routeResponse c m expired))
  | closeStreamingRequest c id =>
    cases h
    exact .inr (.inr (roster_closeStreamingRequest c id))
  | sendRequest node id listing | sendRequestStreaming node id =>
    rw [step, ite_none_left_eq_some, some_inj] at h
    exact .inr (.inr (h.2 ▸ rfl))
  | awaitReply c id =>
    rw [step, ite_none_left_eq_some] at h
    obtain ⟨conn, hconn, rfl⟩ := map_eq_some_iff.mp h.2
    exact .inr (.inr (roster_awaitReply (w := { w with plain := id :: w.plain }) hconn id))
  | cleanupRequest node id =>
    cases h
    exact .inr (.inr rfl)
  | take n =>
    rw [step] at h
    split at h <;> cases h
    exact .inr (.inr rfl)
  | call n move =>
    obtain ⟨t, ht, h⟩ := bind_eq_some_iff.mp h
    obtain ⟨⟨w₁, t'⟩, hcall, rfl⟩ := map_eq_some_iff.mp h
    exact .inr (.inr (callStep_cases hcall).roster)

end World

/-! ## The invariant -/

theorem keysEqual_trans {k l m : Option (List UInt8)} (h : keysEqual k l) (h' : keysEqual l m) :
    keysEqual k m := by
  simp only [keysEqual, decide_eq_true_eq] at h h' ⊢
  exact h.trans h'

namespace Roster

variable {r : Roster}

/-- The node and the key a login was made with; neither ever changes. -/
def proof (r : Roster) (c : Nat) : Option (Nat × Option (List UInt8)) :=
  (r.logins[c]?).map fun l ↦ (l.nodeID, l.authKey)

/-- What holds of the entries and of the logins that may get one back. -/
structure Current (r : Roster) : Prop where
  /-- The entry of a node is a login of that node that has not ended. -/
  live : ∀ {node c : Nat}, r.entry node = some c →
    ∃ l, r.logins[c]? = some l ∧ l.nodeID = node ∧ l.ended = false
  /-- All later logins of the node were made with the key of the entry. -/
  key : ∀ {node c d : Nat} {k k'}, r.entry node = some c → r.proof c = some (node, k) → c < d →
    r.proof d = some (node, k') → keysEqual k k'
  /-- A login has replaced an earlier one of its node. -/
  older : ∀ {c p : Nat} {l : Login}, r.logins[c]? = some l → l.replaced = some p →
    p < c ∧ ∃ k, r.proof p = some (l.nodeID, k)
  /-- All logins of the node in between were made with the key of the one it has replaced. -/
  between : ∀ {c p d : Nat} {l : Login} {k k'}, r.logins[c]? = some l → l.replaced = some p →
    r.proof p = some (l.nodeID, k) → p < d → d < c → r.proof d = some (l.nodeID, k') → keysEqual k k'

theorem proof_eq_some {c : Nat} {l : Login} (h : r.logins[c]? = some l) :
    r.proof c = some (l.nodeID, l.authKey) := by
  rw [proof, h, map_some]

theorem lt_of_proof {c : Nat} {k : Nat × Option (List UInt8)} (h : r.proof c = some k) :
    c < r.logins.length := by
  obtain ⟨l, hl, _⟩ := map_eq_some_iff.mp h
  exact (List.getElem?_eq_some_iff.mp hl).1

/-! ### A login is registered -/

section Register

variable {node : Nat} {authKey : Option (List UInt8)}

theorem register_entry : (r.register node authKey).entry =
    update r.entry node (some r.logins.length) := rfl

/-- The logins that `register` leaves in place of the older ones. -/
theorem getElem?_register (c : Nat) :
    (r.register node authKey).logins[c]? =
      if c = r.logins.length then some ⟨node, r.entry node, false, authKey⟩
      else (r.logins[c]?).map fun l ↦ if r.entry node = some c then { l with replaced := none } else l := by
  have hlast : ∀ {ls : List Login} {x : Login}, ls.length = r.logins.length →
      (ls ++ [x])[c]? = if c = r.logins.length then some x else ls[c]? := by
    intro ls x hlen
    rcases Nat.lt_trichotomy c r.logins.length with h | h | h
    · rw [if_neg (by omega), getElem?_append_left (by omega)]
    · rw [if_pos h, getElem?_append_right (by omega), h, hlen, Nat.sub_self, getElem?_cons_zero]
    · rw [if_neg (by omega), getElem?_eq_none (by simp; omega), getElem?_eq_none (by omega)]
  rw [register]
  cases hentry : r.entry node with
  | none => simp [hlast rfl]
  | some old => simp [hlast (length_modify ..), getElem?_modify]

theorem proof_register (c : Nat) :
    (r.register node authKey).proof c =
      if c = r.logins.length then some (node, authKey) else r.proof c := by
  rw [proof, getElem?_register]
  split
  · rfl
  rw [proof, Option.map_map]
  congr 1
  funext l
  show (Login.nodeID (ite _ _ _), Login.authKey (ite _ _ _)) = _
  split <;> rfl

/-- A login that `register` leaves in place: the same, unless it has forgotten what it had replaced. -/
theorem older_of_register {c : Nat} {l : Login} (hc : c ≠ r.logins.length)
    (h : (r.register node authKey).logins[c]? = some l) :
    ∃ l₀, r.logins[c]? = some l₀ ∧ l.nodeID = l₀.nodeID ∧
      (l.replaced = none ∨ l.replaced = l₀.replaced) := by
  rw [getElem?_register, if_neg hc] at h
  obtain ⟨l₀, hl₀, rfl⟩ := map_eq_some_iff.mp h
  refine ⟨l₀, hl₀, ?_⟩
  split
  · exact ⟨rfl, .inl rfl⟩
  · exact ⟨rfl, .inr rfl⟩

theorem Current.register (h : r.Current) : (r.register node authKey).Current where
  live := by
    intro node' c hentry
    by_cases hnode : node' = node
    · subst hnode
      rw [register_entry, update_self, some_inj] at hentry
      exact ⟨_, (getElem?_register c).trans (if_pos hentry.symm), rfl, rfl⟩
    rw [register_entry, update_of_ne hnode] at hentry
    obtain ⟨l, hl, rfl, hended⟩ := h.live hentry
    have hlt : c < r.logins.length := (List.getElem?_eq_some_iff.mp hl).1
    rw [getElem?_register, if_neg (by omega), hl]
    refine ⟨_, rfl, ?_⟩
    split
    · exact ⟨rfl, hended⟩
    · exact ⟨rfl, hended⟩
  key := by
    intro node' c d k k' hentry hc hcd hd
    rw [proof_register] at hc hd
    by_cases hnode : node' = node
    · -- Nothing is later than the new login.
      subst hnode
      rw [register_entry, update_self, some_inj] at hentry
      have hlast : c = r.logins.length := hentry.symm
      rw [if_neg (by omega)] at hd
      have := lt_of_proof hd
      omega
    · rw [register_entry, update_of_ne hnode] at hentry
      have hd' : d ≠ r.logins.length := by
        rintro rfl
        rw [if_pos rfl, some_inj, Prod.mk.injEq] at hd
        exact hnode hd.1.symm
      rw [if_neg hd'] at hd
      have := lt_of_proof hd
      rw [if_neg (by omega)] at hc
      exact h.key hentry hc hcd hd
  older := by
    intro c p l hl hp
    by_cases hc : c = r.logins.length
    · rw [getElem?_register, if_pos hc, some_inj] at hl
      subst hl
      obtain ⟨l, hl, rfl, _⟩ := h.live hp
      have hlt := lt_of_proof (proof_eq_some hl)
      refine ⟨by omega, l.authKey, ?_⟩
      rw [proof_register, if_neg (by omega), proof_eq_some hl]
    · obtain ⟨l₀, hl₀, hnode, hrep⟩ := older_of_register hc hl
      obtain hrep | hrep := hrep
      · rw [hp] at hrep
        cases hrep
      · obtain ⟨hlt, k, hk⟩ := h.older hl₀ (hrep ▸ hp)
        have := lt_of_proof hk
        refine ⟨hlt, k, ?_⟩
        rw [proof_register, if_neg (by omega), hk, hnode]
  between := by
    intro c p d l k k' hl hp hk hpd hdc hd
    by_cases hc : c = r.logins.length
    · rw [getElem?_register, if_pos hc, some_inj] at hl
      subst hl
      rw [proof_register, if_neg (by omega)] at hk hd
      exact h.key hp hk hpd hd
    · obtain ⟨l₀, hl₀, hnode, hrep⟩ := older_of_register hc hl
      have hlt := (List.getElem?_eq_some_iff.mp hl₀).1
      rw [proof_register, if_neg (by omega), hnode] at hk hd
      obtain hrep | hrep := hrep
      · rw [hp] at hrep
        cases hrep
      · exact h.between hl₀ (hrep ▸ hp) hk hpd hdc hd

end Register

/-! ### A login ends -/

section Unregister

variable {c : Nat} {l : Login}

theorem proof_unregister (hl : r.logins[c]? = some l) (d : Nat) :
    (r.unregister c l).proof d = r.proof d := by
  rw [proof, unregister, getElem?_set]
  by_cases hd : c = d
  · subst hd
    rw [if_pos rfl, if_pos (List.getElem?_eq_some_iff.mp hl).1, proof_eq_some hl, map_some]
  · rw [if_neg hd, proof]

/-- A login that still remembers the one it replaced is not the one that ends. -/
theorem login_of_unregister {d p : Nat} {m : Login} (hl : r.logins[c]? = some l)
    (hm : (r.unregister c l).logins[d]? = some m) (hp : m.replaced = some p) :
    r.logins[d]? = some m := by
  rcases Places.getElem?_set hm with ⟨rfl, rfl⟩ | ⟨-, hm⟩
  · cases hp
  · exact hm

theorem unregister_entry : (r.unregister c l).entry =
    if r.entry l.nodeID = some c then update r.entry l.nodeID (r.restores l) else r.entry := rfl

/-- The entries after an end: as before, or the one that was replaced. -/
theorem entry_unregister {node e : Nat} (h : (r.unregister c l).entry node = some e) :
    (r.entry node = some e ∧ (node = l.nodeID → e ≠ c)) ∨
      (node = l.nodeID ∧ r.entry node = some c ∧ r.restores l = some e) := by
  rw [unregister_entry] at h
  split at h
  · rename_i hentry
    by_cases hnode : node = l.nodeID
    · subst hnode
      rw [update_self] at h
      exact .inr ⟨rfl, hentry, h⟩
    · rw [update_of_ne hnode] at h
      exact .inl ⟨h, fun h' ↦ absurd h' hnode⟩
  · rename_i hentry
    refine .inl ⟨h, ?_⟩
    rintro rfl rfl
    exact hentry h

theorem entry_unregister_of_ne {node e : Nat} (h : r.entry node = some e) (hne : c ≠ e) :
    (r.unregister c l).entry node = some e := by
  rw [unregister_entry]
  split
  · rename_i hentry
    have hnode : node ≠ l.nodeID := by
      rintro rfl
      exact hne (some_inj.mp (hentry.symm.trans h))
    rw [update_of_ne hnode, h]
  · exact h

theorem restores_eq_some {p : Nat} (h : r.restores l = some p) :
    l.replaced = some p ∧ ∃ q, r.logins[p]? = some q ∧ q.ended = false ∧
      keysEqual q.authKey l.authKey := by
  obtain ⟨hp, h⟩ := filter_eq_some_iff.mp h
  obtain ⟨q, hq, h⟩ := (any_eq_true _ _).mp h
  simp only [Bool.and_eq_true, Bool.not_eq_eq_eq_not, Bool.not_true] at h
  exact ⟨hp, q, hq, h.1.1, h.2⟩

theorem Current.unregister (h : r.Current) (hl : r.logins[c]? = some l) : (r.unregister c l).Current where
  live := by
    intro node e hentry
    obtain ⟨hold, hne⟩ | ⟨rfl, hold, hres⟩ := entry_unregister hentry
    · obtain ⟨m, hm, rfl, hended⟩ := h.live hold
      have hec : c ≠ e := by
        rintro rfl
        rw [hl, some_inj] at hm
        exact hne (congrArg Login.nodeID hm.symm) rfl
      exact ⟨m, by rw [Roster.unregister, getElem?_set_ne hec, hm], rfl, hended⟩
    · obtain ⟨hrep, q, hq, hended, _⟩ := restores_eq_some hres
      obtain ⟨hlt, k, hk⟩ := h.older hl hrep
      rw [proof_eq_some hq, some_inj, Prod.mk.injEq] at hk
      exact ⟨q, by rw [Roster.unregister, getElem?_set_ne (by omega), hq], hk.1, hended⟩
  key := by
    intro node e d k k' hentry he hed hd
    rw [proof_unregister hl] at he hd
    obtain ⟨hold, _⟩ | ⟨rfl, hold, hres⟩ := entry_unregister hentry
    · exact h.key hold he hed hd
    · -- What was registered after the restored login came before the ending one, is it, or came after it.
      obtain ⟨hrep, q, hq, _, hkeys⟩ := restores_eq_some hres
      have hk : q.authKey = k := by
        rw [proof_eq_some hq, some_inj, Prod.mk.injEq] at he
        exact he.2
      subst hk
      rcases Nat.lt_trichotomy d c with hdc | rfl | hcd
      · exact h.between hl hrep he hed hdc hd
      · rw [proof_eq_some hl, some_inj, Prod.mk.injEq] at hd
        exact hd.2 ▸ hkeys
      · exact keysEqual_trans hkeys (h.key hold (proof_eq_some hl) hcd hd)
  older := by
    intro d p m hm hp
    rw [proof_unregister hl]
    exact h.older (login_of_unregister hl hm hp) hp
  between := by
    intro d p e m k k' hm hp hk hpe hed he
    rw [proof_unregister hl] at hk he
    exact h.between (login_of_unregister hl hm hp) hp hk hpe hed he

end Unregister

/-! ### What has ended -/

def Ended (r : Roster) (c : ConnId) : Prop := ∃ l, r.logins[c]? = some l ∧ l.ended = true

theorem Ended.register {c : ConnId} {node : Nat} {authKey : Option (List UInt8)} (h : r.Ended c) :
    (r.register node authKey).Ended c := by
  obtain ⟨l, hl, hended⟩ := h
  have hlt := (List.getElem?_eq_some_iff.mp hl).1
  rw [Ended, getElem?_register, if_neg (by omega), hl]
  refine ⟨_, rfl, ?_⟩
  split
  · exact hended
  · exact hended

theorem ended_unregister {c : ConnId} {l : Login} (hlt : c < r.logins.length) :
    (r.unregister c l).Ended c :=
  ⟨_, getElem?_set_self hlt, rfl⟩

theorem Ended.unregister {c d : ConnId} {m : Login} (h : r.Ended c) : (r.unregister d m).Ended c := by
  obtain ⟨l, hl, hended⟩ := h
  by_cases hd : d = c
  · subst hd
    exact ended_unregister (List.getElem?_eq_some_iff.mp hl).1
  · exact ⟨l, (getElem?_set_ne hd).trans hl, hended⟩

theorem Current.entry_ne {c : ConnId} (h : r.Current) (hended : r.Ended c) (node : Nat) :
    r.entry node ≠ some c := by
  intro hentry
  obtain ⟨l, hl, hl'⟩ := hended
  obtain ⟨m, hm, -, hlive⟩ := h.live hentry
  rw [hl, some_inj] at hm
  rw [← hm, hl'] at hlive
  cases hlive

end Roster

theorem World.current_start : World.start.roster.Current where
  live := by simp [World.start]
  key := by simp [World.start]
  older := by simp [World.start]
  between := by simp [World.start]

theorem Roster.Current.replaced_ne {w : World} (h : w.roster.Current) {c p : ConnId} {conn : Conn}
    (hconn : w.conns[c]? = some conn) (hp : conn.replaced = some p) : p ≠ c := by
  have hlogin : w.roster.logins[c]? = some conn.login := by simp [hconn]
  exact Nat.ne_of_lt (h.older hlogin hp).1

theorem Roster.Current.step {w w' : World} {a : Label} (h : w.roster.Current) (hstep : w.step a = some w') :
    w'.roster.Current := by
  obtain ⟨node, authKey, rfl, hr⟩ | ⟨c, conn, rfl, hconn, hr⟩ | hr :=
    step_roster (fun c conn p ↦ h.replaced_ne) hstep
  · rw [hr]
    exact h.register
  · rw [hr]
    exact h.unregister (by simp [hconn])
  · rw [hr]
    exact h

theorem Roster.Ended.step {w w' : World} {a : Label} {c : ConnId} (h : w.roster.Current)
    (hended : w.roster.Ended c) (hstep : w.step a = some w') : w'.roster.Ended c := by
  obtain ⟨node, authKey, rfl, hr⟩ | ⟨d, conn, rfl, hconn, hr⟩ | hr :=
    step_roster (fun c conn p ↦ h.replaced_ne) hstep
  · rw [hr]
    exact hended.register
  · rw [hr]
    exact hended.unregister
  · rw [hr]
    exact hended

/-- A connection whose stream has ended is not the entry of any node, ever again. -/
theorem World.entry_ne_of_unregister {w w₁ w₂ : World} {c : ConnId} (h : w.roster.Current)
    (hstep : w.step (.unregister c) = some w₁) (hlater : Reach World.step anyStep w₁ w₂) (node : Nat) :
    w₂.entry node ≠ some c := by
  have hended : w₁.roster.Ended c := by
    obtain ⟨conn, hconn, rfl⟩ := map_eq_some_iff.mp hstep
    rw [roster_unregister fun p hp ↦ h.replaced_ne hconn hp]
    exact Roster.ended_unregister (by simpa using (List.getElem?_eq_some_iff.mp hconn).1)
  obtain ⟨hcur, hended⟩ := hlater.invariant (P := fun w ↦ w.roster.Current ∧ w.roster.Ended c)
    ⟨h.step hstep, hended⟩ fun _ _ _ hw _ hs ↦ ⟨hw.1.step hs, hw.2.step hw.1 hs⟩
  exact hcur.entry_ne hended node

/-- **The entry of a node is its own and alive.**  From any state that Core reaches, once the stream of a
connection has ended, no later state has that connection for a node; and the one that the registry holds for
a node is one of that node.  The teardown of another connection leaves it there.  And a connection behind
which one of the node was registered with another key does not hold it. -/
theorem registry_entry_current {w : World}
    (h : Reach World.step anyStep World.start w) :
    (∀ c w₁ w₂, w.step (.unregister c) = some w₁ → Reach World.step anyStep w₁ w₂ →
      ∀ node, w₂.entry node ≠ some c) ∧
    (∀ node c, w.entry node = some c → ∃ conn, w.conns[c]? = some conn ∧ conn.nodeID = node) ∧
    (∀ node c d w', w.entry node = some c → d ≠ c → w.step (.unregister d) = some w' →
      w'.entry node = some c) ∧
    ∀ (node c d : Nat) (older newer : Conn), w.conns[c]? = some older → w.conns[d]? = some newer →
      c < d → older.nodeID = node → newer.nodeID = node →
      keysEqual older.authKey newer.authKey = false → w.entry node ≠ some c := by
  have hcur : w.roster.Current :=
    h.invariant current_start fun _ _ _ hw _ hstep ↦ Roster.Current.step hw hstep
  refine ⟨fun c w₁ w₂ hstep hlater ↦ World.entry_ne_of_unregister hcur hstep hlater,
    fun node c hentry ↦ ?_, fun node c d w' hentry hne hstep ↦ ?_, ?_⟩
  · obtain ⟨l, hl, hnode, -⟩ := hcur.live hentry
    rw [roster_logins, getElem?_map] at hl
    obtain ⟨conn, hconn, rfl⟩ := map_eq_some_iff.mp hl
    exact ⟨conn, hconn, hnode⟩
  · obtain ⟨conn, hconn, rfl⟩ := map_eq_some_iff.mp hstep
    show (w.unregister d conn).roster.entry node = some c
    rw [roster_unregister fun p hp ↦ hcur.replaced_ne hconn hp]
    exact Roster.entry_unregister_of_ne hentry hne
  · intro node c d older newer hc hd hcd hnode hnode' hkeys hentry
    have hproof : ∀ {e : ConnId} {conn : Conn}, w.conns[e]? = some conn →
        w.roster.proof e = some (conn.nodeID, conn.authKey) := fun he ↦
      Roster.proof_eq_some (l := Conn.login _) (by simp [he])
    have := hcur.key hentry (hnode ▸ hproof hc) hcd (hnode' ▸ hproof hd)
    rw [hkeys] at this
    cases this

/-- A stream with the first key is replaced by one with the second: the first is still read, and does not
have the entry; and once the second has ended, it does not get it back whatever follows. -/
theorem registry_entry_current_rolled : ∃ w,
    Reach World.step anyStep World.start w ∧
      w.conns[0]?.map Conn.authKey = some (some [1]) ∧ w.conns[1]?.map Conn.authKey = some (some [2]) ∧
      w.entry 7 ≠ some 0 ∧ ∀ w₁ w₂, w.step (.unregister 1) = some w₁ →
        Reach World.step anyStep w₁ w₂ → w₂.entry 7 ≠ some 1 := by
  have hrun : (exec World.step anyStep World.start
      [.registerProved 7 (some [1]), .registerProved 7 (some [2])]).map (·.conns.map Conn.login) =
      some [⟨7, none, false, some [1]⟩, ⟨7, some 0, false, some [2]⟩] := by decide
  obtain ⟨w, hw, hlogins⟩ := exists_reach_of_exec hrun
  obtain ⟨first, rest, hconns, hfirst, hrest⟩ := map_eq_cons_iff.mp hlogins
  obtain ⟨second, _, rfl, hsecond, -⟩ := map_eq_cons_iff.mp hrest
  simp only [Conn.login, Login.mk.injEq] at hfirst hsecond
  have hcurrent := registry_entry_current hw
  refine ⟨w, hw, by simp [hconns, hfirst], by simp [hconns, hsecond], ?_,
    fun w₁ w₂ hstep hlater ↦ ?_⟩
  · exact hcurrent.2.2.2 7 0 1 first second (by simp [hconns]) (by simp [hconns]) (by decide) hfirst.1
      hsecond.1 (by rw [hfirst.2.2.2, hsecond.2.2.2]; decide)
  · exact hcurrent.1 1 w₁ w₂ hstep hlater 7

/-- A stream beside the first, with the same key, hands the entry back when it ends. -/
example : ((exec World.step anyStep World.start
    [.registerProved 7 (some [1]), .registerProved 7 (some [1]), .unregister 1]).map (·.entry 7)) =
    some (some 0) := by decide

end Dylaris.Registry
