import Mathlib.Data.List.Induction
import Dylaris.Ports.Model

/-!
# The ledger is what is persisted

`Matches` says that the keys and the hash in Redis are the ledger in memory, read the other way round: so
every server has one port and every port one server.  Every operation keeps it.

`AdoptContainerBindings` is the one that leaves it on the way.  It takes a port from its recorded owner,
in memory only, and counts on the owner's own adoption to write the new one: until then the owner is an
*exception*.  The adoption is refused where another container is configured for the owner's port too, and
then the exception stays (`not_port_ledger_matches`).  `Settled` excludes that.
-/

set_option autoImplicit false

namespace Dylaris.Ports

open Machine List Option AList

/-! ## Maps -/

section Maps

variable {κ α β : Type} [DecidableEq κ]

theorem mem_entries_iff {m : GoMap κ α} {k : κ} {a : α} :
    ⟨k, a⟩ ∈ m.entries ↔ m.lookup k = some a :=
  mem_lookup_iff.symm

/-- A map that is built entry by entry, no two of which have the same key. -/
theorem lookup_foldl_insert {l : List β} {key : β → κ} {val : β → α}
    (hinj : ∀ e ∈ l, ∀ e' ∈ l, key e = key e' → val e = val e') {k : κ} {a : α} :
    (l.foldl (fun (m : GoMap κ α) e ↦ m.insert (key e) (val e)) ∅).lookup k = some a ↔
      ∃ e ∈ l, key e = k ∧ val e = a := by
  induction l using List.reverseRecOn with
  | nil => simp
  | append_singleton l e ih =>
    have hrest : ∀ e ∈ l, ∀ e' ∈ l, key e = key e' → val e = val e' := fun e he e' he' ↦
      hinj e (mem_append_left _ he) e' (mem_append_left _ he')
    rw [foldl_append, foldl_cons, foldl_nil]
    by_cases hk : key e = k
    · subst hk
      rw [lookup_insert, some_inj]
      constructor
      · intro hval
        exact ⟨e, by simp, rfl, hval⟩
      · rintro ⟨e', he', hkey, rfl⟩
        exact hinj e (by simp) e' he' hkey.symm
    · rw [lookup_insert_ne (Ne.symm hk), ih hrest]
      simp [hk, or_and_right, exists_or]

end Maps

/-! ## What matches -/

/-- The keys and the hash are the ledger, but for some servers that have no port in memory. -/
structure Matches (except : String → Prop) (s : PortManager) : Prop where
  same (u : String) : s.hash.lookup u = s.keys.lookup u
  held {u : String} {p : Int} : ¬except u → (s.keys.lookup u = some p ↔ s.used.lookup p = some u)
  free {u : String} {p : Int} : except u → s.used.lookup p ≠ some u

/-- No server is an exception. -/
def nobody (_ : String) : Prop := False

section Lemmas

variable {s : PortManager} {except : String → Prop} {u v : String} {p q : Int}

theorem lookup_of_portOf (h : s.portOf u = some p) : s.used.lookup p = some u := by
  obtain ⟨e, he, rfl⟩ := map_eq_some_iff.mp h
  have hmem := mem_of_find?_eq_some he
  have hu : e.2 = u := by simpa using find?_some he
  rw [← hu]
  exact mem_entries_iff.mp hmem

theorem lookup_of_portOf_eq_none (h : s.portOf u = none) (p : Int) :
    s.used.lookup p ≠ some u := by
  intro hp
  rw [PortManager.portOf, map_eq_none_iff] at h
  exact find?_eq_none.mp h _ (mem_entries_iff.mpr hp) (by simp)

namespace Matches

section

variable (h : Matches except s)

include h

/-- A server has one port. -/
theorem port_unique (hp : s.used.lookup p = some u)
    (hq : s.used.lookup q = some u) : p = q := by
  have hu : ¬except u := fun hexcept ↦ h.free hexcept hp
  have hkp := (h.held hu).mpr hp
  have hkq := (h.held hu).mpr hq
  exact some_inj.mp (hkp.symm.trans hkq)

theorem mono {except' : String → Prop} (hiff : ∀ u, except' u ↔ except u) :
    Matches except' s where
  same := h.same
  held := fun hu ↦ h.held (mt (hiff _).mpr hu)
  free := fun hu ↦ h.free ((hiff _).mp hu)

/-- A server gets a port that no other has; its old one goes. -/
theorem assign (hfree : ∀ v, s.used.lookup p = some v → v = u)
    {used : GoMap Int String}
    (hused : ∀ q, used.lookup q = if q = p then some u
      else if s.used.lookup q = some u then none else s.used.lookup q) :
    Matches (fun v ↦ except v ∧ v ≠ u) { s.persist u p with used } where
  same := by
    intro v
    show (s.hash.insert u p).lookup v = (s.keys.insert u p).lookup v
    by_cases hv : v = u
    · rw [hv, lookup_insert, lookup_insert]
    · rw [lookup_insert_ne hv, lookup_insert_ne hv, h.same]
  held := by
    intro v q hv
    show (s.keys.insert u p).lookup v = some q ↔ used.lookup q = some v
    rw [hused]
    by_cases hvu : v = u
    · subst hvu
      rw [lookup_insert, some_inj]
      by_cases hqp : q = p
      · simp [hqp]
      rw [if_neg hqp]
      refine iff_of_false (Ne.symm hqp) ?_
      split
      · simp
      · assumption
    · have hexcept : ¬except v := fun hexcept ↦ hv ⟨hexcept, hvu⟩
      rw [lookup_insert_ne hvu, h.held hexcept]
      by_cases hqp : q = p
      · rw [if_pos hqp, hqp]
        refine iff_of_false (fun hp ↦ hvu (hfree v hp)) ?_
        rw [some_inj]
        exact Ne.symm hvu
      · rw [if_neg hqp]
        split
        · rename_i hq
          rw [hq, some_inj]
          exact iff_of_false (Ne.symm hvu) (by simp)
        · exact Iff.rfl
  free := by
    rintro v q ⟨hexcept, hvu⟩
    show used.lookup q ≠ some v
    rw [hused]
    split
    · rw [ne_eq, some_inj]
      exact Ne.symm hvu
    · split
      · simp
      · exact h.free hexcept

theorem lookup_dropOld (hq : q ≠ p) :
    (s.dropOld u p).lookup q = if s.used.lookup q = some u then none else s.used.lookup q := by
  rw [PortManager.dropOld]
  split
  · rename_i e he
    have hmem := mem_of_find?_eq_some he
    have hcond : e.2 = u ∧ e.1 ≠ p := by simpa using find?_some he
    have hold : s.used.lookup e.1 = some u := by
      rw [← hcond.1]
      exact mem_entries_iff.mp hmem
    by_cases hqe : q = e.1
    · rw [hqe, lookup_erase, if_pos hold]
    · rw [lookup_erase_ne hqe, if_neg]
      exact fun hqu ↦ hqe (h.port_unique hqu hold)
  · rename_i hnone
    rw [if_neg]
    intro hqu
    exact find?_eq_none.mp hnone _ (mem_entries_iff.mpr hqu) (by simpa using hq)

/-- **`SetPort`**: it is refused and changes nothing, or the server has the port. -/
theorem setPort (u : String) (p : Int) :
    (s.setPort u p).2 = s ∧ (∃ v, v ≠ u ∧ s.used.lookup p = some v) ∨
      (∀ v, s.used.lookup p = some v → v = u) ∧
        Matches (fun v ↦ except v ∧ v ≠ u) (s.setPort u p).2 ∧
        ∀ q, q ≠ p → s.used.lookup q = none → (s.setPort u p).2.used.lookup q = none := by
  rw [PortManager.setPort]
  split
  · rename_i v hv
    obtain ⟨hp, hne⟩ := filter_eq_some_iff.mp hv
    exact .inl ⟨rfl, v, by simpa using hne, hp⟩
  rename_i hnone
  have hfree : ∀ v, s.used.lookup p = some v → v = u := by
    intro v hv
    rw [hv, filter_some] at hnone
    by_contra hne
    simp [hne] at hnone
  have hused : ∀ q, ((s.dropOld u p).insert p u).lookup q = if q = p then some u
      else if s.used.lookup q = some u then none else s.used.lookup q := by
    intro q
    by_cases hq : q = p
    · rw [if_pos hq, hq, lookup_insert]
    · rw [if_neg hq, lookup_insert_ne hq, h.lookup_dropOld hq]
  refine .inr ⟨hfree, h.assign hfree hused, fun q hq hqnone ↦ ?_⟩
  show ((s.dropOld u p).insert p u).lookup q = none
  rw [hused, if_neg hq, hqnone]
  rfl

end

theorem setPort_nobody (h : Matches nobody s) (u : String) (p : Int) :
    Matches nobody (s.setPort u p).2 := by
  rcases h.setPort u p with ⟨heq, -⟩ | ⟨-, hset, -⟩
  · rw [heq]
    exact h
  · exact hset.mono fun _ ↦ ⟨False.elim, And.left⟩

theorem allocatePort (h : Matches nobody s) (cfg : Config) (candidates : List Int) (u : String) :
    Matches nobody (s.allocatePort cfg candidates u).2 := by
  rw [PortManager.allocatePort]
  split
  · exact h
  rename_i hportOf
  split
  · rename_i p hp
    have hfree : s.used.lookup p = none := by
      have := find?_some hp
      simp only [decide_eq_true_eq] at this
      exact this.2
    refine (h.assign (by simp [hfree]) fun q ↦ ?_).mono fun _ ↦ ⟨False.elim, And.left⟩
    by_cases hq : q = p
    · rw [if_pos hq, hq, lookup_insert]
    · rw [if_neg hq, lookup_insert_ne hq, if_neg (lookup_of_portOf_eq_none hportOf q)]
  · exact h

/-- Of the ports only the one that is taken away is gone. -/
theorem lookup_erase_port (h : Matches except s) (hp : s.used.lookup p = some u) :
    (s.used.erase p).lookup q = some v ↔ v ≠ u ∧ s.used.lookup q = some v := by
  by_cases hq : q = p
  · rw [hq, lookup_erase, hp, some_inj]
    exact iff_of_false (by simp) fun h ↦ h.1 h.2.symm
  · rw [lookup_erase_ne hq]
    refine ⟨fun hv ↦ ⟨?_, hv⟩, And.right⟩
    rintro rfl
    exact hq (h.port_unique hv hp)

/-- A server goes, with its port. -/
theorem forget (h : Matches except s) (hp : s.used.lookup p = some u) :
    Matches except { s.forget u with used := s.used.erase p } where
  same := by
    intro v
    show (s.hash.erase u).lookup v = (s.keys.erase u).lookup v
    by_cases hv : v = u
    · rw [hv, lookup_erase, lookup_erase]
    · rw [lookup_erase_ne hv, lookup_erase_ne hv, h.same]
  held := by
    intro v q hv
    show (s.keys.erase u).lookup v = some q ↔ (s.used.erase p).lookup q = some v
    rw [h.lookup_erase_port hp]
    by_cases hvu : v = u
    · rw [hvu, lookup_erase]
      exact iff_of_false (by simp) fun h ↦ h.1 rfl
    · rw [lookup_erase_ne hvu, h.held hv]
      exact ⟨fun hq ↦ ⟨hvu, hq⟩, And.right⟩
  free := fun hv hq ↦ h.free hv ((h.lookup_erase_port hp).mp hq).2

theorem releasePort (h : Matches nobody s) (u : String) : Matches nobody (s.releasePort u) := by
  rw [PortManager.releasePort]
  split
  · rename_i p hp
    exact h.forget (lookup_of_portOf hp)
  · exact h

theorem adoptExistingBindings (h : Matches nobody s) (bindings : List ((_ : String) × Int)) :
    Matches nobody (s.adoptExistingBindings bindings) := by
  induction bindings generalizing s with
  | nil => exact h
  | cons e bindings ih =>
    refine ih ?_
    rw [PortManager.adopt]
    split
    · exact h
    · split
      · exact h
      · exact h.setPort_nobody e.1 e.2

theorem releaseGonePorts (h : Matches nobody s) (host : PortManager.Host) :
    Matches nobody (s.releaseGonePorts host) := by
  have hfold : ∀ (containers uuids : List String) {s : PortManager}, Matches nobody s →
      Matches nobody (uuids.foldl (fun s uuid ↦
        if containers.contains uuid || host.dirs.contains uuid then s else s.releasePort uuid) s) := by
    intro containers uuids
    induction uuids with
    | nil => exact fun h ↦ h
    | cons uuid uuids ih =>
      intro s h
      refine ih ?_
      dsimp only
      split
      · exact h
      · exact h.releasePort uuid
  rw [PortManager.releaseGonePorts]
  split
  · exact h
  · split
    · exact hfold _ _ h
    · exact h

/-! ### Restarts -/

theorem lookup_load {m : GoMap String Int}
    (hinj : ∀ u v p, m.lookup u = some p → m.lookup v = some p → u = v) :
    (PortManager.load m).lookup p = some u ↔ m.lookup u = some p := by
  rw [PortManager.load, lookup_foldl_insert]
  · constructor
    · rintro ⟨e, he, rfl, rfl⟩
      exact mem_entries_iff.mp he
    · intro hu
      exact ⟨⟨u, p⟩, mem_entries_iff.mpr hu, rfl, rfl⟩
  · intro e he e' he' hport
    exact hinj e.1 e'.1 e.2 (mem_entries_iff.mp he) (hport ▸ mem_entries_iff.mp he')

/-- Two servers have different keys. -/
theorem keys_injective (h : Matches nobody s) (u v : String) (p : Int)
    (hu : s.keys.lookup u = some p) (hv : s.keys.lookup v = some p) : u = v := by
  rw [h.held id] at hu hv
  exact some_inj.mp (hu.symm.trans hv)

theorem restart (h : Matches nobody s) (canScan : Bool) : Matches nobody (s.restart canScan) := by
  rw [PortManager.restart]
  split
  · refine ⟨fun v ↦ ?_, fun {v q} _ ↦ (lookup_load h.keys_injective).symm, fun hv ↦ hv.elim⟩
    -- The hash is written anew, from the keys.
    refine Option.ext fun q ↦ ?_
    rw [lookup_foldl_insert]
    · constructor
      · rintro ⟨e, he, rfl, rfl⟩
        exact mem_entries_iff.mp he
      · intro hv
        exact ⟨⟨v, q⟩, mem_entries_iff.mpr hv, rfl, rfl⟩
    · intro e he e' he' hkey
      have hlookup := mem_entries_iff.mp he
      rw [hkey] at hlookup
      exact some_inj.mp (hlookup.symm.trans (mem_entries_iff.mp he'))
  · refine ⟨h.same, fun {v q} _ ↦ ?_, fun hv ↦ hv.elim⟩
    have hinj : ∀ u v p, s.hash.lookup u = some p → s.hash.lookup v = some p → u = v := by
      intro u v p hu hv
      rw [h.same] at hu hv
      exact h.keys_injective u v p hu hv
    show s.keys.lookup v = some q ↔ (PortManager.load s.hash).lookup q = some v
    rw [lookup_load hinj, h.same]

end Matches

end Lemmas

/-! ## The bindings of the containers -/

/-- A server that has to give its recorded port to another server's container, and that binds another
port itself, gets that one: it is no other container's. -/
def Settled (s : PortManager) (bindings : GoMap String Int) : Prop :=
  ∀ e ∈ s.used.entries, (∃ b ∈ bindings.entries, b.1 ≠ e.2 ∧ b.2 = e.1) →
    PortManager.bound bindings e.2 = e.1 ∨ PortManager.bound bindings e.2 = 0 ∨
      0 < PortManager.bound bindings e.2 ∧
        ∀ b ∈ bindings.entries, b.1 ≠ e.2 → b.2 ≠ PortManager.bound bindings e.2

instance (s : PortManager) (bindings : GoMap String Int) : Decidable (Settled s bindings) :=
  inferInstanceAs (Decidable (∀ e ∈ s.used.entries, _ → _))

section Adopt

variable {s : PortManager} {bindings : GoMap String Int} {except : String → Prop}

open PortManager (bound)

theorem bound_of_mem {e : (_ : String) × Int} (h : e ∈ bindings.entries) : bound bindings e.1 = e.2 := by
  rw [bound, mem_entries_iff.mp h, getD_some]

theorem mem_of_bound {u : String} (h : bound bindings u ≠ 0) :
    ⟨u, bound bindings u⟩ ∈ bindings.entries := by
  rw [mem_entries_iff]
  cases hu : bindings.lookup u with
  | none =>
    rw [bound, hu] at h
    exact absurd rfl h
  | some p => rw [bound, hu, getD_some]

/-- The server's own port is no other container's. -/
def Own (bindings : GoMap String Int) (u : String) : Prop :=
  0 < bound bindings u ∧ ∀ b ∈ bindings.entries, b.1 ≠ u → b.2 ≠ bound bindings u

variable (bindings) in
/-- One turn of the first loop: the owner keeps the port, or is forgotten, or is an exception from now
on. -/
theorem Matches.giveWay (h : Matches except s) (b : (_ : String) × Int) :
    ∃ except', Matches except' (s.giveWay bindings b) ∧
      (∀ u, except' u → except u ∨ u ≠ b.1 ∧ s.used.lookup b.2 = some u ∧
        bound bindings u ≠ b.2 ∧ bound bindings u ≠ 0) ∧
      (∀ p u, (s.giveWay bindings b).used.lookup p = some u → s.used.lookup p = some u) ∧
      ∀ u, (s.giveWay bindings b).used.lookup b.2 = some u → u = b.1 ∨ bound bindings u = b.2 := by
  cases howner : s.used.lookup b.2 with
  | none =>
    have heq : s.giveWay bindings b = s := by rw [PortManager.giveWay, howner]
    rw [heq]
    refine ⟨except, h, fun u hu ↦ .inl hu, fun p u hp ↦ hp, fun u hu ↦ ?_⟩
    rw [howner] at hu
    cases hu
  | some owner =>
    rw [PortManager.giveWay, howner]
    dsimp only
    split
    · rename_i hkeep
      refine ⟨except, h, fun u hu ↦ .inl hu, fun p u hp ↦ hp, fun u hu ↦ ?_⟩
      rw [howner] at hu
      cases hu
      exact hkeep
    · rename_i hgive
      obtain ⟨hne, hbound⟩ := not_or.mp hgive
      have hexcept : ¬except owner := fun hexcept ↦ h.free hexcept howner
      have hshrink : ∀ p u, (s.used.erase b.2).lookup p = some u → s.used.lookup p = some u :=
        fun p u hu ↦ ((h.lookup_erase_port howner).mp hu).2
      have hgone : ∀ u, (s.used.erase b.2).lookup b.2 = some u → u = b.1 ∨ bound bindings u = b.2 := by
        intro u hu
        rw [lookup_erase] at hu
        cases hu
      split
      · -- It has no container: its keys go.
        exact ⟨except, h.forget howner, fun u hu ↦ .inl hu, hshrink, hgone⟩
      · -- It has a container elsewhere: its keys are left to its own adoption.
        rename_i hzero
        refine ⟨fun u ↦ except u ∨ u = owner, ⟨h.same, ?_, ?_⟩, ?_, hshrink, hgone⟩
        · intro u p hu
          obtain ⟨hu, huo⟩ := not_or.mp hu
          show s.keys.lookup u = some p ↔ (s.used.erase b.2).lookup p = some u
          rw [h.lookup_erase_port howner, h.held hu]
          exact ⟨fun hp ↦ ⟨huo, hp⟩, And.right⟩
        · intro u p hu hp
          obtain ⟨huo, hp⟩ := (h.lookup_erase_port howner).mp hp
          rcases hu with hu | hu
          · exact h.free hu hp
          · exact huo hu
        · rintro u (hu | rfl)
          · exact .inl hu
          · exact .inr ⟨hne, rfl, hbound, hzero⟩

variable (bindings) in
/-- **The first loop.**  The exceptions it leaves have a port of their own, and each port that a container
binds is that container's, or of another that binds it too. -/
theorem Matches.foldl_giveWay {l : List ((_ : String) × Int)} (h : Matches except s)
    (hown : ∀ u, except u → Own bindings u)
    (hsettled : ∀ b ∈ l, ∀ u, u ≠ b.1 → s.used.lookup b.2 = some u → bound bindings u ≠ b.2 →
      bound bindings u ≠ 0 → Own bindings u) :
    ∃ except', Matches except' (l.foldl (fun s ↦ s.giveWay bindings) s) ∧
      (∀ u, except' u → Own bindings u) ∧
      ∀ b ∈ l, ∀ u, (l.foldl (fun s ↦ s.giveWay bindings) s).used.lookup b.2 = some u →
        u = b.1 ∨ bound bindings u = b.2 := by
  -- What a turn says of its port outlives the turns that follow, which only take ports away.
  have hshrink : ∀ (l : List ((_ : String) × Int)) {s : PortManager} {except : String → Prop},
      Matches except s → ∀ p u, (l.foldl (fun s ↦ s.giveWay bindings) s).used.lookup p = some u →
        s.used.lookup p = some u := by
    intro l
    induction l with
    | nil => exact fun _ p u hu ↦ hu
    | cons b l ih =>
      intro s except h p u hu
      obtain ⟨except', h', -, hturn, -⟩ := h.giveWay bindings b
      exact hturn p u (ih h' p u hu)
  induction l generalizing s except with
  | nil => exact ⟨except, h, hown, fun b hb ↦ by cases hb⟩
  | cons b l ih =>
    obtain ⟨except', h', hnew, hturn, hport⟩ := h.giveWay bindings b
    have hown' : ∀ u, except' u → Own bindings u := by
      intro u hu
      rcases hnew u hu with hu | ⟨hne, hp, hbound, hzero⟩
      · exact hown u hu
      · exact hsettled b mem_cons_self u hne hp hbound hzero
    obtain ⟨except'', h'', hown'', hports⟩ := ih h' hown' fun b' hb' u hne hp ↦
      hsettled b' (mem_cons_of_mem _ hb') u hne (hturn _ _ hp)
    refine ⟨except'', h'', hown'', fun b' hb' u hu ↦ ?_⟩
    rcases mem_cons.mp hb' with rfl | hb'
    · exact hport u (hshrink l h' _ _ hu)
    · exact hports b' hb' u hu

/-- **The second loop** adopts every exception. -/
theorem Matches.foldl_adopt {l : List ((_ : String) × Int)} (h : Matches except s)
    (hl : ∀ b ∈ l, b ∈ bindings.entries) (hown : ∀ u, except u → Own bindings u)
    (hmem : ∀ u, except u → ⟨u, bound bindings u⟩ ∈ l)
    (hfree : ∀ u, except u → s.used.lookup (bound bindings u) = none) :
    Matches nobody (s.adoptExistingBindings l) := by
  induction l generalizing s except with
  | nil => exact h.mono fun u ↦ ⟨False.elim, fun hu ↦ absurd (hmem u hu) not_mem_nil⟩
  | cons b l ih =>
    have hl' := fun b' hb' ↦ hl b' (mem_cons_of_mem b hb')
    -- Where nothing is done, the server of this turn is no exception.
    have hskip : ¬except b.1 → Matches nobody (s.adoptExistingBindings l) := by
      intro hb
      refine ih h hl' hown (fun u hu ↦ ?_) hfree
      refine (mem_cons.mp (hmem u hu)).resolve_left fun heq ↦ hb ?_
      rw [← heq]
      exact hu
    have hbound := bound_of_mem (hl b mem_cons_self)
    show Matches nobody ((s.adopt b).adoptExistingBindings l)
    rw [PortManager.adopt]
    split
    · refine hskip fun hb ↦ ?_
      have := (hown b.1 hb).1
      omega
    · rename_i hpos
      split
      · rename_i hget
        refine hskip fun hb ↦ ?_
        have hnone : s.portOf b.1 = none := by
          cases hport : s.portOf b.1 with
          | none => rfl
          | some p => exact absurd (lookup_of_portOf hport) (h.free hb)
        rw [PortManager.getPort, hnone, getD_none] at hget
        omega
      · rcases h.setPort b.1 b.2 with ⟨heq, v, hv, hused⟩ | ⟨-, hset, hothers⟩
        · rw [heq]
          refine hskip fun hb ↦ ?_
          have := hfree b.1 hb
          rw [hbound, hused] at this
          cases this
        · refine ih hset hl' (fun u hu ↦ hown u hu.1) (fun u hu ↦ ?_) fun u hu ↦ ?_
          · refine (mem_cons.mp (hmem u hu.1)).resolve_left fun heq ↦ hu.2 ?_
            rw [← heq]
          · refine hothers _ (fun heq ↦ ?_) (hfree u hu.1)
            exact (hown u hu.1).2 b (hl b mem_cons_self) (Ne.symm hu.2) heq.symm

/-- **`AdoptContainerBindings`**, where the bindings settle what they take away. -/
theorem Matches.adoptContainerBindings (h : Matches nobody s) {again : GoMap String Int}
    (hperm : again.entries.Perm bindings.entries) (hsettled : Settled s bindings) :
    Matches nobody (s.adoptContainerBindings bindings again) := by
  obtain ⟨except, h', hown, hports⟩ := h.foldl_giveWay bindings (l := bindings.entries)
    (fun u hu ↦ hu.elim) fun b hb u hne hp hbound hzero ↦
      ((hsettled ⟨b.2, u⟩ (mem_entries_iff.mpr hp) ⟨b, hb, Ne.symm hne, rfl⟩).resolve_left
        hbound).resolve_left hzero
  have hmem : ∀ u, except u → ⟨u, bound bindings u⟩ ∈ bindings.entries := fun u hu ↦
    mem_of_bound (by have := (hown u hu).1; omega)
  refine h'.foldl_adopt (fun b hb ↦ hperm.mem_iff.mp hb) hown
    (fun u hu ↦ hperm.mem_iff.mpr (hmem u hu)) fun u hu ↦ ?_
  cases hused : (bindings.entries.foldl (fun s ↦ s.giveWay bindings) s).used.lookup (bound bindings u) with
  | none => rfl
  | some v =>
    have hvu : v ≠ u := fun heq ↦ h'.free hu (heq ▸ hused)
    rcases hports _ (hmem u hu) v hused with heq | hv
    · exact absurd heq hvu
    · have hsame : bound bindings v = bound bindings u := hv
      have hne : bound bindings v ≠ 0 := by
        have := (hown u hu).1
        omega
      exact absurd hv ((hown u hu).2 _ (mem_of_bound hne) hvu)

end Adopt

/-- The condition on the steps. -/
def settled (s : PortManager) : Label → Prop
  | .adoptContainerBindings bindings _ => Settled s bindings
  | _ => True

instance (s : PortManager) (a : Label) : Decidable (settled s a) := by
  cases a <;> unfold settled <;> infer_instance

theorem matches_start : Matches nobody .start where
  same := fun _ ↦ rfl
  held := fun _ ↦ iff_of_false (by simp [PortManager.start]) (by simp [PortManager.start])
  free := fun hu ↦ hu.elim

theorem Matches.step {cfg : Config} {s s' : PortManager} {a : Label} (h : Matches nobody s)
    (hok : settled s a) (hstep : s.step cfg a = some s') : Matches nobody s' := by
  revert hstep
  fun_cases PortManager.step cfg s a <;> rintro ⟨⟩
  next u candidates _ => exact h.allocatePort cfg candidates u
  next u p => exact h.setPort_nobody u p
  next u => exact h.releasePort u
  next hperm => exact h.adoptContainerBindings (isPerm_iff.mp hperm) hok
  next bindings => exact h.adoptExistingBindings bindings
  next canScan => exact h.restart canScan
  next host => exact (h.adoptExistingBindings _).releaseGonePorts host
  next hperm =>
    simp only [Bool.and_eq_true, isPerm_iff] at hperm
    obtain ⟨⟨hused, hkeys⟩, hhash⟩ := hperm
    refine ⟨fun u ↦ ?_, fun {u p} _ ↦ ?_, fun hu ↦ hu.elim⟩
    · rw [perm_lookup hhash, perm_lookup hkeys, h.same]
    · rw [perm_lookup hkeys, perm_lookup hused, h.held id]

/-- **The port ledger is a bijection, and it is what is persisted.**  In every run of allocations,
releases, forced ports, adoptions and restarts whose container bindings are settled, a server has one
port and a port one server, the servers' keys and the hash say the same, and an operation that returns
an error has changed nothing. -/
theorem port_ledger_matches {cfg : Config} {s : PortManager}
    (h : Reach (PortManager.step cfg) settled .start s) :
    (∀ u p q, s.used.lookup p = some u → s.used.lookup q = some u → p = q) ∧
    (∀ u p, s.keys.lookup u = some p ↔ s.used.lookup p = some u) ∧
    (∀ u p, s.hash.lookup u = some p ↔ s.used.lookup p = some u) ∧
    (∀ candidates u err, (s.allocatePort cfg candidates u).1 = .error err →
      (s.allocatePort cfg candidates u).2 = s) ∧
    ∀ u p err, (s.setPort u p).1 = .error err → (s.setPort u p).2 = s := by
  have hs : Matches nobody s := h.invariant matches_start fun _ _ _ h hok hstep ↦ h.step hok hstep
  refine ⟨fun u p q ↦ hs.port_unique, fun u p ↦ hs.held id, fun u p ↦ ?_, ?_, ?_⟩
  · rw [hs.same, hs.held id]
  · intro candidates u err herr
    rw [PortManager.allocatePort] at herr ⊢
    split
    · rfl
    split
    · rename_i hnone _ _ hp
      simp only [hnone, hp] at herr
      cases herr
    · rfl
  · intro u p err herr
    rw [PortManager.setPort] at herr ⊢
    split
    · rfl
    · rename_i hnone
      simp only [hnone] at herr
      cases herr

/-- Two servers have swapped their ports while the node was down, and a third one is new. -/
def swapped : List Label :=
  [.setPort "o" 25600, .setPort "u" 25601, .restart true,
    .adoptContainerBindings ⟨[⟨"u", 25600⟩, ⟨"o", 25601⟩], by simp [List.NodupKeys, List.keys]⟩
      ⟨[⟨"o", 25601⟩, ⟨"u", 25600⟩], by simp [List.NodupKeys, List.keys]⟩,
    .allocatePort "x" [25601, 25600, 25602]]

def range : Config := ⟨25600, 25602, fun _ ↦ ""⟩

theorem port_ledger_matches_swapped : ∃ s, Reach (PortManager.step range) settled .start s ∧
    s.used.lookup 25600 = some "u" ∧ s.used.lookup 25601 = some "o" ∧
    s.keys.lookup "u" = some 25600 ∧ s.keys.lookup "o" = some 25601 := by
  have hexec : (exec (PortManager.step range) settled .start swapped).map
      (fun s ↦ (s.used.lookup 25600, s.used.lookup 25601)) = some (some "u", some "o") := by
    decide +kernel
  obtain ⟨s, hs, hv⟩ := exists_reach_of_exec hexec
  obtain ⟨hu, ho⟩ := Prod.mk.inj hv
  obtain ⟨-, hkeys, -⟩ := port_ledger_matches hs
  exact ⟨s, hs, hu, ho, (hkeys _ _).mpr hu, (hkeys _ _).mpr ho⟩

/-- The container of `u` binds the port recorded for `o`, and those of `o` and `x` are both configured for
another one.  `x` comes first. -/
def unsettled : List Label :=
  [.setPort "o" 25600,
    .adoptContainerBindings
      ⟨[⟨"u", 25600⟩, ⟨"o", 25601⟩, ⟨"x", 25601⟩], by simp [List.NodupKeys, List.keys]⟩
      ⟨[⟨"u", 25600⟩, ⟨"x", 25601⟩, ⟨"o", 25601⟩], by simp [List.NodupKeys, List.keys]⟩]

/-- Two servers are persisted with one port: `o` has lost its port in memory only. -/
theorem not_port_ledger_matches : ∃ s, Reach (PortManager.step range) anyStep .start s ∧
    s.used.lookup 25600 = some "u" ∧ s.keys.lookup "u" = some 25600 ∧
    s.keys.lookup "o" = some 25600 :=
  exists_reach_of_any unsettled (by decide +kernel)

/-- **A restart gives the ledger back.**  In every run whose container bindings are settled, a node that
restarts has every port with the server that had it, and no other, whether it reads the servers' keys or
the hash. -/
theorem ledger_survives_restart {cfg : Config} {s : PortManager}
    (h : Reach (PortManager.step cfg) settled .start s) (canScan : Bool) (p : Int) :
    (s.restart canScan).used.lookup p = s.used.lookup p := by
  have hmatches : Matches nobody s :=
    h.invariant matches_start fun _ _ _ hm hok hstep ↦ hm.step hok hstep
  have hkeys : (s.restart canScan).keys = s.keys := by
    unfold PortManager.restart
    split <;> rfl
  refine Option.ext fun u ↦ ?_
  have hheld := (hmatches.restart canScan).held (u := u) (p := p) not_false
  rw [hkeys] at hheld
  exact hheld.symm.trans (hmatches.held not_false)

/-- The ports that were swapped are still so. -/
theorem ledger_survives_restart_swapped : ∃ s, Reach (PortManager.step range) settled .start s ∧
    (s.restart false).used.lookup 25600 = some "u" := by
  have hexec : (exec (PortManager.step range) settled .start swapped).map
      (fun s ↦ s.used.lookup 25600) = some (some "u") := by
    decide +kernel
  obtain ⟨s, hs, hu⟩ := exists_reach_of_exec hexec
  exact ⟨s, hs, (ledger_survives_restart hs false 25600).trans hu⟩

end Dylaris.Ports
