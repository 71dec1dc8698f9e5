import Dylaris.Restore.Invariant

/-!
# The swap, and what is carried across it

The operations of a restore from the first rename on.  Each is one lemma about where things are
(`Somewhere.rename`, `Somewhere.keep`, `Somewhere.move`), used for the server and for the archives,
and one that puts the invariant together again.
-/

set_option autoImplicit false

namespace Dylaris.Restore

open List Option Stash

variable {cfg : Config} {old : Tree} {s s' : State} {r : Run}

/-! ## Where the archives are -/

variable {st : Stash} {n : String}

/-- While the archives are still to be carried, they are in the stash. -/
theorem Stash.eq_of_holder_none (h : st.holder cfg none = some n) : n = cfg.stash st.time := by
  rw [Stash.holder] at h
  split at h
  · exact (Option.some.inj h).symm
  · cases h

theorem Stash.holder_none_ne_uuid (st : Stash) : st.holder cfg none ≠ some cfg.uuid :=
  fun h ↦ stash_ne_uuid cfg st.time (eq_of_holder_none h).symm

variable {todo : List String}

theorem Stash.carrier_of_mem (h : backupDirName ∈ todo) :
    st.carrier cfg todo = st.holder cfg none :=
  if_pos h

theorem Stash.carrier_of_not_mem (h : backupDirName ∉ todo) : st.carrier cfg todo = some cfg.uuid :=
  if_neg h

variable {name : String} {rest : List String}

theorem Stash.carrier_cons_of_ne
    (h : name ≠ backupDirName) : st.carrier cfg (name :: rest) = st.carrier cfg rest := by
  simp only [Stash.carrier, mem_cons, or_iff_right h.symm]

/-! ## The swap -/

variable {err : Option String}

/-- The server's directory becomes the stash. -/
theorem Kept.stash {statFails : Bool} (h : Kept cfg old s)
    (hr : s.run = some r) (hs : Restore.stash cfg s r statFails err = some s') :
    Kept cfg old s' := by
  unfold Restore.stash at hs
  split at hs
  case h_2 => cases hs
  rename_i hphase
  split at hs
  · cases hs
    exact h.goto_calm hr hphase ⟨rfl, rfl⟩ ⟨rfl, rfl⟩ rfl (.inr rfl)
  split at hs
  · cases hs
    exact h.fail hr hphase ⟨rfl, rfl⟩
  obtain ⟨s₁, hs₁, rfl⟩ := map_eq_some_iff.mp hs
  obtain ⟨htree, harchives, hrun⟩ := h.during hr hphase
  obtain ⟨d₁, -, -, hrest, -⟩ := rename_eq_some hs₁
  have hnow : s₁.now = s.now := by rw [hrest]
  rw [hnow]
  refine .goto ((deleted_rename hs₁).trans h.live) (htree.rename (.inr rfl) hs₁)
    (harchives.rename (.inr rfl) hs₁)
    (.before rfl (ownStages_rename hs₁ ▸ hrun.own) fun d seen hd hseen ↦ ?_)
  rw [dir_rename_of_ne hs₁ (stage_ne_uuid cfg _) (stage_ne_stash cfg _ _)] at hd
  exact hrun.staged d seen hd (by rw [hphase]; exact hseen)

/-- The stage becomes the server's directory, which is the restored tree from then on. -/
theorem Kept.swap (h : Kept cfg old s) (hr : s.run = some r)
    (hs : Restore.swap cfg s r err = some s') : Kept cfg old s' := by
  unfold Restore.swap at hs
  split at hs
  case h_2 => cases hs
  rename_i st hphase
  obtain ⟨htree, harchives, hrun⟩ := h.during hr hphase
  split at hs
  · cases hs
    exact .goto h.live htree harchives (.before rfl hrun.own fun d seen _ hseen ↦ by cases hseen)
  obtain ⟨s₁, hs₁, rfl⟩ := map_eq_some_iff.mp hs
  obtain ⟨d, hstage, hfree, -, hget⟩ := rename_eq_some hs₁
  have hserver : s₁.dir cfg.uuid = some d := by rw [hget, if_pos rfl]
  have hrestored : IsRestored cfg d.tree :=
    ⟨r.random, d.tree, hrun.staged d cfg.archive hstage (by rw [hphase]; rfl), .refl _ _⟩
  have hmatches := Or.inl (b := cfg.stage r.random = cfg.uuid) (stage_matches cfg r.random)
  refine .goto ((deleted_rename hs₁).trans h.live)
    (.inr ⟨cfg.uuid, d, rfl, hserver, .inr hrestored⟩) ?_
    (.after rfl (ownStages_rename hs₁ ▸ hrun.own) ⟨d, hserver, hrestored⟩ nil_suffix)
  · -- The archives stay in the stash; without one there was no server for them to be in.
    change Somewhere cfg (HasArchives old) s₁ (st.carrier cfg nodeOwnedRootEntries)
    have hmem : backupDirName ∈ nodeOwnedRootEntries := mem_cons_self
    rw [carrier_of_mem hmem]
    change Somewhere cfg (HasArchives old) s (st.holder cfg (some cfg.uuid)) at harchives
    rw [Stash.holder] at harchives ⊢
    split
    · rename_i hmoved
      rw [if_pos hmoved] at harchives
      exact harchives.rename_of_ne hmatches
        (fun heq ↦ stage_ne_stash cfg _ _ (Option.some.inj heq).symm) hs₁
    · rename_i hmoved
      rw [if_neg hmoved] at harchives
      refine .inl (Aside.rename (harchives.aside fun n hn ↦ ?_) hmatches hs₁)
      rw [← Option.some.inj hn]
      exact hfree

variable {P : Tree → Prop}

/-- The stash becomes the server's directory again. -/
theorem Somewhere.rollBack (h : Somewhere cfg P s (st.holder cfg (some cfg.uuid)))
    (hs : s.rename (cfg.stash st.time) cfg.uuid = some s') :
    Somewhere cfg P s' (some cfg.uuid) := by
  rw [Stash.holder] at h
  split at h
  · exact h.rename (.inl (stash_matches cfg _)) hs
  · obtain ⟨d, -, hfree, -, -⟩ := rename_eq_some hs
    refine .inl (Aside.rename (h.aside fun n hn ↦ ?_) (.inl (stash_matches cfg _)) hs)
    rw [← Option.some.inj hn]
    exact hfree

theorem Kept.rollBack (h : Kept cfg old s) (hr : s.run = some r)
    (hs : Restore.rollBack cfg s r err = some s') : Kept cfg old s' := by
  unfold Restore.rollBack at hs
  split at hs
  case h_2 => cases hs
  rename_i st message hphase
  obtain ⟨htree, harchives, hrun⟩ := h.during hr hphase
  split at hs
  · cases hs
    exact .goto h.live htree harchives (.before rfl hrun.own fun d seen _ hseen ↦ by cases hseen)
  · obtain ⟨s₁, hs₁, rfl⟩ := map_eq_some_iff.mp hs
    exact .goto ((deleted_rename hs₁).trans h.live) (Somewhere.rollBack htree hs₁)
      (Somewhere.rollBack harchives hs₁)
      (.before rfl (ownStages_rename hs₁ ▸ hrun.own) fun d seen _ hseen ↦ by cases hseen)

/-! ## `keepStash` -/

/-- What a stash is needed for, if for anything. -/
def Spare (cfg : Config) (t : Int) (holder : Option String) : Prop :=
  ∀ n, holder = some n → n = cfg.stash t ∨ n = cfg.uuid

theorem Stash.spare {otherwise : Option String}
    (h : Spare cfg st.time otherwise) : Spare cfg st.time (st.holder cfg otherwise) := by
  intro n hn
  rw [Stash.holder] at hn
  split at hn
  · exact .inl (Option.some.inj hn).symm
  · exact h n hn

theorem spare_uuid (cfg : Config) (t : Int) : Spare cfg t (some cfg.uuid) :=
  fun _ hn ↦ .inr (Option.some.inj hn).symm

theorem spare_none (cfg : Config) (t : Int) : Spare cfg t none := fun n hn ↦ by cases hn

theorem Stash.spare_carrier (st : Stash) (todo : List String) :
    Spare cfg st.time (st.carrier cfg todo) := by
  rw [Stash.carrier]
  split
  · exact Stash.spare (spare_none cfg _)
  · exact spare_uuid cfg _

theorem spare_treeHolder (st : Stash) (todo : List String) (ending : Option String) :
    Spare cfg st.time ((Phase.keeping st todo ending).treeHolder cfg) := by
  cases ending with
  | some message => exact Stash.spare (spare_uuid cfg _)
  | none => exact spare_uuid cfg _

theorem spare_archiveHolder (st : Stash) (todo : List String) (ending : Option String) :
    Spare cfg st.time ((Phase.keeping st todo ending).archiveHolder cfg) := by
  cases ending with
  | some message => exact Stash.spare (spare_uuid cfg _)
  | none => exact st.spare_carrier todo

variable {t : Int}

/-- The stash is moved to a name that no cleanup takes. -/
theorem Somewhere.keep {holder : Option String}
    (h : Somewhere cfg P s holder) (hspare : Spare cfg t holder)
    (hs : s.rename (cfg.stash t) (keptName (cfg.stash t)) = some s') :
    Somewhere cfg P s' (some cfg.uuid) := by
  have hmatches := Or.inl (b := cfg.stash t = cfg.uuid) (stash_matches cfg t)
  by_cases hstash : holder = some (cfg.stash t)
  · subst hstash
    left
    rcases h.rename hmatches hs with haside | ⟨n, d, hn, hd, hP⟩
    · exact haside
    · cases hn
      exact ⟨_, d, hd, cleanupMatches_keptName cfg.isUUID t, keptName_ne_uuid cfg.isUUID t, hP⟩
  · refine (h.rename_of_ne hmatches hstash hs).toServer fun n hn ↦ ?_
    rcases hspare n hn with rfl | hn'
    · exact absurd hn hstash
    · exact hn'

/-- The stash stays where it is, which matters only if it is there and something needs it. -/
theorem Somewhere.leave {holder : Option String}
    (h : Somewhere cfg P s holder) (hspare : Spare cfg t holder)
    (hgone : holder = some (cfg.stash t) → s.dir (cfg.stash t) = none) :
    Somewhere cfg P s (some cfg.uuid) := by
  by_cases hstash : holder = some (cfg.stash t)
  · refine .inl (h.aside fun n hn ↦ ?_)
    rw [← Option.some.inj (hstash.symm.trans hn)]
    exact hgone hstash
  · refine h.toServer fun n hn ↦ ?_
    rcases hspare n hn with rfl | hn'
    · exact absurd hn hstash
    · exact hn'

theorem atRisk_ne_nil (hr : s.run = some r)
    (h : r.phase.treeHolder cfg = some n ∨ r.phase.archiveHolder cfg = some n) (hn : n ≠ cfg.uuid) :
    s.atRisk cfg ≠ [] := by
  rcases h with h | h <;> simp [State.atRisk, State.treeHolder, State.archiveHolder, hr, h, hn]

/-- After `keepStash` the restore has failed, or the server's directory is the restored tree. -/
theorem RunInv.afterKeeping {ending : Option String}
    (h : RunInv cfg s r) (hphase : r.phase = .keeping st todo ending)
    (hown : s'.ownStages = s.ownStages) (hserver : s'.dir cfg.uuid = s.dir cfg.uuid) :
    RunInv cfg s' ⟨r.random, Restore.afterKeeping ending⟩ := by
  cases ending with
  | some message => exact .before rfl (hown ▸ h.own) fun d seen _ hseen ↦ by cases hseen
  | none =>
    refine .after rfl (hown ▸ h.own) ?_ nil_suffix
    rw [hserver]
    exact h.restored (by rw [hphase]; rfl)

theorem calm_afterKeeping (cfg : Config) (ending : Option String) :
    (Restore.afterKeeping ending).Calm cfg := by
  cases ending <;> exact ⟨rfl, rfl⟩

variable {lstatFails : Bool}

theorem Kept.keep (h : Kept cfg old s)
    (hr : s.run = some r) (hok : s.atRisk cfg ≠ [] → lstatFails = false ∧ err = none)
    (hs : Restore.keep cfg s r lstatFails err = some s') : Kept cfg old s' := by
  unfold Restore.keep at hs
  split at hs
  case h_2 => cases hs
  rename_i st todo ending hphase
  obtain ⟨htree, harchives, hrun⟩ := h.during hr hphase
  have hcalm := calm_afterKeeping cfg ending
  -- Unless it is needed, the stash may stay.
  have hleave (hgone : lstatFails = false ∧ err = none → s.dir (cfg.stash st.time) = none) :
      Kept cfg old (s.goto r (Restore.afterKeeping ending)) := by
    have hrisk := @atRisk_ne_nil cfg s r (cfg.stash st.time) hr
    rw [hphase] at hrisk
    refine .goto h.live ?_ ?_ (hrun.afterKeeping hphase rfl rfl)
    · rw [hcalm.1]
      exact htree.leave (spare_treeHolder st todo ending) fun hholder ↦
        hgone (hok (hrisk (.inl hholder) (stash_ne_uuid cfg _)))
    · rw [hcalm.2]
      exact harchives.leave (spare_archiveHolder st todo ending) fun hholder ↦
        hgone (hok (hrisk (.inr hholder) (stash_ne_uuid cfg _)))
  split at hs
  · rename_i hcond
    cases hs
    refine hleave ?_
    rintro ⟨hlstat, -⟩
    rw [hlstat, Bool.false_or, isNone_iff_eq_none] at hcond
    exact hcond
  · split at hs
    · cases hs
      exact hleave (by simp)
    · obtain ⟨s₁, hs₁, rfl⟩ := map_eq_some_iff.mp hs
      refine .goto ((deleted_rename hs₁).trans h.live) ?_ ?_
        (hrun.afterKeeping hphase (ownStages_rename hs₁) ?_)
      · rw [hcalm.1]
        exact htree.keep (spare_treeHolder st todo ending) hs₁
      · rw [hcalm.2]
        exact harchives.keep (spare_archiveHolder st todo ending) hs₁
      · exact dir_rename_of_ne hs₁ (stash_ne_uuid cfg _).symm
          (keptName_ne_uuid cfg.isUUID st.time).symm

variable {left : Removal}

theorem Kept.discard (h : Kept cfg old s) (hr : s.run = some r)
    (hs : Restore.discard cfg s r left = some s') : Kept cfg old s' := by
  unfold Restore.discard at hs
  split at hs <;> cases hs
  rename_i message hphase
  obtain ⟨htree, harchives, -⟩ := h.during hr hphase
  exact .idle ((deleted_removeAll left).trans h.live) rfl
    (Somewhere.of_stage htree fun n hn ↦ dir_removeAll_of_ne left hn)
    (Somewhere.of_stage harchives fun n hn ↦ dir_removeAll_of_ne left hn)

/-! ## Carrying the archives over -/

theorem Kept.carryStart (h : Kept cfg old s) (hr : s.run = some r)
    (hok : s.atRisk cfg ≠ [] → lstatFails = false)
    (hs : Restore.carryStart cfg s r lstatFails = some s') : Kept cfg old s' := by
  unfold Restore.carryStart at hs
  split at hs
  case h_2 => cases hs
  rename_i st hphase
  obtain ⟨htree, harchives, hrun⟩ := h.during hr hphase
  have hrestored := hrun.restored (by rw [hphase]; rfl)
  have hrisk : st.carrier cfg nodeOwnedRootEntries = some (cfg.stash st.time) →
      lstatFails = false := fun heq ↦
    hok (atRisk_ne_nil hr (by rw [hphase]; exact .inr heq) (stash_ne_uuid cfg _))
  rw [if_neg (by rw [h.live]; exact Bool.false_ne_true)] at hs
  split at hs
  · rename_i hcond
    cases hs
    refine .goto h.live htree ?_ (.after rfl hrun.own hrestored nil_suffix)
    refine Somewhere.leave harchives (st.spare_carrier _) fun heq ↦ ?_
    rw [hrisk heq, Bool.false_or, isNone_iff_eq_none] at hcond
    exact hcond
  · cases hs
    exact .goto h.live htree harchives (.after rfl hrun.own hrestored suffix_rfl)

/-- The restored copy of an entry is dropped: nothing is lost with it. -/
theorem Somewhere.dropCopy (h : Somewhere cfg (HasArchives old) s (st.carrier cfg (name :: rest))) :
    Somewhere cfg (HasArchives old) (s.removeEntry cfg.uuid name left)
      (st.carrier cfg (name :: rest)) := by
  by_cases hmem : backupDirName ∈ name :: rest
  · rw [carrier_of_mem hmem] at h ⊢
    exact h.of_ne (.inr rfl) st.holder_none_ne_uuid fun n hn ↦ dir_removeEntry_of_ne left hn
  rw [carrier_of_not_mem hmem] at h ⊢
  refine h.imp (fun h ↦ h.of_ne (.inr rfl) fun n hn ↦ dir_removeEntry_of_ne left hn) ?_
  rintro n d hn hd hP
  cases hn
  obtain ⟨mtime, hself⟩ := dir_removeEntry_self hd name left
  refine ⟨cfg.uuid, _, rfl, hself, ?_⟩
  exact hP.of_ne (ne_of_not_mem_cons hmem) fun p hp ↦ Tree.removeEntry_of_ne hp

theorem Kept.dropCopy (h : Kept cfg old s) (hr : s.run = some r)
    (hs : Restore.dropCopy cfg s r left = some s') : Kept cfg old s' := by
  unfold Restore.dropCopy at hs
  split at hs
  case h_2 => cases hs
  rename_i st name rest hphase
  obtain ⟨-, harchives, hrun⟩ := h.during hr hphase
  obtain ⟨d, hd, hrestored⟩ := hrun.restored (by rw [hphase]; rfl)
  have htodo := hrun.todo
  rw [hphase] at htodo
  have hname : name ∈ nodeOwnedRootEntries := htodo.subset mem_cons_self
  obtain ⟨mtime, hserver⟩ := dir_removeEntry_self hd name left
  have hrestored' : IsRestored cfg (d.tree.removeEntry name left) :=
    hrestored.of_nodeOwned hname fun p hp ↦ Tree.removeEntry_of_ne hp
  have htree : Somewhere cfg (Whole cfg old) (s.removeEntry cfg.uuid name left)
      (some cfg.uuid) := .inr ⟨_, _, rfl, hserver, .inr hrestored'⟩
  split at hs
  · cases hs
    refine .goto h.live htree (Somewhere.dropCopy harchives)
      ⟨hrun.own, (fun _ _ _ hseen ↦ by cases hseen), fun _ ↦ ⟨_, hserver, hrestored'⟩, htodo, ?_,
        (fun _ heq ↦ by cases heq)⟩
    rintro st' name' rest' heq d' p hd' hp
    cases heq
    rw [hserver, some_inj] at hd'
    rw [← hd']
    exact Tree.removeEntry_complete_of_eq hp
  · cases hs
    exact .goto h.live htree (Somewhere.dropCopy harchives)
      (.after rfl hrun.own ⟨_, hserver, hrestored'⟩ htodo)

/-- An entry of the node is carried once. -/
theorem not_mem_rest (h : (name :: rest) <:+ nodeOwnedRootEntries) : name ∉ rest :=
  (nodup_cons.mp (h.sublist.nodup (by decide))).1

/-- The archives have been looked for in the stash, and are not there: there are none. -/
theorem Somewhere.skipMove (h : Somewhere cfg (HasArchives old) s (st.carrier cfg (name :: rest)))
    (hold : Rooted old) (htodo : (name :: rest) <:+ nodeOwnedRootEntries)
    (hserver : ∃ d, s.dir cfg.uuid = some d ∧ ∀ p, p.head? = some name → d.tree p = none)
    (hempty : name = backupDirName → ∀ n d, st.holder cfg none = some n → s.dir n = some d →
      d.tree [name] = none) :
    Somewhere cfg (HasArchives old) s (st.carrier cfg rest) := by
  by_cases hname : name = backupDirName
  · subst hname
    rw [carrier_of_not_mem (not_mem_rest htodo)]
    obtain ⟨d, hd, hnone⟩ := hserver
    refine h.imp id fun n d' hn hd' hP ↦ ⟨cfg.uuid, d, rfl, hd, fun p hp ↦ ?_⟩
    rw [hnone p hp]
    by_contra hne
    obtain ⟨nd, hnd⟩ := ne_none_iff_exists'.mp (Ne.symm hne)
    have hentry := hold _ p nd hp hnd
    rw [← hP [backupDirName] rfl, hempty rfl n d' hn hd'] at hentry
    cases hentry
  · rwa [carrier_cons_of_ne hname] at h

/-- The server's directory after an entry has been moved into it. -/
theorem dir_moved {live : Tree} {d : Dir} (hd : s.dir cfg.uuid = some d) :
    ((s.graft cfg.uuid name live).removeEntry (cfg.stash t) name .complete).dir cfg.uuid
      = some ⟨d.tree.graft name live, s.now⟩ := by
  rw [dir_removeEntry_of_ne _ (stash_ne_uuid cfg t).symm, dir_graft_self hd]

/-- The archives are moved with their entry. -/
theorem Somewhere.move {live d : Dir}
    (h : Somewhere cfg (HasArchives old) s (st.carrier cfg (name :: rest)))
    (htodo : (name :: rest) <:+ nodeOwnedRootEntries) (hd : s.dir cfg.uuid = some d)
    (hlive : s.dir (cfg.stash st.time) = some live) :
    Somewhere cfg (HasArchives old)
      ((s.graft cfg.uuid name live.tree).removeEntry (cfg.stash st.time) name .complete)
      (st.carrier cfg rest) := by
  have haside : Aside cfg (HasArchives old) s → Aside cfg (HasArchives old)
      ((s.graft cfg.uuid name live.tree).removeEntry (cfg.stash st.time) name .complete) := by
    intro ha
    refine Aside.of_ne (Aside.of_ne ha (.inr rfl) fun n hn ↦ dir_graft_of_ne live.tree hn)
      (.inl (stash_matches cfg _)) fun n hn ↦ dir_removeEntry_of_ne _ hn
  by_cases hname : name = backupDirName
  · subst hname
    rw [carrier_of_not_mem (not_mem_rest htodo)]
    refine h.imp haside fun n d' hn hd' hP ↦ ⟨cfg.uuid, _, rfl, dir_moved hd, fun p hp ↦ ?_⟩
    rw [eq_of_holder_none hn, hlive, some_inj] at hd'
    subst hd'
    exact (Tree.graft_of_eq hp).trans (hP p hp)
  · rw [carrier_cons_of_ne hname] at h
    refine h.imp haside fun n d' hn hd' hP ↦ ?_
    by_cases hmem : backupDirName ∈ rest
    · -- The archives stay in the stash, another entry leaves it.
      have hstash := eq_of_holder_none (carrier_of_mem hmem ▸ hn)
      subst hstash
      obtain ⟨mtime, hself⟩ := dir_removeEntry_self
        ((dir_graft_of_ne live.tree (stash_ne_uuid cfg _)).trans hd') name .complete
      refine ⟨_, _, hn, hself, ?_⟩
      change HasArchives old (d'.tree.removeEntry name .complete)
      exact hP.of_ne (Ne.symm hname) fun p hp ↦ Tree.removeEntry_of_ne hp
    · rw [carrier_of_not_mem hmem] at hn ⊢
      cases hn
      rw [hd, some_inj] at hd'
      refine ⟨cfg.uuid, _, rfl, dir_moved hd, ?_⟩
      exact HasArchives.of_ne (hd' ▸ hP) (Ne.symm hname) fun p hp ↦ Tree.graft_of_ne hp

theorem Kept.move (h : Kept cfg old s) (hr : s.run = some r) (hold : Rooted old)
    (hok : s.atRisk cfg ≠ [] → lstatFails = false)
    (hs : Restore.move cfg s r lstatFails err = some s') : Kept cfg old s' := by
  unfold Restore.move at hs
  split at hs
  case h_2 => cases hs
  rename_i st name rest hphase
  obtain ⟨htree, harchives, hrun⟩ := h.during hr hphase
  have htodo := hrun.todo
  obtain ⟨d, hd, hrestored⟩ := hrun.restored (by rw [hphase]; rfl)
  have hcleared : ∀ p, p.head? = some name → d.tree p = none :=
    fun p hp ↦ hrun.cleared st name rest hphase d p hd hp
  have hrisk : name = backupDirName → ∀ n, st.holder cfg none = some n → lstatFails = false := by
    intro hname n hn
    have hholder : r.phase.archiveHolder cfg = some n := by
      rw [hphase, Phase.archiveHolder, carrier_of_mem (hname ▸ mem_cons_self), hn]
    have hne : n ≠ cfg.uuid := by
      rintro rfl
      exact st.holder_none_ne_uuid hn
    exact hok (atRisk_ne_nil hr (.inr hholder) hne)
  rw [hphase] at htodo
  have hrest : rest <:+ nodeOwnedRootEntries := (suffix_cons name rest).trans htodo
  split at hs
  · rename_i hfilter
    cases hs
    refine .goto h.live htree (Somewhere.skipMove harchives hold htodo ⟨d, hd, hcleared⟩ ?_)
      (.after rfl hrun.own ⟨d, hd, hrestored⟩ hrest)
    intro hname n d' hn hd'
    rw [eq_of_holder_none hn] at hd'
    rw [hd', hrisk hname n hn] at hfilter
    simpa using hfilter
  · rename_i live hfilter
    obtain ⟨hlive, -⟩ := filter_eq_some_iff.mp hfilter
    split at hs
    · cases hs
      exact .goto h.live htree harchives (.after rfl hrun.own ⟨d, hd, hrestored⟩ htodo)
    split at hs
    · cases hs
    cases hs
    have hgrafted : IsRestored cfg (d.tree.graft name live.tree) :=
      hrestored.of_nodeOwned (htodo.subset mem_cons_self)
        fun p hp ↦ Tree.graft_of_ne hp
    exact .goto h.live (.inr ⟨_, _, rfl, dir_moved hd, .inr hgrafted⟩)
      (Somewhere.move harchives htodo hd hlive)
      (.after rfl hrun.own ⟨_, dir_moved hd, hgrafted⟩ hrest)

theorem Kept.carried (h : Kept cfg old s) (hr : s.run = some r)
    (hs : Restore.carried s r = some s') : Kept cfg old s' := by
  unfold Restore.carried at hs
  split at hs <;> cases hs
  rename_i st hphase
  obtain ⟨htree, harchives, hrun⟩ := h.during hr hphase
  exact .goto h.live htree harchives
    (.after rfl hrun.own (hrun.restored (by rw [hphase]; rfl)) nil_suffix)

theorem Kept.succeed (h : Kept cfg old s) (hr : s.run = some r)
    (hs : Restore.succeed cfg s r = some s') : Kept cfg old s' := by
  unfold Restore.succeed at hs
  split at hs <;> cases hs
  rename_i hphase
  obtain ⟨htree, harchives, -⟩ := h.during hr hphase
  exact .idle h.live rfl htree harchives

end Dylaris.Restore
