import Dylaris.Restore.Copies

/-!
# Where a restore has the server

Between its first rename and the end of `carryArchivesAcrossSwap` a restore has, in its stash, the
only copy of something: of the whole server until the second rename, of the backup archives until they
are carried over.  The stash is under a name that the cleanup takes, and a process that dies leaves it
there.  `State.atRisk` names the directory this is about, and `Careful` the runs in which nothing goes
wrong with it: the process does not die, nothing removes it, `keepStash` moves it, and no reading says
that it is not there when it is.  Outside of that window everything may fail.  Unpacking, though, must
not lose data without an error: the two faults that `RunRestore` does not hear of are excluded too.

The invariant `Kept` says where the server and its archives are at every operation (`treeHolder`,
`archiveHolder`), and what is true of the stage before the swap and of the server's directory after it
(`RunInv`).  This file has the operations up to the first rename.
-/

set_option autoImplicit false

namespace Dylaris.Restore

/-! ## Who holds what -/

/-- Where what was in the server's directory is, once it may have been moved aside. -/
def Stash.holder (cfg : Config) (st : Stash) (otherwise : Option String) : Option String :=
  if st.moved then some (cfg.stash st.time) else otherwise

/-- Where the archives are, once the restored tree is in place and these entries are still to be
carried over.  There is no such place where the restore began without a server: what archives there
are are then out of reach. -/
def Stash.carrier (cfg : Config) (st : Stash) (todo : List String) : Option String :=
  if backupDirName ∈ todo then st.holder cfg none else some cfg.uuid

/-- The directory with the server. -/
def Phase.treeHolder (cfg : Config) : Phase → Option String
  | .swapping st | .rollingBack st _ | .keeping st _ (some _) => st.holder cfg (some cfg.uuid)
  | _ => some cfg.uuid

/-- The directory with the backup archives. -/
def Phase.archiveHolder (cfg : Config) : Phase → Option String
  | .swapping st | .rollingBack st _ | .keeping st _ (some _) => st.holder cfg (some cfg.uuid)
  | .swapped st => st.carrier cfg nodeOwnedRootEntries
  | .carrying st todo | .keeping st todo none => st.carrier cfg todo
  | .moving st name rest => st.carrier cfg (name :: rest)
  | _ => some cfg.uuid

def State.treeHolder (cfg : Config) (s : State) : Option String :=
  s.run.elim (some cfg.uuid) fun r ↦ r.phase.treeHolder cfg

def State.archiveHolder (cfg : Config) (s : State) : Option String :=
  s.run.elim (some cfg.uuid) fun r ↦ r.phase.archiveHolder cfg

/-- The stash of the running restore, while it has the only copy of something. -/
def State.atRisk (cfg : Config) (s : State) : List String :=
  ((s.treeHolder cfg).toList ++ (s.archiveHolder cfg).toList).filter fun n ↦ n ≠ cfg.uuid

/-- A fault that loses data and that the restore does not hear of. -/
def Fault.silent : Fault → Bool
  | .closed _ | .unlinked => true
  | .none | .failed _ | .copying _ => false

/-- The steps in which nothing happens to a stash that has the only copy of something. -/
def Careful (cfg : Config) (s : State) : Label → Prop
  | .entry _ f => f.silent = false
  | .keep lstatFails err => s.atRisk cfg ≠ [] → lstatFails = false ∧ err = none
  | .carryStart lstatFails | .move lstatFails _ => s.atRisk cfg ≠ [] → lstatFails = false
  | .reap t _ => cfg.stash t ∉ s.atRisk cfg
  | .cleanup n _ _ => n ∉ s.atRisk cfg
  | .die => s.atRisk cfg = []
  | .deleteServer => False
  | _ => True

instance (cfg : Config) (s : State) (a : Label) : Decidable (Careful cfg s a) := by
  cases a <;> unfold Careful <;> infer_instance

variable {cfg : Config} {old : Tree} {s s' : State} {r : Run}

/-! ## The invariant -/

/-- The stage has become the server's directory. -/
def Phase.afterSwap : Phase → Bool
  | .swapped _ | .purging _ | .carrying _ _ | .moving _ _ _ | .keeping _ _ none | .finishing => true
  | _ => false

/-- The restored tree is in place, and no entry is half moved. -/
def Phase.inPlace : Phase → Bool
  | .swapped _ | .carrying _ _ | .keeping _ _ none | .finishing => true
  | _ => false

/-- The entries of the archive that the stage was unpacked from. -/
def Phase.read (cfg : Config) : Phase → Option (List Entry)
  | .opening _ | .measuring => some []
  | .extracting x | .draining x => some x.seen
  | .checking _ | .stashing | .swapping _ => some cfg.archive
  | _ => none

/-- The entries still to be carried over. -/
def Phase.todo : Phase → List String
  | .carrying _ todo | .keeping _ todo none => todo
  | .moving _ name rest => name :: rest
  | _ => []

/-- What is true of the disk at the operation a restore does next. -/
structure RunInv (cfg : Config) (s : State) (r : Run) : Prop where
  own : cfg.stage r.random ∈ s.ownStages
  staged : ∀ d seen, s.dir (cfg.stage r.random) = some d → r.phase.read cfg = some seen →
    extractAll (cfg.stagePath r.random) seen = some d.tree
  restored : r.phase.afterSwap = true → ∃ d, s.dir cfg.uuid = some d ∧ IsRestored cfg d.tree
  todo : r.phase.todo <:+ nodeOwnedRootEntries
  cleared : ∀ st name rest, r.phase = .moving st name rest → ∀ d p, s.dir cfg.uuid = some d →
    p.head? = some name → d.tree p = none
  alive : ∀ st, r.phase ≠ .purging st

/-- **The invariant**: the server and its archives are out of reach, or where the running restore has
them. -/
structure Kept (cfg : Config) (old : Tree) (s : State) : Prop where
  live : s.deleted = false
  tree : Somewhere cfg (Whole cfg old) s (s.treeHolder cfg)
  archives : Somewhere cfg (HasArchives old) s (s.archiveHolder cfg)
  run : ∀ r, s.run = some r → RunInv cfg s r

/-! ### Names -/

theorem stage_matches (cfg : Config) (k : Nat) : cleanupMatches (cfg.stage k) = true :=
  cleanupMatches_stageName cfg.uuid k

theorem stash_matches (cfg : Config) (t : Int) : cleanupMatches (cfg.stash t) = true :=
  cleanupMatches_stashName cfg.uuid t

theorem stage_ne_uuid (cfg : Config) (k : Nat) : cfg.stage k ≠ cfg.uuid :=
  uuid_ne_of_matches cfg.isUUID (stage_matches cfg k)

theorem stash_ne_uuid (cfg : Config) (t : Int) : cfg.stash t ≠ cfg.uuid :=
  uuid_ne_of_matches cfg.isUUID (stash_matches cfg t)

theorem stage_ne_stash (cfg : Config) (k : Nat) (t : Int) : cfg.stage k ≠ cfg.stash t :=
  stageName_ne_stashName cfg.uuid k t

variable {k : Nat} {p : Phase}

/-- A change to a stage alone. -/
theorem Somewhere.of_stage {P : Tree → Prop} (h : Somewhere cfg P s (some cfg.uuid))
    (hdir : ∀ n, n ≠ cfg.stage k → s'.dir n = s.dir n) : Somewhere cfg P s' (some cfg.uuid) :=
  h.of_ne (.inl (stage_matches cfg k)) (fun heq ↦ stage_ne_uuid cfg k (Option.some.inj heq).symm)
    hdir

/-! ### Assembling it -/

/-- The restore goes on to a phase. -/
theorem Kept.goto (hlive : s.deleted = false)
    (htree : Somewhere cfg (Whole cfg old) s (p.treeHolder cfg))
    (harchives : Somewhere cfg (HasArchives old) s (p.archiveHolder cfg))
    (hrun : RunInv cfg s ⟨r.random, p⟩) : Kept cfg old (s.goto r p) where
  live := hlive
  tree := htree
  archives := harchives
  run r' hr' := by
    cases hr'
    exact ⟨hrun.own, hrun.staged, hrun.restored, hrun.todo, hrun.cleared, hrun.alive⟩

/-- No restore is running. -/
theorem Kept.idle (hlive : s.deleted = false) (hidle : s.run = none)
    (htree : Somewhere cfg (Whole cfg old) s (some cfg.uuid))
    (harchives : Somewhere cfg (HasArchives old) s (some cfg.uuid)) : Kept cfg old s where
  live := hlive
  tree := by
    rw [State.treeHolder, hidle]
    exact htree
  archives := by
    rw [State.archiveHolder, hidle]
    exact harchives
  run r' hr' := by
    rw [hidle] at hr'
    cases hr'

/-- Before the second rename only the stage matters. -/
theorem RunInv.before (hp : p.afterSwap = false) (hown : cfg.stage k ∈ s.ownStages)
    (hstaged : ∀ d seen, s.dir (cfg.stage k) = some d → p.read cfg = some seen →
      extractAll (cfg.stagePath k) seen = some d.tree) : RunInv cfg s ⟨k, p⟩ where
  own := hown
  staged := hstaged
  restored h := by
    rw [hp] at h
    cases h
  todo := by
    have hnil : p.todo = [] := by
      cases p with
      | keeping st todo ending => cases ending with
        | some message => rfl
        | none => cases hp
      | carrying st todo => cases hp
      | moving st name rest => cases hp
      | _ => rfl
    rw [hnil]
    exact List.nil_suffix
  cleared st name rest h := by
    cases h
    cases hp
  alive st h := by
    cases h
    cases hp

/-- After the second rename it is the server's directory. -/
theorem RunInv.after (hp : p.inPlace = true) (hown : cfg.stage k ∈ s.ownStages)
    (hrestored : ∃ d, s.dir cfg.uuid = some d ∧ IsRestored cfg d.tree)
    (htodo : p.todo <:+ nodeOwnedRootEntries) : RunInv cfg s ⟨k, p⟩ where
  own := hown
  staged d seen _ hseen := by
    cases p with
    | opening o | measuring | extracting x | draining x | checking extracted | stashing
    | swapping st => cases hp
    | _ => cases hseen
  restored _ := hrestored
  todo := htodo
  cleared st name rest h := by
    cases h
    cases hp
  alive st h := by
    cases h
    cases hp

/-- A step beside the restore, that leaves its stage and the server's directory alone. -/
theorem RunInv.frame (h : RunInv cfg s r) (hown : s'.ownStages = s.ownStages)
    (hstage : s'.dir (cfg.stage r.random) = s.dir (cfg.stage r.random))
    (hserver : s'.dir cfg.uuid = s.dir cfg.uuid) : RunInv cfg s' r where
  own := hown ▸ h.own
  staged := by
    rw [hstage]
    exact h.staged
  restored := by
    rw [hserver]
    exact h.restored
  todo := h.todo
  cleared := by
    rw [hserver]
    exact h.cleared
  alive := h.alive

/-- A phase in which nothing is at risk. -/
def Phase.Calm (cfg : Config) (p : Phase) : Prop :=
  p.treeHolder cfg = some cfg.uuid ∧ p.archiveHolder cfg = some cfg.uuid

section

variable (h : Kept cfg old s)

include h

theorem Kept.during (hr : s.run = some r) (hp : r.phase = p) :
    Somewhere cfg (Whole cfg old) s (p.treeHolder cfg) ∧
      Somewhere cfg (HasArchives old) s (p.archiveHolder cfg) ∧ RunInv cfg s r := by
  obtain ⟨-, htree, harchives, hrun⟩ := h
  rw [State.treeHolder, hr] at htree
  rw [State.archiveHolder, hr] at harchives
  exact hp ▸ ⟨htree, harchives, hrun r hr⟩

/-- From a phase in which nothing is at risk to another one before the swap. -/
theorem Kept.goto_calm {q : Phase} (hr : s.run = some r)
    (hphase : r.phase = q) (hq : q.Calm cfg) (hp : p.Calm cfg) (hbefore : p.afterSwap = false)
    (hread : p.read cfg = none ∨ p.read cfg = q.read cfg) : Kept cfg old (s.goto r p) := by
  refine .goto h.live ?_ ?_ (.before hbefore (h.run r hr).own fun d seen hd hseen ↦ ?_)
  · rw [hp.1, ← hq.1]
    exact (h.during hr hphase).1
  · rw [hp.2, ← hq.2]
    exact (h.during hr hphase).2.1
  · rcases hread with hread | hread
    · rw [hread] at hseen
      cases hseen
    · exact (h.run r hr).staged d seen hd (by rw [hphase, ← hread, hseen])

theorem Kept.fail {q : Phase} {message : String} (hr : s.run = some r)
    (hphase : r.phase = q) (hq : q.Calm cfg) : Kept cfg old (s.fail r message) :=
  h.goto_calm hr hphase hq ⟨rfl, rfl⟩ rfl (.inl rfl)

/-! ## Until the swap -/

theorem Kept.start {m : Made}
    (hs : Restore.start cfg s k m = some s') : Kept cfg old s' := by
  unfold Restore.start at hs
  split at hs
  · cases hs
  rename_i hcond
  rw [not_or, Bool.not_eq_true, Option.isSome_eq_false_iff, Option.isNone_iff_eq_none] at hcond
  have hidle := hcond.1
  have htree := h.tree
  have harchives := h.archives
  rw [State.treeHolder, hidle] at htree
  rw [State.archiveHolder, hidle] at harchives
  -- The stage is the one directory that changes.
  have hmade : ∀ n, n ≠ cfg.stage k →
      Shelf.get (Shelf.put s.dirs (cfg.stage k) ⟨Tree.empty, s.now⟩) n = s.dir n :=
    fun n hn ↦ (Shelf.get_put).trans (if_neg hn)
  cases m with
  | mkdirFailed err =>
    cases hs
    exact .idle h.live hidle htree harchives
  | chmodFailed err left =>
    cases hs
    have hdir : ∀ n, n ≠ cfg.stage k → ((State.removeAll
        { s with dirs := Shelf.put s.dirs (cfg.stage k) ⟨Tree.empty, s.now⟩ } (cfg.stage k)
          left).report .failed ("stage dir: stage dir perms: " ++ err)).dir n = s.dir n :=
      fun n hn ↦ (dir_removeAll_of_ne left hn).trans (hmade n hn)
    refine .idle ((deleted_removeAll left).trans h.live) ?_ (htree.of_stage hdir)
      (harchives.of_stage hdir)
    cases left <;> exact hidle
  | ok =>
    cases hs
    refine ⟨h.live, htree.of_stage hmade, harchives.of_stage hmade, fun r' hr' ↦ ?_⟩
    cases hr'
    refine .before rfl List.mem_cons_self fun d seen hd hseen ↦ ?_
    cases hseen
    have hnew : Shelf.get (Shelf.put s.dirs (cfg.stage k) ⟨Tree.empty, s.now⟩) (cfg.stage k)
        = some ⟨Tree.empty, s.now⟩ := (Shelf.get_put).trans (if_pos rfl)
    rw [← Option.some.inj (hnew.symm.trans hd)]
    rfl

section

variable (hr : s.run = some r)

include hr

theorem Kept.proceed {err : Option String}
    (hs : Restore.proceed s r err = some s') : Kept cfg old s' := by
  unfold Restore.proceed at hs
  split at hs
  · rename_i o hphase
    split at hs
    · cases hs
      exact h.fail hr hphase ⟨rfl, rfl⟩
    · cases hs
      cases o <;> exact h.goto_calm hr hphase ⟨rfl, rfl⟩ ⟨rfl, rfl⟩ rfl (.inr rfl)
  · cases hs

theorem Kept.entry {e : Entry} {f : Fault}
    (hf : f.silent = false) (hs : Restore.entry cfg s r e f = some s') : Kept cfg old s' := by
  unfold Restore.entry at hs
  split at hs
  case h_2 => cases hs
  rename_i x hphase
  obtain ⟨d, hd, hs⟩ := Option.bind_eq_some_iff.mp hs
  obtain ⟨res, hres, rfl⟩ := Option.map_eq_some_iff.mp hs
  match res, hres with
  | .error message, _ => exact h.fail hr hphase ⟨rfl, rfl⟩
  | .ok (x', t), hres =>
    have hseen : extractAll (cfg.stagePath r.random) x.seen = some d.tree :=
      (h.run r hr).staged d x.seen hd (by rw [hphase]; rfl)
    have hunpacked := extractAll_of_extractEntry hres (fun k hk ↦ by rw [hk] at hf; cases hf)
      (fun hl ↦ by rw [hl] at hf; cases hf) hseen
    obtain ⟨htree, harchives, -⟩ := h.during hr hphase
    refine .goto h.live (Somewhere.of_stage htree fun n hn ↦ dir_setDir_of_ne _ hn)
      (Somewhere.of_stage harchives fun n hn ↦ dir_setDir_of_ne _ hn)
      (.before rfl (h.run r hr).own fun d' seen hd' hread ↦ ?_)
    cases hread
    rw [dir_setDir_self hd, Option.some_inj] at hd'
    rw [← hd']
    exact hunpacked

theorem Kept.measured {budget : Int}
    (hs : Restore.measured s r budget = some s') : Kept cfg old s' := by
  unfold Restore.measured at hs
  split at hs <;> cases hs
  rename_i hphase
  exact h.goto_calm hr hphase ⟨rfl, rfl⟩ ⟨rfl, rfl⟩ rfl (.inr rfl)

theorem Kept.tarFailed {err : String}
    (hs : Restore.tarFailed s r err = some s') : Kept cfg old s' := by
  unfold Restore.tarFailed at hs
  split at hs <;> cases hs
  rename_i x hphase
  exact h.fail hr hphase ⟨rfl, rfl⟩

theorem Kept.eof
    (hs : Restore.eof s r = some s') : Kept cfg old s' := by
  unfold Restore.eof at hs
  split at hs <;> cases hs
  rename_i x hphase
  exact h.goto_calm hr hphase ⟨rfl, rfl⟩ ⟨rfl, rfl⟩ rfl (.inr rfl)

/-- What passes the checksum is the archive. -/
theorem Kept.checksum {err : Option String}
    (hs : Restore.checksum cfg s r err = some s') : Kept cfg old s' := by
  unfold Restore.checksum at hs
  split at hs
  · rename_i x hphase
    split at hs
    · cases hs
      exact h.fail hr hphase ⟨rfl, rfl⟩
    · split at hs <;> cases hs
      rename_i hseen
      exact h.goto_calm hr hphase ⟨rfl, rfl⟩ ⟨rfl, rfl⟩ rfl (.inr (congrArg some hseen.symm))
  · cases hs

theorem Kept.check {readFails lstatFails : Bool}
    (hs : Restore.check cfg s r readFails lstatFails = some s') : Kept cfg old s' := by
  revert hs
  fun_cases Restore.check cfg s r readFails lstatFails <;> rintro ⟨⟩
  · exact h.fail hr ‹_› ⟨rfl, rfl⟩
  · exact h.fail hr ‹_› ⟨rfl, rfl⟩
  · exact h.fail hr ‹_› ⟨rfl, rfl⟩
  next hphase _ _ _ => exact h.goto_calm hr hphase ⟨rfl, rfl⟩ ⟨rfl, rfl⟩ rfl (.inr rfl)

end

end

end Dylaris.Restore
