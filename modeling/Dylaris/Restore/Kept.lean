import Dylaris.Restore.Swap

/-!
# A restore does not lose the server

`restore_keeps_server`: in every run of restores, failures, deaths, boots, cleanups and redeliveries
whose steps are `Careful`, the complete old tree or the complete restored tree is in the server's
directory or under a name that no cleanup takes, and the other backups exist.

`not_kept_crash_between_renames` is a run that is not careful: the process dies between the two
renames, and the cleanup at the next boot takes the stage, which no running restore owns, and the
stash, whose modification time is that of the server's directory.  The redelivery finds nothing, not
even the archive it was to restore.
-/

set_option autoImplicit false

namespace Dylaris.Restore

open Machine State

variable {cfg : Config} {old : Tree} {s s' : State} {r : Run}

/-! ## Beside the restore -/

variable {n : String} {left : Removal}

/-- A directory that the cleanup takes is removed, whole or in part. -/
theorem Kept.removeAll (h : Kept cfg old s)
    (hn : cleanupMatches n = true) (hrisk : n ∉ s.atRisk cfg)
    (hstage : ∀ r, s.run = some r → cfg.stage r.random ≠ n) : Kept cfg old (s.removeAll n left) := by
  have hne : n ≠ cfg.uuid := uuid_ne_of_matches cfg.isUUID hn
  have hdir : ∀ m, m ≠ n → (s.removeAll n left).dir m = s.dir m :=
    fun m hm ↦ dir_removeAll_of_ne left hm
  have hrun : (s.removeAll n left).run = s.run := by cases left <;> rfl
  have hown : (s.removeAll n left).ownStages = s.ownStages := by cases left <;> rfl
  refine ⟨(deleted_removeAll left).trans h.live, ?_, ?_, fun r hr ↦ ?_⟩
  · rw [treeHolder, hrun]
    refine h.tree.of_ne (.inl hn) (fun heq ↦ hrisk ?_) hdir
    simp [atRisk, heq, hne]
  · rw [archiveHolder, hrun]
    refine h.archives.of_ne (.inl hn) (fun heq ↦ hrisk ?_) hdir
    simp [atRisk, heq, hne]
  · rw [hrun] at hr
    exact (h.run r hr).frame hown (hdir _ (hstage r hr)) (hdir _ hne.symm)

theorem Kept.reap {t : Int} (h : Kept cfg old s)
    (hok : cfg.stash t ∉ s.atRisk cfg) (hs : Restore.reap cfg s t left = some s') :
    Kept cfg old s' := by
  unfold Restore.reap at hs
  split at hs <;> cases hs
  have hremoved : Kept cfg old (s.removeAll (cfg.stash t) left) :=
    h.removeAll (stash_matches cfg t) hok fun r _ ↦ stage_ne_stash cfg r.random t
  exact ⟨hremoved.live, hremoved.tree, hremoved.archives,
    fun r hr ↦ (hremoved.run r hr).frame rfl rfl rfl⟩

variable {shared : Bool}

theorem Kept.cleanup (h : Kept cfg old s)
    (hok : n ∉ s.atRisk cfg) (hs : Restore.cleanup s n shared left = some s') :
    Kept cfg old s' := by
  obtain ⟨d, -, hs⟩ := Option.bind_eq_some_iff.mp hs
  split at hs <;> cases hs
  rename_i hremoves
  refine h.removeAll (cleanupMatches_of_removes hremoves) hok fun r hr heq ↦ ?_
  have hown : cleanupRemoves s.ownStages shared s.now d.mtime (cfg.stage r.random) = false :=
    cleanupRemoves_own (restoreStage_stageName cfg.uuid r.random)
      (isPending_stageName cfg.isUUID r.random) (h.run r hr).own
  rw [← heq, hown] at hremoves
  cases hremoves

variable {m : String} {mtime : Int}

theorem Somewhere.cleanupWithin {P : Tree → Prop} {holder : Option String}
    (h : Somewhere cfg P s holder)
    (hs : Restore.cleanupWithin s n m shared mtime left = some s')
    (hP : ∀ t, P t → cleanupMatches m = true → t [m] = some .dir → P (t.removeEntry m left)) :
    Somewhere cfg P s' holder := by
  refine h.imp ?_ fun n' d hn hd hPd ↦ ?_
  · rintro ⟨n', d, hd, hsafe, hne, hPd⟩
    obtain ⟨d', hd', hPd'⟩ := dir_cleanupWithin hs hP hd hPd
    exact ⟨n', d', hd', hsafe, hne, hPd'⟩
  · obtain ⟨d', hd', hPd'⟩ := dir_cleanupWithin hs hP hd hPd
    exact ⟨n', d', hn, hd', hPd'⟩

/-- The cleanup inside of a directory: not inside of a stage, and no harm elsewhere. -/
theorem RunInv.cleanupWithin
    (h : RunInv cfg s r) (hs : Restore.cleanupWithin s n m shared mtime left = some s') :
    RunInv cfg s' r := by
  have hrestored : r.phase.afterSwap = true → ∃ d, s'.dir cfg.uuid = some d ∧
      IsRestored cfg d.tree := by
    intro hafter
    obtain ⟨d, hd, hr⟩ := h.restored hafter
    exact dir_cleanupWithin hs (fun t ht hm hdir ↦ ht.cleaned hm hdir left) hd hr
  have hframe : s'.ownStages = s.ownStages ∧
      s'.dir (cfg.stage r.random) = s.dir (cfg.stage r.random) := by
    obtain ⟨x, -, hs⟩ := Option.bind_eq_some_iff.mp hs
    split at hs <;> cases hs
    rename_i hcond
    refine ⟨rfl, dir_removeEntry_of_ne left ?_⟩
    rintro rfl
    exact absurd (stage_matches cfg r.random) (by rw [hcond.1]; exact Bool.false_ne_true)
  refine ⟨hframe.1 ▸ h.own, ?_, hrestored, h.todo, ?_, h.alive⟩
  · rw [hframe.2]
    exact h.staged
  intro st name rest hphase d' p hd' hp
  obtain ⟨d, hd, -⟩ := h.restored (by rw [hphase]; rfl)
  have hnone := h.cleared st name rest hphase d p hd hp
  obtain ⟨d'', hd'', hnone'⟩ := dir_cleanupWithin (P := fun t ↦ t p = none) hs
    (fun t ht _ _ ↦ Option.eq_none_iff_forall_ne_some.mpr fun nd hnd ↦ by
      rw [Tree.removeEntry_sub hnd] at ht
      cases ht) hd hnone
  rw [hd', Option.some_inj] at hd''
  rw [hd'']
  exact hnone'

theorem Kept.cleanupWithin
    (h : Kept cfg old s) (hs : Restore.cleanupWithin s n m shared mtime left = some s') :
    Kept cfg old s' := by
  have hframe : s'.run = s.run ∧ s'.deleted = s.deleted := by
    obtain ⟨x, -, hs⟩ := Option.bind_eq_some_iff.mp hs
    split at hs <;> cases hs
    exact ⟨rfl, rfl⟩
  refine ⟨hframe.2.trans h.live, ?_, ?_, fun r hr ↦ ?_⟩
  · rw [treeHolder, hframe.1]
    exact h.tree.cleanupWithin hs fun t ht hm hdir ↦ ht.cleaned hm hdir left
  · rw [archiveHolder, hframe.1]
    exact h.archives.cleanupWithin hs fun t ht hm _ ↦ ht.cleaned hm left
  · rw [hframe.1] at hr
    exact (h.run r hr).cleanupWithin hs

/-- The process dies with nothing at risk. -/
theorem Kept.die (h : Kept cfg old s) (hok : s.atRisk cfg = []) :
    Kept cfg old { s with run := none, ownStages := [], reaping := [] } := by
  have hserver : ∀ n, s.treeHolder cfg = some n ∨ s.archiveHolder cfg = some n → n = cfg.uuid := by
    intro n hn
    by_contra hne
    have hmem : n ∈ s.atRisk cfg := by
      rcases hn with hn | hn <;> simp [atRisk, hn, hne]
    rw [hok] at hmem
    cases hmem
  have htree := h.tree.toServer fun n hn ↦ hserver n (.inl hn)
  have harchives := h.archives.toServer fun n hn ↦ hserver n (.inr hn)
  exact .idle h.live rfl htree harchives

/-- A server that is not deleted is not purged. -/
theorem Kept.purge {target stashed : Removal} (h : Kept cfg old s) (hr : s.run = some r)
    (hs : Restore.purge cfg s r target stashed = some s') : Kept cfg old s' := by
  unfold Restore.purge at hs
  split at hs
  · rename_i st hphase
    exact absurd hphase ((h.run r hr).alive st)
  · cases hs

/-! ## Every step, and every run -/

/-- A step of the running restore. -/
theorem Kept.bind {f : Run → Option State} (hs : s.run.bind f = some s')
    (hf : ∀ r, s.run = some r → f r = some s' → Kept cfg old s') : Kept cfg old s' := by
  obtain ⟨r, hr, hs⟩ := Option.bind_eq_some_iff.mp hs
  exact hf r hr hs

theorem Kept.step {a : Label} (h : Kept cfg old s) (hold : Rooted old) (hok : Careful cfg s a)
    (hs : Restore.step cfg s a = some s') : Kept cfg old s' := by
  cases a with
  | clock t | refuse reason =>
    cases hs
    exact ⟨h.live, h.tree, h.archives, fun r hr ↦ (h.run r hr).frame rfl rfl rfl⟩
  | start k m => exact h.start hs
  | reap t left => exact h.reap hok hs
  | cleanup n shared left => exact h.cleanup hok hs
  | cleanupWithin n m shared mtime left => exact h.cleanupWithin hs
  | die =>
    cases hs
    exact h.die hok
  | deleteServer => exact hok.elim
  | proceed err => exact .bind hs fun r hr hs ↦ h.proceed hr hs
  | measured budget => exact .bind hs fun r hr hs ↦ h.measured hr hs
  | entry e f => exact .bind hs fun r hr hs ↦ h.entry hr hok hs
  | tarFailed err => exact .bind hs fun r hr hs ↦ h.tarFailed hr hs
  | eof => exact .bind hs fun r hr hs ↦ h.eof hr hs
  | checksum err => exact .bind hs fun r hr hs ↦ h.checksum hr hs
  | check readFails lstatFails => exact .bind hs fun r hr hs ↦ h.check hr hs
  | stash statFails err => exact .bind hs fun r hr hs ↦ h.stash hr hs
  | swap err => exact .bind hs fun r hr hs ↦ h.swap hr hs
  | rollBack err => exact .bind hs fun r hr hs ↦ h.rollBack hr hs
  | keep lstatFails err => exact .bind hs fun r hr hs ↦ h.keep hr hok hs
  | discard left => exact .bind hs fun r hr hs ↦ h.discard hr hs
  | carryStart lstatFails => exact .bind hs fun r hr hs ↦ h.carryStart hr hok hs
  | dropCopy left => exact .bind hs fun r hr hs ↦ h.dropCopy hr hs
  | move lstatFails err => exact .bind hs fun r hr hs ↦ h.move hr hold hok hs
  | carried => exact .bind hs fun r hr hs ↦ h.carried hr hs
  | purge target stashed => exact .bind hs fun r hr hs ↦ h.purge hr hs
  | succeed => exact .bind hs fun r hr hs ↦ h.succeed hr hs

/-- The server stands in its directory, and no restore of it is running. -/
structure Starts (cfg : Config) (old : Tree) (s : State) : Prop where
  live : s.deleted = false
  idle : s.run = none
  server : ∃ mtime, s.dir cfg.uuid = some ⟨old, mtime⟩
  rooted : Rooted old

theorem Starts.kept (h : Starts cfg old s) : Kept cfg old s := by
  obtain ⟨mtime, hserver⟩ := h.server
  exact .idle h.live h.idle (.inr ⟨_, _, rfl, hserver, .inl (.refl [] old)⟩)
    (.inr ⟨_, _, rfl, hserver, fun _ _ ↦ rfl⟩)

/-- A directory of this name is not removed by the cleanup, whatever its age and whatever restores
are running. -/
def NeverRemoved (n : String) : Prop :=
  ∀ own shared now mtime, cleanupRemoves own shared now mtime n = false

theorem neverRemoved_of_not_matches (h : cleanupMatches n = false) : NeverRemoved n := by
  intro own shared now mtime
  by_contra hremoves
  rw [cleanupMatches_of_removes (Bool.not_eq_false _ ▸ hremoves)] at h
  cases h

/-- The server's directory has been moved aside, and what is to take its place is not there yet. -/
def Phase.betweenRenames : Phase → Bool
  | .swapping _ | .rollingBack _ _ | .keeping _ _ (some _) => true
  | _ => false

theorem treeHolder_of_not_between {p : Phase} (h : p.betweenRenames = false) :
    p.treeHolder cfg = some cfg.uuid := by
  cases p with
  | swapping st => cases h
  | rollingBack st message => cases h
  | keeping st todo ending => cases ending with
    | some message => cases h
    | none => rfl
  | _ => rfl

/-- **A restore never loses the server.**  In every run whose steps are careful, and in every state of
it: the complete old tree or the complete restored tree is there — under a name that no cleanup takes,
unless a restore is between its two renames at that moment — and so are the other backups. -/
theorem restore_keeps_server {s₀ : State} (h₀ : Starts cfg old s₀)
    (h : Reach (step cfg) (Careful cfg) s₀ s) :
    (∃ n d, s.dir n = some d ∧ Whole cfg old d.tree ∧
      ((∀ r, s.run = some r → r.phase.betweenRenames = false) → NeverRemoved n)) ∧
    ∃ n d, s.dir n = some d ∧ HasArchives old d.tree := by
  have hkept : Kept cfg old s :=
    h.invariant h₀.kept fun t a t' ht hok hstep ↦ ht.step h₀.rooted hok hstep
  constructor
  · rcases hkept.tree with ⟨n, d, hd, hsafe, -, hwhole⟩ | ⟨n, d, hn, hd, hwhole⟩
    · exact ⟨n, d, hd, hwhole, fun _ ↦ neverRemoved_of_not_matches hsafe⟩
    · refine ⟨n, d, hd, hwhole, fun hbetween ↦ ?_⟩
      have hserver : s.treeHolder cfg = some cfg.uuid := by
        rw [treeHolder]
        cases hrun : s.run with
        | none => rfl
        | some r => exact treeHolder_of_not_between (hbetween r hrun)
      rw [← Option.some.inj (hserver.symm.trans hn)]
      exact neverRemoved_of_not_matches (cleanupMatches_uuid cfg.isUUID)
  · rcases hkept.archives with ⟨n, d, hd, -, -, harchives⟩ | ⟨n, d, -, hd, harchives⟩
    · exact ⟨n, d, hd, harchives⟩
    · exact ⟨n, d, hd, harchives⟩

/-! ## Two runs -/

/-- A restore of one file. -/
def command : Config :=
  ⟨"0a1b2c3d", by decide, ["srv"], [⟨.reg, "world/level.dat", "", [1, 2, 3]⟩]⟩

/-- A server with a world and a backup. -/
def oldServer : Tree := fun p ↦
  if p = [backupDirName] ∨ p = ["world"] then some .dir
  else if p = [backupDirName, "7.tar.gz"] then some (.file [31, 139])
  else if p = ["world", "level.dat"] then some (.file [9])
  else none

/-- Two days after the server's directory last gained or lost an entry. -/
def commanded : State := ⟨[("0a1b2c3d", ⟨oldServer, 0⟩)], 200000, false, [], [], none, []⟩

theorem rooted_oldServer : Rooted oldServer := by
  intro h p nd hp hnd
  unfold oldServer at hnd
  split at hnd
  · rename_i hdir
    rcases hdir with rfl | rfl <;> cases hp <;> decide
  split at hnd
  · rename_i hfile
    subst hfile
    cases hp
    decide
  · split at hnd
    · rename_i hfile
      subst hfile
      cases hp
      decide
    · cases hnd

theorem starts_commanded : Starts command oldServer commanded :=
  ⟨rfl, rfl, ⟨0, rfl⟩, rooted_oldServer⟩

/-- A restore up to its first rename. -/
def unpacking (k : Nat) : List Label :=
  [.start k .ok, .proceed none, .proceed none, .proceed none, .proceed none, .proceed none,
    .measured 1000000, .entry ⟨.reg, "world/level.dat", "", [1, 2, 3]⟩ .none, .eof, .checksum none,
    .check false false, .stash false none]

/-- A restore succeeds, its process dies before the stash is removed, and the cleanup removes it two
days later; the redelivery can neither put its stage in place nor its stash back. -/
def redelivered : List Label :=
  unpacking 7 ++ ([.swap none, .carryStart false, .dropCopy .complete, .move false none,
    .dropCopy .complete, .move false none, .dropCopy .complete, .move false none,
    .dropCopy .complete, .move false none, .carried, .succeed, .die, .clock 400000,
    .cleanup (command.stash 200000) false .complete] : List Label) ++ unpacking 8 ++
  ([.swap (some "input/output error"), .rollBack (some "input/output error"), .keep false none,
    .discard .complete, .die, .clock 900000] : List Label)

theorem restore_keeps_server_redelivered :
    ∃ s, Reach (step command) (Careful command) commanded s ∧
      s.dirs.map Prod.fst = [keptName (command.stash 400000)] ∧
      (∃ n d, s.dir n = some d ∧ Whole command oldServer d.tree ∧
        ((∀ r, s.run = some r → r.phase.betweenRenames = false) → NeverRemoved n)) ∧
      ∃ n d, s.dir n = some d ∧ HasArchives oldServer d.tree := by
  have hexec : (exec (step command) (Careful command) commanded redelivered).map
      (fun s ↦ s.dirs.map Prod.fst) = some [keptName (command.stash 400000)] := by
    decide +kernel
  obtain ⟨s, hreach, hnames⟩ := exists_reach_of_exec hexec
  exact ⟨s, hreach, hnames, restore_keeps_server starts_commanded hreach⟩

/-- The process dies between the two renames.  The cleanup at the next boot takes the stage and the
stash, and the redelivery fails for want of the archive. -/
def crashed : List Label :=
  unpacking 7 ++ ([.die, .clock 200060, .cleanup (command.stage 7) false .complete,
    .cleanup (command.stash 200000) false .complete, .start 8 .ok, .proceed none, .proceed none,
    .proceed (some "no such file or directory"), .discard .complete] : List Label)

/-- **A process that dies between the two renames loses the server**, and all its backups with it. -/
theorem not_kept_crash_between_renames :
    ∃ s, Reach (step command) anyStep commanded s ∧ s.run = none ∧ s.deleted = false ∧
      ∀ n, s.dir n = none := by
  have hexec : (exec (step command) anyStep commanded crashed).map
      (fun s ↦ (s.run, s.deleted, s.dirs.map Prod.fst)) = some (none, false, []) := by
    decide +kernel
  obtain ⟨s, hreach, hs⟩ := exists_reach_of_exec hexec
  obtain ⟨hrun, hs⟩ := Prod.mk.inj hs
  obtain ⟨hdeleted, hnames⟩ := Prod.mk.inj hs
  refine ⟨s, hreach, hrun, hdeleted, fun n ↦ ?_⟩
  rw [dir, List.map_eq_nil_iff.mp hnames]
  rfl

end Dylaris.Restore
