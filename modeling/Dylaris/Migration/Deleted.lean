import Dylaris.Migration.Guarded

/-!
# What a migration deletes

Two promises about the source of a migration, and how far they go.

`Guarded` carries the first.  What it does not give is that the job *touches* nothing else of the source.
The job's other writes go to the target, and `Start` lets a target through that lies inside the source:
`nestedJob` copies object `a` over the live object `new/a`.  And a `Delete` of the Core file storage takes
what lies below the key along, manifest or not.  With the two places `Apart` and nothing unnamed below a
manifest key the promise holds, `source_deleted_behind_switch`.

The second is about live writers.  `DeleteSource` removes keys, not contents: a manifest key that is
overwritten after its object was copied is removed with the content that was never copied,
`not_migrated_overwritten`.  As long as what is removed is what the manifest recorded, it is on the
target at that moment, `removed_content_on_target`: what was read back stays there (`Kept`), because
from the verification on no step of the job and no writer of the source reaches the target.
-/

set_option autoImplicit false

namespace Dylaris.Migration

open Machine World

section Run

variable {C S : Type} {hash : C → S} {size : C → Nat} {job : Job} {w w' : World C S}
  {a : Action C S}

variable [DecidableEq S]

/-- An object that a step removes from the source is reached by a `Delete` of `DeleteSource`. -/
theorem reaches_of_removed (hapart : job.req.kind = .migrate → Apart job.src job.target)
    (hg : w.Guarded job) (h : w.step hash size job a = some w') {r : Location}
    (hr : r ∈ job.src.roots) {k : Key} {c : C} (hc : w.store (r.at k) = some c)
    (hgone : w'.store (r.at k) = none) :
    a.isDelete = true ∧ ∃ e todo n, w.stage = .deleting (e :: todo) n ∧
      job.src.reaches e.key (r.at k) = true := by
  have hx : Touches job w a (r.at k) := by
    by_contra hx
    rw [store_of_step h hx, hc] at hgone
    cases hgone
  rcases touches_cases hg hx with ⟨⟨k', c', rfl⟩, _⟩ | ⟨hkind, _, howns⟩ | hdel
  · -- a writer leaves an object where it writes
    cases h
    cases (DataSet.put_of_mem hx).symm.trans hgone
  · exact absurd howns ((hapart hkind).not_owns (DataSet.owns_at hr k))
  · exact hdel

/-! ## The first promise -/

/-- A `Delete` of `DeleteSource` removes only objects the manifest names. -/
def Named (job : Job) (w : World C S) (a : Action C S) : Prop :=
  a.isDelete = true → ∀ e todo n, w.stage = .deleting (e :: todo) n →
    ∀ r ∈ job.src.roots, ∀ k c, w.store (r.at k) = some c →
      job.src.reaches e.key (r.at k) = true → k = e.key ∨ ∃ e' ∈ w.entries, e'.key = k

/-- **The source is deleted behind a verified, switched target.**  With source and target apart and
nothing unnamed below the keys of the manifest: whatever object of the source a step removes, the
log then says that the switch had succeeded, that the verification before it was full and passed,
and that before that the target was read back with the manifest's checksum for its key; and no step
of the job but `DeleteSource` touches the source. -/
theorem source_deleted_behind_switch {store : Addr → Option C}
    (hapart : job.req.kind = .migrate → Apart job.src job.target)
    (h : Reach (step hash size job) (Named job) (start job store) w)
    (hok : Named job w a) (hstep : w.step hash size job a = some w') :
    (∀ r ∈ job.src.roots, ∀ k c, w.store (r.at k) = some c → w'.store (r.at k) = none →
      ∃ report pre e, w.log = .switched :: .verified report :: pre ∧ report.ok = true ∧
        report.mode = .full ∧ e ∈ w.entries ∧ e.key = k ∧ .readBack k e.sum ∈ pre) ∧
    ((∀ k c, a ≠ .live k c) → (∀ todo n, w.stage ≠ .deleting todo n) →
      ∀ x, job.src.Owns x → ¬ Touches job w a x ∧ w'.store x = w.store x) := by
  have hg : w.Guarded job :=
    h.invariant (P := Guarded job) (.start job store) fun _ _ _ hg _ hs ↦ hg.step hs
  refine ⟨fun r hr k c hc hgone ↦ ?_, fun hjob hphase x hx ↦ ?_⟩
  · obtain ⟨hdel, e, todo, n, hstage, hreach⟩ := reaches_of_removed hapart hg hstep hr hc hgone
    have hnamed := hok hdel e todo n hstage r hr k c hc hreach
    unfold Guarded at hg
    rw [hstage] at hg
    obtain ⟨_, htodo, report, pre, hlog, hrep, hmode, hback⟩ := hg
    obtain ⟨e', he', rfl⟩ : ∃ e' ∈ w.entries, e'.key = k := by
      rcases hnamed with rfl | hnamed
      · exact ⟨e, htodo e List.mem_cons_self, rfl⟩
      · exact hnamed
    exact ⟨report, pre, e', hlog, hrep, hmode, he', rfl, hback e' he'⟩
  · have huntouched : ¬ Touches job w a x := by
      intro htouch
      rcases touches_cases hg htouch with ⟨⟨k, c, rfl⟩, _⟩ | ⟨hkind, _, howns⟩
        | ⟨_, e, todo, n, hstage, _⟩
      · exact hjob k c rfl
      · exact (hapart hkind).not_owns hx howns
      · exact hphase _ n hstage
    exact ⟨huntouched, store_of_step hstep huntouched⟩

/-- No step of `DeleteSource` yet. -/
def Undeleted (_ : World C S) (a : Action C S) : Prop := a.isDelete = false

instance (w : World C S) (a : Action C S) : Decidable (Undeleted w a) :=
  inferInstanceAs (Decidable (_ = _))

omit [DecidableEq S] in
theorem Undeleted.named {w : World C S} {a : Action C S} (h : Undeleted w a) : Named job w a := by
  intro hdel
  rw [h] at hdel
  cases hdel

/-- A migration of the given data set to a configured path, verified in full, that deletes its
source. -/
def moveRequest (dataSet : String) : Request :=
  ⟨.migrate, dataSet, "", some ⟨"path", 0⟩, .full, true, 0⟩

/-- Modpacks move from a local directory to another. -/
def movedJob : Job where
  req := moveRequest "modpacks"
  src := ⟨⟨"disk", ["old"]⟩, [], [], true, false⟩
  target := ⟨⟨"disk", ["new"]⟩, ["modpacks"], [], true, true⟩
  valid := rfl
  accepted := rfl
  verifies := by simp [moveRequest]

theorem movedJob_apart : movedJob.req.kind = .migrate → Apart movedJob.src movedJob.target :=
  fun _ ↦ by decide

/-- One object, copied, verified and switched to. -/
def migrated : List (Action Nat Nat) :=
  [.list [["a"]], .hash, .create, .probe, .read, .write, .next, .present [["a"]] [], .check, .next,
    .switch]

/-- The source holds one object. -/
def oneObject : Addr → Option Nat := fun x ↦ if x = ⟨"disk", ["old", "a"]⟩ then some 1 else none

/-- The state `DeleteSource` starts from. -/
theorem migrated_reach :
    ∃ w : World Nat Nat, Reach (step id (fun _ ↦ 1) movedJob) Undeleted
        (start movedJob oneObject) w ∧
      w.stage = .deleting [⟨["a"], 1, 1⟩] 0 ∧ w.entries = [⟨["a"], 1, 1⟩] ∧
      w.store ⟨"disk", ["old", "a"]⟩ = some 1 :=
  exists_reach_of_any migrated (by decide)

/-- A `Delete` of the moved source reaches the one object. -/
theorem movedJob_reaches {k k' : Key} {r : Location} (hr : r ∈ movedJob.src.roots)
    (h : movedJob.src.reaches k (r.at k') = true) : r = ⟨"disk", ["old"]⟩ ∧ k' = k := by
  obtain rfl := List.mem_singleton.mp hr
  have hmem := DataSet.mem_of_reaches rfl h
  exact ⟨rfl, Location.at_injective _ (List.mem_singleton.mp hmem)⟩

theorem movedJob_step {w : World Nat Nat} (hstage : w.stage = .deleting [⟨["a"], 1, 1⟩] 0) :
    ∃ w', w.step id (fun _ ↦ 1) movedJob .delete = some w' ∧
      w'.store ⟨"disk", ["old", "a"]⟩ = none := by
  refine ⟨{ w with store := movedJob.src.remove w.store ["a"], stage := .deleting [] 1 }, ?_, ?_⟩
  · simp only [step, deleteStep, hstage]
  · show movedJob.src.remove w.store ["a"] ⟨"disk", ["old", "a"]⟩ = none
    rw [DataSet.remove_of_reaches (by decide)]

theorem source_deleted_behind_switch_moved :
    ∃ w w' : World Nat Nat, Reach (step id (fun _ ↦ 1) movedJob) (Named movedJob)
        (start movedJob oneObject) w ∧
      w.step id (fun _ ↦ 1) movedJob .delete = some w' ∧
      w.store ⟨"disk", ["old", "a"]⟩ = some 1 ∧ w'.store ⟨"disk", ["old", "a"]⟩ = none ∧
      ∃ report pre e, w.log = .switched :: .verified report :: pre ∧ report.ok = true ∧
        report.mode = .full ∧ e ∈ w.entries ∧ e.key = ["a"] ∧ .readBack ["a"] e.sum ∈ pre := by
  obtain ⟨w, hw, hstage, _, hstore⟩ := migrated_reach
  obtain ⟨w', hstep, hgone⟩ := movedJob_step hstage
  have hreach : Reach (step id (fun _ ↦ 1) movedJob) (Named movedJob) _ w :=
    hw.mono fun _ _ ↦ Undeleted.named
  have hok : Named movedJob w .delete := fun _ e _ _ _ r hr k _ _ hreaches ↦
    .inl (movedJob_reaches hr hreaches).2
  have hmain := source_deleted_behind_switch movedJob_apart hreach hok hstep
  exact ⟨w, w', hreach, hstep, hstore, hgone,
    hmain.1 ⟨"disk", ["old"]⟩ (List.mem_singleton.mpr rfl) ["a"] 1 hstore hgone⟩

/-- The Core file storage moves from a directory to one inside it. -/
def nestedJob : Job where
  req := moveRequest "core-storage"
  src := ⟨⟨"disk", ["data"]⟩, [], [], true, true⟩
  target := ⟨⟨"disk", ["data", "new"]⟩, [], [], true, true⟩
  valid := rfl
  accepted := rfl
  verifies := by simp [moveRequest]

/-- The source holds `a` and `new/a`. -/
def twoObjects : Addr → Option Nat := fun x ↦
  if x = ⟨"disk", ["data", "a"]⟩ then some 1
  else if x = ⟨"disk", ["data", "new", "a"]⟩ then some 2 else none

/-- The copy of `a` is written over the live object `new/a` of the source. -/
theorem not_untouched_nested :
    ∃ w w' : World Nat Nat, Reach (step id (fun _ ↦ 1) nestedJob) anyStep
        (start nestedJob twoObjects) w ∧
      w.step id (fun _ ↦ 1) nestedJob .write = some w' ∧
      (∀ todo n, w.stage ≠ .deleting todo n) ∧
      nestedJob.src.Owns ⟨"disk", ["data", "new", "a"]⟩ ∧
      Touches nestedJob w .write ⟨"disk", ["data", "new", "a"]⟩ ∧
      w.store ⟨"disk", ["data", "new", "a"]⟩ = some 2 ∧
      w'.store ⟨"disk", ["data", "new", "a"]⟩ = some 1 := by
  have hrun : (exec (step id (fun _ ↦ 1) nestedJob) anyStep (start nestedJob twoObjects)
      [.list [["a"], ["new", "a"]], .hash, .hash, .create, .probe, .read]).map
        (fun w ↦ (w.stage, w.store ⟨"disk", ["data", "new", "a"]⟩,
          (w.step id (fun _ ↦ 1) nestedJob .write).map (·.store ⟨"disk", ["data", "new", "a"]⟩)))
      = some (.writing ⟨["a"], 1, 1⟩ 1 [⟨["new", "a"], 1, 2⟩], some 2, some (some 1)) := by
    decide
  obtain ⟨w, hw, hf⟩ := exists_reach_of_exec hrun
  simp only [Prod.mk.injEq] at hf
  obtain ⟨hstage, hstore, hnext⟩ := hf
  obtain ⟨w', hstep, hstore'⟩ := Option.map_eq_some_iff.mp hnext
  refine ⟨w, w', hw, hstep, fun todo n h ↦ ?_, ?_, ?_, hstore, hstore'⟩
  · rw [hstage] at h
    cases h
  · exact ⟨⟨"disk", ["data"]⟩, List.mem_singleton.mpr rfl, rfl, ["new", "a"], rfl⟩
  · simp only [Touches, hstage]
    decide

/-! ## The second promise -/

/-- What was read back is on the target. -/
def Kept (hash : C → S) (job : Job) (w : World C S) : Prop :=
  job.req.kind = .migrate → ∀ k s, .readBack k s ∈ w.log →
    ∃ c, job.target.get w.store k = some c ∧ hash c = s

/-- A read-back in the log was there before the step, or is what the step has just read. -/
theorem readBack_of_step (h : w.step hash size job a = some w') {k : Key} {s : S}
    (hmem : .readBack k s ∈ w'.log) :
    .readBack k s ∈ w.log ∨ ∃ c, job.target.get w'.store k = some c ∧ hash c = s := by
  unfold step at h
  split at h
  all_goals first
    | exact .inl ((manifestStep_frame h).2 ▸ hmem)
    | exact .inl (copyStep_log h ▸ hmem)
    | exact .inl (deleteStep_log h ▸ hmem)
    | exact verifyStep_readBack h hmem
    | skip
  · cases h
    exact .inl hmem
  · exact .inl ((onCancel_frame h).2 ▸ hmem)
  · exact .inl ((onError_frame h).2 ▸ hmem)
  · unfold onSwitch at h
    split at h <;> cases h
    exact .inl (by simpa using hmem)
  · unfold onNext at h
    split at h <;> cases h
    · exact .inl hmem
    · exact .inl (by simpa using hmem)
    · exact .inl hmem

theorem Kept.step (hapart : job.req.kind = .migrate → Apart job.src job.target)
    (hg : w.Guarded job) (hk : Kept hash job w) (h : w.step hash size job a = some w') :
    Kept hash job w' := by
  intro hkind k s hmem
  rcases readBack_of_step h hmem with hmem | hread
  · obtain ⟨c, hc, hs⟩ := hk hkind k s hmem
    refine ⟨c, ?_, hs⟩
    rw [← hc]
    -- there is a read-back, so the job no longer writes to the target, and nothing else does
    refine DataSet.get_congr (fun x hx ↦ store_of_step h fun htouch ↦ ?_) k
    rcases touches_cases hg htouch with ⟨_, howns⟩ | ⟨_, hlog, _⟩ | ⟨_, _, _, _, _, hreach⟩
    · exact (hapart hkind).not_owns howns hx
    · rw [hlog] at hmem
      cases hmem
    · exact (hapart hkind).not_owns (DataSet.owns_of_reaches hreach) hx
  · exact hread

/-- A `Delete` of `DeleteSource` removes only contents the manifest has recorded for their keys. -/
def Recorded (hash : C → S) (job : Job) (w : World C S) (a : Action C S) : Prop :=
  a.isDelete = true → ∀ e todo n, w.stage = .deleting (e :: todo) n →
    ∀ r ∈ job.src.roots, ∀ k c, w.store (r.at k) = some c →
      job.src.reaches e.key (r.at k) = true → ∃ e' ∈ w.entries, e'.key = k ∧ hash c = e'.sum

/-- **What is removed is on the target.**  With source and target apart, and as long as what is
removed is what the manifest recorded, every content that a step removes from the source is under
the same key on the target at that moment. -/
theorem removed_content_on_target {store : Addr → Option C}
    (hapart : job.req.kind = .migrate → Apart job.src job.target)
    (h : Reach (step hash size job) (Recorded hash job) (start job store) w)
    (hok : Recorded hash job w a) (hstep : w.step hash size job a = some w') :
    ∀ r ∈ job.src.roots, ∀ k c, w.store (r.at k) = some c → w'.store (r.at k) = none →
      ∃ c', job.target.get w'.store k = some c' ∧ hash c' = hash c := by
  have hinv : w.Guarded job ∧ Kept hash job w := by
    refine h.invariant (P := fun w ↦ w.Guarded job ∧ Kept hash job w) ⟨.start job store, ?_⟩
      fun _ _ _ hw _ hs ↦ ⟨hw.1.step hs, hw.2.step hapart hw.1 hs⟩
    intro _ k s hmem
    cases hmem
  obtain ⟨hg, hk⟩ := hinv
  intro r hr k c hc hgone
  obtain ⟨hdel, e, todo, n, hstage, hreach⟩ := reaches_of_removed hapart hg hstep hr hc hgone
  obtain ⟨e', he', rfl, hsum⟩ := hok hdel e todo n hstage r hr k c hc hreach
  have hbehind := hg
  unfold Guarded at hbehind
  rw [hstage] at hbehind
  obtain ⟨hkind, _, report, pre, hlog, _, _, hback⟩ := hbehind
  have hlog' : w'.log = w.log := by
    have hdelete : w.deleteStep job a = some w' := by
      cases a <;> cases hdel
      all_goals exact hstep
    exact deleteStep_log hdelete
  have hmem : .readBack e'.key e'.sum ∈ w'.log := by
    rw [hlog', hlog]
    exact List.mem_cons_of_mem _ (List.mem_cons_of_mem _ (hback e' he'))
  obtain ⟨c', hc', hs⟩ := hk.step hapart hg hstep hkind e'.key e'.sum hmem
  exact ⟨c', hc', hs.trans hsum.symm⟩

omit [DecidableEq S] in
theorem Undeleted.recorded {w : World C S} {a : Action C S} (h : Undeleted w a) :
    Recorded hash job w a := by
  intro hdel
  rw [h] at hdel
  cases hdel

theorem removed_content_on_target_moved :
    ∃ w w' : World Nat Nat, Reach (step id (fun _ ↦ 1) movedJob) (Recorded id movedJob)
        (start movedJob oneObject) w ∧
      w.step id (fun _ ↦ 1) movedJob .delete = some w' ∧
      w.store ⟨"disk", ["old", "a"]⟩ = some 1 ∧ w'.store ⟨"disk", ["old", "a"]⟩ = none ∧
      ∃ c, movedJob.target.get w'.store ["a"] = some c ∧ id c = id 1 := by
  obtain ⟨w, hw, hstage, hentries, hstore⟩ := migrated_reach
  obtain ⟨w', hstep, hgone⟩ := movedJob_step hstage
  have hreach : Reach (step id (fun _ ↦ 1) movedJob) (Recorded id movedJob) _ w :=
    hw.mono fun _ _ ↦ Undeleted.recorded
  have hok : Recorded id movedJob w .delete := by
    intro _ e todo n he r hr k c hc hreaches
    rw [hstage] at he
    cases he
    obtain ⟨rfl, rfl⟩ := movedJob_reaches hr hreaches
    refine ⟨_, hentries ▸ List.mem_singleton.mpr rfl, rfl, ?_⟩
    exact Option.some_inj.mp (hc.symm.trans hstore)
  have hmain := removed_content_on_target movedJob_apart hreach hok hstep
  exact ⟨w, w', hreach, hstep, hstore, hgone,
    hmain ⟨"disk", ["old"]⟩ (List.mem_singleton.mpr rfl) ["a"] 1 hstore hgone⟩

/-- An object that is overwritten after the switch is removed with the content that was never
copied. -/
theorem not_migrated_overwritten :
    ∃ w w' : World Nat Nat, Reach (step id (fun _ ↦ 1) movedJob) anyStep
        (start movedJob oneObject) w ∧
      w.step id (fun _ ↦ 1) movedJob .delete = some w' ∧
      w.store ⟨"disk", ["old", "a"]⟩ = some 5 ∧ w'.store ⟨"disk", ["old", "a"]⟩ = none ∧
      movedJob.target.get w'.store ["a"] = some 1 := by
  have hrun : (exec (step id (fun _ ↦ 1) movedJob) anyStep (start movedJob oneObject)
      (migrated ++ [.live ["a"] 5])).map
        (fun w ↦ (w.store ⟨"disk", ["old", "a"]⟩, (w.step id (fun _ ↦ 1) movedJob .delete).map
          fun w' ↦ (w'.store ⟨"disk", ["old", "a"]⟩, movedJob.target.get w'.store ["a"])))
      = some (some 5, some (none, some 1)) := by
    decide
  obtain ⟨w, hw, hf⟩ := exists_reach_of_exec hrun
  simp only [Prod.mk.injEq] at hf
  obtain ⟨hstore, hnext⟩ := hf
  obtain ⟨w', hstep, hf'⟩ := Option.map_eq_some_iff.mp hnext
  simp only [Prod.mk.injEq] at hf'
  exact ⟨w, w', hw, hstep, hstore, hf'⟩

/-! ## The source of a job that did not succeed -/

/-- The storage after the steps of the live writers alone. -/
def live (job : Job) (store : Addr → Option C) : List (Action C S) → Addr → Option C
  | [] => store
  | .live k c :: as => live job (job.src.put store k c) as
  | _ :: as => live job store as

/-- `DeleteSource` may have begun. -/
def Stage.deletes : Stage C S → Bool
  | .deleting _ _ | .done | .failed (.partiallyDeleted _) => true
  | _ => false

/-- What has begun to delete ends in having deleted. -/
theorem deletes_of_step (h : w.step hash size job a = some w') (hd : w.stage.deletes = true) :
    w'.stage.deletes = true := by
  obtain ⟨store, stage, entries, log⟩ := w
  cases stage <;> simp only [Stage.deletes, Bool.false_eq_true] at hd <;> cases a <;>
    simp only [step, onCancel, onError, manifestStep, copyStep, verifyStep, deleteStep, onSwitch,
      onNext, reduceCtorEq] at h
  all_goals
    repeat' split at h
    all_goals cases h <;> first | rfl | exact hd | contradiction

/-- **A job that fails or is cancelled has not touched its source**, unless it says that it has begun to
delete: with source and target apart, whatever the storages did, every object of the source is as the live
writers have left it. -/
theorem source_intact {store : Addr → Option C}
    (hapart : job.req.kind = .migrate → Apart job.src job.target) {as : List (Action C S)}
    (h : exec (step hash size job) anyStep (start job store) as = some w)
    (hstage : w.stage.deletes = false) :
    ∀ x, job.src.Owns x → w.store x = live job store as x := by
  suffices ∀ (v : World C S) store, v.Guarded job →
      (v.stage.deletes = false → ∀ x, job.src.Owns x → v.store x = store x) →
      exec (step hash size job) anyStep v as = some w →
      ∀ x, job.src.Owns x → w.store x = live job store as x from
    this _ store (Guarded.start job store) (fun _ _ _ ↦ rfl) h
  clear h store
  induction as with
  | nil =>
    rintro v store - heq h
    cases h
    exact heq hstage
  | cons a as ih =>
    intro v store hg heq h
    rw [exec, if_pos (by trivial)] at h
    obtain ⟨v', hstep, h⟩ := Option.bind_eq_some_iff.mp h
    have hrest := ih v' (live job store [a]) (hg.step hstep) ?_ h
    · cases a <;> exact hrest
    intro hdel x hx
    have hbefore : v.stage.deletes = false := by
      by_contra hno
      rw [deletes_of_step hstep (by simpa using hno)] at hdel
      cases hdel
    by_cases htouch : Touches job v a x
    · rcases touches_cases hg htouch with ⟨⟨k, c, rfl⟩, -⟩ | ⟨hkind, -, howns⟩
        | ⟨-, e, todo, n, hs, -⟩
      · cases hstep
        simp only [live, DataSet.put_of_mem htouch]
      · exact absurd howns ((hapart hkind).not_owns hx)
      · rw [hs] at hbefore
        cases hbefore
    · rw [store_of_step hstep htouch, heq hbefore x hx]
      cases a with
      | live k c => exact (DataSet.put_of_not_mem htouch).symm
      | _ => rfl

/-- A job that is cancelled while an object is added. -/
theorem source_intact_cancelled :
    let as : List (Action Nat Nat) := [.list [["a"]], .live ["b"] 2, .cancel]
    ∃ w, exec (step id (fun _ ↦ 1) movedJob) anyStep (start movedJob oneObject) as = some w ∧
      ∀ x, movedJob.src.Owns x → w.store x = live movedJob oneObject as x := by
  intro as
  have h : exec (step id (fun _ ↦ 1) movedJob) anyStep (start movedJob oneObject) as = some _ := rfl
  exact ⟨_, h, source_intact movedJob_apart h rfl⟩

end Run

end Dylaris.Migration
