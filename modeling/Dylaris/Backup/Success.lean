import Dylaris.Backup.Steps

/-!
# A successful backup stays successful and keeps its archive

That is what `applyBackupReport` promises, but the promise is kept only by the copy of the run that the
writer has read.  `UpdateBackupRunStatus` does not look at the row it writes, and the clean-up that
follows a close, or a completion under way, does not look again before it deletes
(`not_success_stays_reaper`).

It holds in every run in which (`Careful`)

* a status is written only over the status that its writer has read, and
* a run is closed as a success only while no execution of `completeUpload` for it is under way and
  nobody is about to delete its archive.

The invariant is as short as that: no writer has read a success, and a successful run is left in peace.
-/

set_option autoImplicit false

namespace Dylaris.Backup

open List Option Machine

/-- What a closing goroutine is about to write: the run as it has read it, and the status. -/
def Closing.writing : Closing → Option (Run × Status)
  | .write _ run status _ _ => some (run, status)
  | _ => none

/-- The goroutine has decided to delete the archive. -/
def Closing.discarding : Closing → Bool
  | .abort _ | .delete _ => true
  | _ => false

/-- No completion is under way, and nobody is about to delete the archive. -/
def Cell.InPeace (c : Cell) : Prop :=
  (∀ t ∈ c.completions, t.finished = true) ∧ ∀ t ∈ c.closers, t.discarding = false

/-- A status is written over the status its writer has read, and success only on a run that is left in
peace. -/
def Careful (c : Cell) : Label → Prop
  | .closer n (.write o) => o.applied = true → ∀ t ∈ c.closers[n]?, ∀ x ∈ t.writing,
      (∀ row ∈ c.row, row.status = x.1.status) ∧ (x.2 = .success → c.InPeace)
  | _ => True

/-- The run as a closing goroutine has read it, before it writes. -/
def Closing.copy : Closing → Option Run
  | .listed run | .write _ run _ _ _ => some run
  | _ => none

/-- No writer has read a success, and a successful run is left in peace. -/
structure Kept (c : Cell) : Prop where
  writers : ∀ t ∈ c.closers, ∀ run ∈ t.copy, run.status ≠ .success
  inPeace : ∀ row ∈ c.row, row.status = .success → c.InPeace

theorem kept_start (id : Nat) (key : String) : Kept (.start id key) :=
  ⟨fun _ ht ↦ (by cases ht), fun row hrow hs ↦ by cases hrow; cases hs⟩

/-- A report is written only if the run was not read as a success. -/
theorem settleReport_ne_success {r : Report} {run : Run} {provider : Option Bool}
    {x : Status × String × Int} (h : settleReport r run provider = some x) : run.status ≠ .success := by
  intro hs
  simp [settleReport, applyBackupReport, hs] at h

namespace Kept

variable {c c' : Cell}

/-- A step that keeps the row and the goroutines. -/
theorem of_eq (h : Kept c) (hrow : c'.row = c.row) (hclosers : c'.closers = c.closers)
    (hcompletions : c'.completions = c.completions) : Kept c' := by
  refine ⟨hclosers ▸ h.writers, ?_⟩
  rw [hrow]
  intro row hr hs
  rw [Cell.InPeace, hcompletions, hclosers]
  exact h.inPeace row hr hs

/-- A goroutine starts that has not read a success. -/
theorem addCloser (h : Kept c) {t : Closing} (hcopy : ∀ run ∈ t.copy, run.status ≠ .success)
    (hdiscard : t.discarding = false) : Kept (c.addCloser t) := by
  refine ⟨fun t' ht' ↦ ?_, fun row hrow hs ↦ ⟨(h.inPeace row hrow hs).1, fun t' ht' ↦ ?_⟩⟩
  · rcases mem_append.mp ht' with ht' | ht'
    · exact h.writers t' ht'
    · exact mem_singleton.mp ht' ▸ hcopy
  · rcases mem_append.mp ht' with ht' | ht'
    · exact (h.inPeace row hrow hs).2 t' ht'
    · exact mem_singleton.mp ht' ▸ hdiscard

/-- A closing goroutine moves on. -/
theorem setCloser (h : Kept c) {n : Nat} {t' : Closing} {row' : Option Run}
    (hcopy : ∀ run ∈ t'.copy, run.status ≠ .success)
    (hpeace : ∀ row ∈ row', row.status = .success → c.InPeace ∧ t'.discarding = false)
    (upload : Option (List Part)) (archive : Option Int) :
    Kept ⟨row', upload, archive, c.closers.set n t', c.completions⟩ := by
  refine ⟨fun t ht ↦ ?_, fun row hrow hs ↦ ?_⟩
  · rcases mem_or_eq_of_mem_set ht with ht | rfl
    · exact h.writers t ht
    · exact hcopy
  obtain ⟨hin, hdiscard⟩ := hpeace row hrow hs
  refine ⟨hin.1, fun t ht ↦ ?_⟩
  rcases mem_or_eq_of_mem_set ht with ht | rfl
  · exact hin.2 t ht
  · exact hdiscard

end Kept

/-- A run that is successful in `c` is so in `c'`, and its archive is still there. -/
def Stays (c c' : Cell) : Prop :=
  ∀ row ∈ c.row, row.status = .success →
    (∃ row' ∈ c'.row, row'.status = .success) ∧ (c.archive ≠ none → c'.archive ≠ none)

variable {c c' : Cell}

theorem Stays.of_eq (hrow : c'.row = c.row) (harchive : c.archive ≠ none → c'.archive ≠ none) :
    Stays c c' :=
  fun row hr hs ↦ ⟨⟨row, hrow ▸ hr, hs⟩, harchive⟩

variable {t t' : Completing} {a : CompletingStep}

/-- An execution of `completeUpload` does not change the status. -/
theorem CompletingMove.row_status
    (h : CompletingMove c t a c' t') : ∀ row' ∈ c'.row, ∃ row ∈ c.row, row.status = row'.status := by
  cases h with
  | @record run row size answer hrow hstatus o hanswer =>
    intro row' hrow'
    dsimp only at hrow'
    split at hrow'
    · cases hrow'
      exact ⟨row, hrow, rfl⟩
    · exact ⟨row', hrow', rfl⟩
  | _ => exact fun row' hrow' ↦ ⟨row', hrow', rfl⟩

theorem CompletingMove.closers (h : CompletingMove c t a c' t') : c'.closers = c.closers := by
  cases h <;> rfl

variable {n : Nat}

/-- A closing goroutine keeps it, if it is careful. -/
theorem Kept.closer (h : Kept c) {t t' : Closing} {a : ClosingStep}
    (ht : c.closers[n]? = some t) (hok : Careful c (.closer n a)) (hmove : ClosingMove c t a c' t') :
    Kept { c' with closers := c.closers.set n t' } ∧
      Stays c { c' with closers := c.closers.set n t' } := by
  have hmem := mem_of_getElem? ht
  have hpeace : t'.discarding = false → ∀ row ∈ c.row, row.status = .success →
      c.InPeace ∧ t'.discarding = false := fun hd row hrow hs ↦ ⟨h.inPeace row hrow hs, hd⟩
  cases hmove with
  | settle _ =>
    have hread := h.writers _ hmem
    refine ⟨h.setCloser ?_ (hpeace rfl) c.upload c.archive, .of_eq rfl id⟩
    exact fun run hrun ↦ hread run hrun
  | skip | leave => exact ⟨h.setCloser (fun _ hc ↦ by cases hc) (hpeace rfl) _ _, .of_eq rfl id⟩
  | @write reaper run status message size o =>
    have hafter : (afterWrite reaper status o).copy = none ∧
        (afterWrite reaper status o).discarding = false := by
      rw [afterWrite]
      split <;> exact ⟨rfl, rfl⟩
    have hcopy : ∀ run ∈ (afterWrite reaper status o).copy, run.status ≠ .success := by
      rw [hafter.1]
      exact fun _ hc ↦ by cases hc
    cases happlied : o.applied with
    | false => exact ⟨h.setCloser hcopy (hpeace hafter.2) c.upload c.archive, .of_eq rfl id⟩
    | true =>
      -- The row reads what the writer has read, and that is not a success.
      obtain ⟨hsame, hquiet⟩ := hok happlied _ ht (run, status) rfl
      have hne := h.writers _ hmem run rfl
      refine ⟨h.setCloser hcopy (fun row' hrow' hs ↦ ⟨?_, hafter.2⟩) c.upload c.archive,
        fun row hrow hs ↦ absurd ((hsame row hrow).symm.trans hs) hne⟩
      obtain ⟨row, -, rfl⟩ := map_eq_some_iff.mp hrow'
      exact hquiet hs
  | discard hrow _ hstatus =>
    refine ⟨h.setCloser (fun _ hc ↦ by cases hc) (fun row hrow' hs ↦ ?_) c.upload c.archive,
      .of_eq rfl id⟩
    rw [hrow] at hrow'
    cases hrow'
    exact absurd hs hstatus
  | abort o =>
    have hno : ∀ row ∈ c.row, row.status ≠ .success := fun row hrow hs ↦ by
      cases (h.inPeace row hrow hs).2 _ hmem
    exact ⟨h.setCloser (fun _ hc ↦ by cases hc)
      (fun row hrow hs ↦ absurd hs (hno row hrow)) _ c.archive, .of_eq rfl id⟩
  | delete o =>
    have hno : ∀ row ∈ c.row, row.status ≠ .success := fun row hrow hs ↦ by
      cases (h.inPeace row hrow hs).2 _ hmem
    exact ⟨h.setCloser (fun _ hc ↦ by cases hc) (fun row hrow hs ↦ absurd hs (hno row hrow)) c.upload _,
      fun row hrow hs ↦ absurd hs (hno row hrow)⟩

/-- A successful run has no completion under way. -/
theorem Kept.completion (h : Kept c)
    (ht : c.completions[n]? = some t) (hmove : CompletingMove c t a c' t') :
    Kept { c' with completions := c.completions.set n t' } ∧
      Stays c { c' with completions := c.completions.set n t' } := by
  have hno : ∀ row ∈ c.row, row.status ≠ .success := fun row hrow hs ↦ by
    have hfin := (h.inPeace row hrow hs).1 t (mem_of_getElem? ht)
    rw [hmove.live] at hfin
    cases hfin
  refine ⟨⟨?_, fun row' hrow' hs ↦ ?_⟩, fun row hrow hs ↦ absurd hs (hno row hrow)⟩
  · dsimp only
    rw [hmove.closers]
    exact h.writers
  · obtain ⟨row, hrow, heq⟩ := hmove.row_status row' hrow'
    exact absurd (heq.trans hs) (hno row hrow)

/-- **A step about a run keeps it**, and a success with its archive, unless it is retention or a
delete. -/
theorem Kept.step (h : Kept c) {a : Label} (hok : Careful c a) (hstep : c.step a = some c') :
    Kept c' ∧ (a ≠ .removeRow → a ≠ .removeArchive → Stays c c') := by
  cases step_cases hstep with
  | @startUpload uploadID partSize run _ hrow _ hstatus =>
    refine ⟨⟨h.writers, fun row hr hs ↦ ?_⟩, fun _ _ row hr hs ↦ ?_⟩
    · cases hr
      rw [hstatus] at hs
      cases hs
    · rw [hrow] at hr
      cases hr
      rw [hstatus] at hs
      cases hs
  | putPart _ | abortUpload _ => exact ⟨h.of_eq rfl rfl rfl, fun _ _ ↦ .of_eq rfl id⟩
  | writeArchive _ _ => exact ⟨h.of_eq rfl rfl rfl, fun _ _ ↦ .of_eq rfl fun _ ↦ some_ne_none _⟩
  | report hrow hsettle =>
    refine ⟨h.addCloser ?_ rfl, fun _ _ ↦ .of_eq rfl id⟩
    rintro _ ⟨⟩
    exact settleReport_ne_success hsettle
  | reap hrow hstatus =>
    refine ⟨h.addCloser ?_ rfl, fun _ _ ↦ .of_eq rfl id⟩
    rintro _ ⟨⟩
    rw [hstatus]
    decide
  | requestComplete hrow hstatus _ =>
    refine ⟨⟨h.writers, fun row hr hs ↦ ?_⟩, fun _ _ ↦ .of_eq rfl id⟩
    rw [hrow] at hr
    cases hr
    rw [hstatus] at hs
    cases hs
  | ignore => exact ⟨h, fun _ _ ↦ .of_eq rfl id⟩
  | closer ht hmove =>
    obtain ⟨hkept, hstays⟩ := h.closer ht hok hmove
    exact ⟨hkept, fun _ _ ↦ hstays⟩
  | completion ht hmove =>
    obtain ⟨hkept, hstays⟩ := h.completion ht hmove
    exact ⟨hkept, fun _ _ ↦ hstays⟩
  | removeRow => exact ⟨⟨h.writers, fun _ hr ↦ by cases hr⟩, fun hne ↦ absurd rfl hne⟩
  | removeArchive => exact ⟨h.of_eq rfl rfl rfl, fun _ hne ↦ absurd rfl hne⟩

/-! ## The runs of a server -/

/-- The step about a run is careful. -/
def ServerCareful (cells : List Cell) : ServerLabel → Prop
  | .start _ => True
  | .run n a => ∀ c ∈ cells[n]?, Careful c a

/-- Retention or a delete of the run. -/
def removes (n : Nat) (a : ServerLabel) : Prop := a = .run n .removeRow ∨ a = .run n .removeArchive

variable {cells cells' : List Cell}

theorem kept_serverStep {a : ServerLabel} (h : ∀ c ∈ cells, Kept c)
    (hok : ServerCareful cells a) (hstep : serverStep cells a = some cells') :
    ∀ c ∈ cells', Kept c := by
  intro c hc
  cases a with
  | start key =>
    rw [serverStep] at hstep
    split at hstep
    · cases hstep
      rcases mem_append.mp hc with hc | hc
      · exact h c hc
      · exact mem_singleton.mp hc ▸ kept_start _ key
    · cases hstep
  | run n a =>
    obtain ⟨s, s', hs, hs', rfl⟩ := atIndex_eq_some hstep
    rcases mem_or_eq_of_mem_set hc with hc | rfl
    · exact h c hc
    · exact ((h s (mem_of_getElem? hs)).step (hok s hs) hs').1

/-- What a step about a server's runs does to one of them. -/
theorem stays_serverStep {a : ServerLabel} (h : ∀ c ∈ cells, Kept c)
    (hok : ServerCareful cells a) (hkeep : ¬ removes n a)
    (hstep : serverStep cells a = some cells') {c : Cell} (hc : cells[n]? = some c) :
    ∃ c', cells'[n]? = some c' ∧ Stays c c' := by
  have hlt := (List.getElem?_eq_some_iff.mp hc).1
  cases a with
  | start key =>
    rw [serverStep] at hstep
    split at hstep
    · cases hstep
      exact ⟨c, by rw [List.getElem?_append_left hlt, hc], .of_eq rfl id⟩
    · cases hstep
  | run m a =>
    obtain ⟨s, s', hs, hs', rfl⟩ := atIndex_eq_some hstep
    by_cases hmn : m = n
    · subst hmn
      rw [hc] at hs
      cases hs
      refine ⟨s', List.getElem?_set_self hlt, ?_⟩
      refine ((h c (List.mem_of_getElem? hc)).step (hok c hc) hs').2 ?_ ?_
      · rintro rfl
        exact hkeep (.inl rfl)
      · rintro rfl
        exact hkeep (.inr rfl)
    · exact ⟨c, by rw [List.getElem?_set_ne hmn, hc], .of_eq rfl id⟩

theorem Stays.trans {c₁ c₂ c₃ : Cell} (h : Stays c₁ c₂) (h' : Stays c₂ c₃) :
    Stays c₁ c₃ := by
  intro row hrow hs
  obtain ⟨⟨row₂, hrow₂, hs₂⟩, ha⟩ := h row hrow hs
  obtain ⟨hsucc, ha'⟩ := h' row₂ hrow₂ hs₂
  exact ⟨hsucc, fun hne ↦ ha' (ha hne)⟩

/-- **A successful backup stays successful and keeps its archive**, in every run of careful steps, until
retention or a delete removes it. -/
theorem success_stays {cells cells' : List Cell} {n : Nat} {c : Cell} {run : Run}
    (hreach : Reach serverStep ServerCareful [] cells)
    (hlater : Reach serverStep (fun s a ↦ ServerCareful s a ∧ ¬ removes n a) cells cells')
    (hc : cells[n]? = some c) (hrun : c.row = some run) (hsuccess : run.status = .success) :
    ∃ c' run', cells'[n]? = some c' ∧ c'.row = some run' ∧ run'.status = .success ∧
      (c.archive ≠ none → c'.archive ≠ none) := by
  have hkept : ∀ c ∈ cells, Kept c :=
    hreach.invariant (P := fun s ↦ ∀ c ∈ s, Kept c) (fun _ hc ↦ by cases hc)
      fun _ _ _ h hok hstep ↦ kept_serverStep h hok hstep
  have hinv := hlater.invariant
    (P := fun s ↦ (∀ c ∈ s, Kept c) ∧ ∃ c', s[n]? = some c' ∧ Stays c c')
    ⟨hkept, c, hc, .of_eq rfl id⟩ fun s a s' ⟨h, c', hc', hstays⟩ hok hstep ↦ by
      obtain ⟨c'', hc'', hstays'⟩ := stays_serverStep h hok.1 hok.2 hstep hc'
      exact ⟨kept_serverStep h hok.1 hstep, c'', hc'', hstays.trans hstays'⟩
  obtain ⟨-, c', hc', hstays⟩ := hinv
  obtain ⟨⟨run', hrun', hs'⟩, harchive⟩ := hstays run hrun hsuccess
  exact ⟨c', run', hc', hrun', hs', harchive⟩

/-! ## A late reaper -/

instance (c : Cell) : Decidable c.InPeace := inferInstanceAs (Decidable (_ ∧ _))

instance (c : Cell) : DecidablePred (Careful c)
  | .closer _ (.decide _ _ _) | .closer _ (.write _) | .closer _ (.reread _) | .closer _ (.abort _)
  | .closer _ (.delete _) | .startUpload _ _ | .putPart _ | .abortUpload _ | .writeArchive _
  | .report _ _ _ | .reap | .requestComplete | .completion _ _ | .removeRow | .removeArchive => by
    unfold Careful
    infer_instance

instance (cells : List Cell) : DecidablePred (ServerCareful cells) := fun a ↦ by
  cases a <;> unfold ServerCareful <;> infer_instance

instance (n : Nat) : DecidablePred (removes n) := fun _ ↦ inferInstanceAs (Decidable (_ ∨ _))

/-- A run uploads its archive, and Core completes it. -/
def completed (listed : List ServerLabel) : List ServerLabel :=
  ([.start "key", .run 0 (.startUpload "upload" multipartMinPartSize),
    .run 0 (.putPart ⟨1, 100⟩)] : List ServerLabel) ++ listed ++
    ([.run 0 .requestComplete, .run 0 (.completion 0 (.list true)),
      .run 0 (.completion 0 (.check ⟨none, none⟩)), .run 0 (.completion 0 (.parts true)),
      .run 0 (.completion 0 (.complete .ok)), .run 0 (.completion 0 (.recheck ⟨none, none⟩)),
      .run 0 (.completion 0 (.record .ok)),
      .run 0 (.report ⟨.success, "", 100⟩ true none)] : List ServerLabel)

/-- The run, closed as a success. -/
def succeeded (closers : List Closing) : List Cell :=
  [⟨some ⟨1, .success, "", 100, "key", "upload", multipartMinPartSize, some 100⟩, none, some 100,
    closers, [.done (.size 100)]⟩]

theorem exec_succeeded :
    exec serverStep ServerCareful []
        (completed [] ++ ([.run 0 (.closer 0 (.write .ok))] : List ServerLabel)) =
      some (succeeded [.done]) := rfl

/-- A second report, of a failure, is not applied. -/
theorem exec_reportedAgain :
    exec serverStep (fun s a ↦ ServerCareful s a ∧ ¬ removes 0 a) (succeeded [.done])
      [.run 0 (.report ⟨.failed, "no longer running", 0⟩ true none)] = some (succeeded [.done]) := rfl

theorem success_stays_reportedAgain :
    ∃ c' run', (succeeded [.done])[0]? = some c' ∧ c'.row = some run' ∧ run'.status = .success ∧
      ((some 100 : Option Int) ≠ none → c'.archive ≠ none) :=
  success_stays (reach_of_exec exec_succeeded) (reach_of_exec exec_reportedAgain) rfl rfl
    rfl

/-- The run as the reaper has listed it, before Core completed its upload. -/
def listedRun : Run := ⟨1, .running, "", 0, "key", "upload", multipartMinPartSize, none⟩

/-- The reaper has listed the run before its upload was completed and its result arrived.  It closes
the run as failed and deletes the archive. -/
theorem not_success_stays_reaper :
    ∃ cells cells', Reach serverStep anyStep [] cells ∧
      Reach serverStep (fun _ a ↦ ¬ removes 0 a) cells cells' ∧
      (cells[0]?.map fun c ↦ (c.row.map Run.status, c.archive)) = some (some .success, some 100) ∧
      (cells'[0]?.map fun c ↦ (c.row.map Run.status, c.archive)) = some (some .failed, none) := by
  have hsuccess : exec serverStep anyStep []
      (completed [.run 0 .reap] ++ ([.run 0 (.closer 1 (.write .ok))] : List ServerLabel)) =
      some (succeeded [.listed listedRun, .done]) := rfl
  have hreaped : (exec serverStep (fun _ a ↦ ¬ removes 0 a)
      (succeeded [.listed listedRun, .done])
      [.run 0 (.closer 0 (.decide true true "6h0m0s")), .run 0 (.closer 0 (.write .ok)),
        .run 0 (.closer 0 (.reread true)), .run 0 (.closer 0 (.abort .ok)),
        .run 0 (.closer 0 (.delete .ok))]).map
      (fun cells ↦ cells[0]?.map fun c ↦ (c.row.map Run.status, c.archive)) =
      some (some (some .failed, none)) := rfl
  obtain ⟨cells', hreach, hview⟩ := exists_reach_of_exec hreaped
  exact ⟨_, cells', reach_of_exec hsuccess, hreach, rfl, hview⟩

end Dylaris.Backup
