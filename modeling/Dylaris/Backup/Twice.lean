import Dylaris.Backup.Steps
import Dylaris.Library.Places

/-!
# Completing an upload twice

A node that gets no reply asks another replica to complete its upload, so `completeUpload` may run
several times for one run, next to the report that the node sends once it has a reply.

An execution that finds the run closed deletes the archive, whatever it was closed as
(`not_completed_secondExecution`): the node has its reply from the first execution, reports, and the run
is closed as a success while the second is still under way.  The two other ways to lose an archive that
was answered for are a report of failure, sent after the refusal of another execution, and the
allowance, which a second execution checks with a copy of the run from before the size was recorded.

The result holds where none of them occurs (`Undisputed`).  In the invariant (`Sound`), who has learned
a size has learned that of the object, and while somebody has, the object is not deleted.
-/

set_option autoImplicit false

namespace Dylaris.Backup

open List Option Machine

open Machine (Outcome)

/-- What happens to one upload: the node uploads parts, asks for the completion, and reports a result
once an execution has answered it. -/
def Exchange (c : Cell) : Label → Prop
  | .reap | .removeRow | .removeArchive | .writeArchive _ => False
  | .report r _ _ => r.status ≠ .running ∧ ∃ u ∈ c.completions, u.finished = true
  | _ => True

/-- The status that a closing goroutine is about to write. -/
def Closing.verdict : Closing → Option Status
  | .write _ _ status _ _ => some status
  | _ => none

/-- A report is written, with success, only while no execution is under way, and as a failure only if
none has answered with a size; and an execution deletes the archive only if no other has learned its
size. -/
def Undisputed (c : Cell) : Label → Prop
  | .closer n (.write o) => o.applied = true ∧ (∀ u ∈ c.completions, u.finished = true) ∧
      ∀ t ∈ c.closers[n]?, t.verdict = some .failed → ∀ u ∈ c.completions, u.holds = none
  | .completion n (.delete _) => ∀ u ∈ c.completions.eraseIdx n, u.holds = none
  | _ => True

/-! ## The invariant -/

/-- What a closing goroutine may be doing. -/
def ClosingSound (run : Run) (completions : List Completing) : Closing → Prop
  | .listed _ => False
  | .write _ _ status _ size => status = .failed ∨ status = .success ∧ run.uploadedBytes = some size
  | .reread | .abort _ | .delete _ => run.status ≠ .running ∧ ∀ u ∈ completions, u.holds = none
  | .done => True

/-- The run, its upload and its archive agree with what the executions know. -/
structure Sound (run : Run) (c : Cell) : Prop where
  row : c.row = some run
  unstarted : run.uploadID = "" → c.archive = none ∧ run.uploadedBytes = none ∧ c.completions = []
  live : ∀ u ∈ c.completions, u.finished = false → run.status = .running
  holds : ∀ u ∈ c.completions, ∀ size ∈ u.holds, c.archive = some size
  answered : ∀ u ∈ c.completions, ∀ size, u = .done (.size size) → run.uploadedBytes = some size ∧
    (run.status = .running ∨ run.status = .success ∧ run.sizeBytes = size)
  upload : c.upload ≠ none → c.archive = none ∧ run.uploadedBytes = none
  recorded : ∀ size ∈ run.uploadedBytes, ∀ archive ∈ c.archive, archive = size
  closers : ∀ t ∈ c.closers, ClosingSound run c.completions t

theorem sound_start (id : Nat) (key : String) : Sound (.start id key) (.start id key) where
  row := rfl
  unstarted _ := ⟨rfl, rfl, rfl⟩
  live _ hu := by cases hu
  holds _ hu := by cases hu
  answered _ hu := by cases hu
  upload h := absurd rfl h
  recorded _ h := by cases h
  closers _ h := by cases h

variable {message : String} {size : Int}

/-- What a result report writes to a run with an upload. -/
theorem settleReport_upload {r : Report} {run : Run} {provider : Option Bool} {status : Status}
    (hr : r.status ≠ .running) (hupload : run.uploadID ≠ "")
    (h : settleReport r run provider = some (status, message, size)) :
    status = .failed ∨ status = .success ∧ run.uploadedBytes = some size := by
  have hobject : runOnObjectStorage run provider = some true := if_pos (.inl hupload)
  simp only [settleReport, if_neg hr, hobject, settleObjectStorageReport] at h
  split at h
  · split at h
    · cases h
    · split at h
      · cases h
        exact .inl rfl
      · split at h
        · cases h
          exact .inl rfl
        · rename_i hbytes
          cases h
          exact .inr ⟨rfl, hbytes⟩
  · cases h

namespace Sound

variable {run : Run} {c c' : Cell}

theorem uploadID_ne (h : Sound run c) {u : Completing} (hu : u ∈ c.completions) : run.uploadID ≠ "" := by
  intro hid
  rw [(h.unstarted hid).2.2] at hu
  cases hu

theorem row_eq (h : Sound run c) {row : Run} (hrow : c.row = some row) : run = row :=
  Option.some.inj (h.row.symm.trans hrow)

/-- The closing goroutines are where they were, and the run has not been closed. -/
theorem closers_mono (h : Sound run c) (hrunning : run.status = .running) {run' : Run}
    (hbytes : ∀ size, run.uploadedBytes = some size → run'.uploadedBytes = some size)
    (completions : List Completing) : ∀ t ∈ c.closers, ClosingSound run' completions t := by
  intro t ht
  have hs := h.closers t ht
  cases t with
  | write _ _ _ _ _ => exact hs.imp_right fun hsucc ↦ ⟨hsucc.1, hbytes _ hsucc.2⟩
  | done => exact trivial
  | listed _ => exact hs
  | reread | abort _ | delete _ => exact absurd hrunning hs.1

variable {n : Nat}

/-- A closing goroutine moves, and the executions do not. -/
theorem setCloser (h : Sound run c) {t : Closing} (ht : ClosingSound run c.completions t) :
    Sound run { c with closers := c.closers.set n t } :=
  { h with
    closers := fun u hu ↦ by
      rcases mem_or_eq_of_mem_set hu with hu | rfl
      · exact h.closers u hu
      · exact ht }

variable {copy : Run}

/-- A report is written, while no execution is under way. -/
theorem write (h : Sound run c) {reaper : Bool} {status : Status}
    (ht : ClosingSound run c.completions (.write reaper copy status message size))
    (hfinished : ∀ u ∈ c.completions, u.finished = true)
    (hfailed : status = .failed → ∀ u ∈ c.completions, u.holds = none) (n : Nat) (o : Outcome) :
    Sound (updateBackupRunStatus status message size copy.storageKey run)
      { c with
        row := c.row.map (updateBackupRunStatus status message size copy.storageKey)
        closers := c.closers.set n (afterWrite reaper status o) } where
  row := by rw [h.row]; rfl
  unstarted := h.unstarted
  live u hu hlive := by
    rw [hfinished u hu] at hlive
    cases hlive
  holds := h.holds
  answered u hu bytes hanswer := by
    obtain ⟨hbytes, -⟩ := h.answered u hu bytes hanswer
    refine ⟨hbytes, .inr ?_⟩
    rcases ht with hstatus | ⟨hstatus, hsize⟩
    · have hnone := hfailed hstatus u hu
      rw [hanswer] at hnone
      cases hnone
    · rw [hbytes] at hsize
      cases hsize
      exact ⟨hstatus, rfl⟩
  upload := h.upload
  recorded := h.recorded
  closers t ht' := by
    have hclosed : status ≠ .running := by
      rcases ht with hstatus | ⟨hstatus, -⟩ <;> rw [hstatus] <;> decide
    rcases mem_or_eq_of_mem_set ht' with ht' | rfl
    · have hs := h.closers t ht'
      cases t with
      | write _ _ _ _ _ => exact hs
      | done => exact trivial
      | listed _ => exact hs
      | reread | abort _ | delete _ => exact ⟨hclosed, hs.2⟩
    · rw [afterWrite]
      split
      · rename_i hguard
        exact ⟨hclosed, hfailed hguard.1⟩
      · exact trivial

variable {t' : Completing}

section

variable (h : Sound run c)

include h

/-- An execution moves on, with what that does to the run, the upload and the archive. -/
theorem next {t : Completing} (ht : c.completions[n]? = some t)
    (hlive : t.finished = false) {row : Option Run} {run' : Run} {upload : Option (List Part)}
    {archive : Option Int} (hrow : row = some run') (hstatus : run'.status = run.status)
    (hid : run'.uploadID = run.uploadID)
    (hbytes : ∀ size, run.uploadedBytes = some size → run'.uploadedBytes = some size)
    (hholds : ∀ u ∈ c.completions.set n t', ∀ size ∈ u.holds, archive = some size)
    (hanswer : ∀ size, t' = .done (.size size) → run'.uploadedBytes = some size)
    (hupload : upload ≠ none → archive = none ∧ run'.uploadedBytes = none)
    (hrecorded : ∀ size ∈ run'.uploadedBytes, ∀ bytes ∈ archive, bytes = size) :
    Sound run' ⟨row, upload, archive, c.closers, c.completions.set n t'⟩ := by
  have hmem := mem_of_getElem? ht
  have hrunning : run.status = .running := h.live t hmem hlive
  refine ⟨hrow, fun hnone ↦ absurd (hid ▸ hnone) (h.uploadID_ne hmem),
    fun _ _ _ ↦ hstatus.trans hrunning,
    hholds, fun u hu size hsize ↦ ⟨?_, .inl (hstatus.trans hrunning)⟩, hupload, hrecorded,
    h.closers_mono hrunning hbytes _⟩
  rcases mem_or_eq_of_mem_set hu with hu | rfl
  · exact hbytes size (h.answered u hu size hsize).1
  · exact hanswer size hsize

/-- The executions still know the archive, if the one that moves does. -/
theorem holds_set (ht' : ∀ size ∈ t'.holds, c.archive = some size) :
    ∀ u ∈ c.completions.set n t', ∀ size ∈ u.holds, c.archive = some size := by
  intro u hu
  rcases mem_or_eq_of_mem_set hu with hu | rfl
  · exact h.holds u hu
  · exact ht'

/-- The upload is completed: nobody has learned a size before. -/
theorem complete {total : Int}
    (ht : c.completions[n]? = some (.complete copy total)) (hupload : c.upload ≠ none)
    (hto : t' = .recheck copy total ∨ t' = .stat copy) :
    Sound run ⟨c.row, none, some total, c.closers, c.completions.set n t'⟩ := by
  obtain ⟨hgone, hunrecorded⟩ := h.upload hupload
  refine h.next ht rfl h.row rfl rfl (fun _ hb ↦ hb) (fun u hu size hsize ↦ ?_) ?_
    (fun hne ↦ absurd rfl hne) (fun size hsize ↦ ?_)
  · rcases mem_or_eq_of_mem_set hu with hu | rfl
    · have harchive := h.holds u hu size hsize
      rw [hgone] at harchive
      cases harchive
    · rcases hto with rfl | rfl <;> cases hsize
      rfl
  · rintro size rfl
    rcases hto with hto | hto <;> cases hto
  · rw [hunrecorded] at hsize
    cases hsize

/-- The size is recorded on the run, or the write fails. -/
theorem record
    (ht : c.completions[n]? = some (.record copy size)) {o : Outcome} {answer : Answer}
    (hanswer : answer = .size size ∧ o = .ok ∨ answer = .refused cannotComplete) :
    ∃ run', Sound run'
      ⟨if o.applied then some { run with uploadedBytes := some size } else c.row, c.upload, c.archive,
        c.closers, c.completions.set n (.done answer)⟩ := by
  have harchive := h.holds _ (mem_of_getElem? ht) size rfl
  have hholds : ∀ s ∈ (Completing.done answer).holds, c.archive = some s := by
    rcases hanswer with ⟨rfl, -⟩ | rfl
    · rintro s ⟨⟩
      exact harchive
    · exact fun _ hs ↦ by cases hs
  cases happlied : o.applied with
  | false =>
    refine ⟨run, h.next ht rfl h.row rfl rfl (fun _ hb ↦ hb) (h.holds_set hholds) (fun s hs ↦ ?_)
      h.upload h.recorded⟩
    cases hs
    rcases hanswer with ⟨-, rfl⟩ | hanswer
    · cases happlied
    · cases hanswer
  | true =>
    refine ⟨{ run with uploadedBytes := some size }, h.next ht rfl rfl rfl rfl (fun s hs ↦ ?_)
      (h.holds_set hholds) (fun s hs ↦ ?_) (fun hne ↦ ?_) fun s hs bytes hbytes ↦ ?_⟩
    · rw [h.recorded s hs size harchive]
    · cases hs
      rcases hanswer with ⟨hsize, -⟩ | hanswer
      · cases hsize
        rfl
      · cases hanswer
    · -- A completed upload is gone.
      have hgone := (h.upload hne).1
      rw [harchive] at hgone
      cases hgone
    · cases hs
      rw [harchive] at hbytes
      exact (Option.some.inj hbytes).symm

/-- The completed archive is deleted: nobody else has learned its size. -/
theorem deleteCompleted
    (ht : c.completions[n]? = some (.delete copy message))
    (hothers : ∀ u ∈ c.completions.eraseIdx n, u.holds = none) (deleted : Bool) :
    Sound run ⟨c.row, c.upload, if deleted then none else c.archive, c.closers,
      c.completions.set n (.done (.refused message))⟩ := by
  refine h.next ht rfl h.row rfl rfl (fun _ hb ↦ hb) (fun u hu size hsize ↦ ?_) (fun _ hs ↦ by cases hs)
    (fun hne ↦ ⟨?_, (h.upload hne).2⟩) fun size hsize bytes hbytes ↦ ?_
  · obtain ⟨m, hm⟩ := List.mem_iff_getElem?.mp hu
    rcases Places.getElem?_set hm with ⟨rfl, rfl⟩ | ⟨hmn, hm⟩
    · cases hsize
    · rw [hothers u (List.mem_eraseIdx_iff_getElem?.mpr ⟨m, hmn, hm⟩)] at hsize
      cases hsize
  · rw [(h.upload hne).1, ite_self]
  · split at hbytes
    · cases hbytes
    · exact h.recorded size hsize bytes hbytes

/-- An execution of `completeUpload` moves. -/
theorem completion {t : Completing} {a : CompletingStep}
    (ht : c.completions[n]? = some t) (hok : Undisputed c (.completion n a))
    (hmove : CompletingMove c t a c' t') :
    ∃ run', Sound run' { c' with completions := c.completions.set n t' } := by
  have hmem := mem_of_getElem? ht
  have hkeep : ∀ size, run.uploadedBytes = some size → run.uploadedBytes = some size := fun _ hb ↦ hb
  cases hmove with
  | look _ hlive hto =>
    have hnone : ∀ size, size ∉ t'.holds := fun size hsize ↦ by rw [hto] at hsize; cases hsize
    refine ⟨run, h.next ht hlive h.row rfl rfl hkeep (h.holds_set fun size hsize ↦ ?_) ?_ h.upload
      h.recorded⟩
    · exact absurd hsize (hnone size)
    · rintro size rfl
      exact absurd rfl (hnone size)
  | abort o =>
    refine ⟨run, h.next ht rfl h.row rfl rfl hkeep (h.holds_set fun _ hs ↦ by cases hs)
      (fun _ hs ↦ by cases hs) (fun hne ↦ h.upload fun hnone ↦ hne ?_) h.recorded⟩
    rw [hnone, ite_self]
  | complete hupload o _ hto =>
    exact ⟨run, h.complete ht (by rw [hupload]; exact some_ne_none _) hto⟩
  | stat harchive =>
    refine ⟨run, h.next ht rfl h.row rfl rfl hkeep (h.holds_set fun size hsize ↦ ?_)
      (fun _ hs ↦ by cases hs) h.upload h.recorded⟩
    cases hsize
    exact harchive
  | recheck hto =>
    have harchive := h.holds _ hmem _ rfl
    refine ⟨run, h.next ht rfl h.row rfl rfl hkeep (h.holds_set fun size hsize ↦ ?_) ?_ h.upload
      h.recorded⟩
    · rcases hto with rfl | rfl <;> cases hsize
      exact harchive
    · rintro size rfl
      rcases hto with hto | hto <;> cases hto
  | @record _ row size answer hrow hstatus o hanswer =>
    obtain rfl := h.row_eq hrow
    exact h.record ht hanswer
  | refuse hclosed _ => exact absurd (h.live _ hmem rfl) (hclosed run h.row)
  | delete o => exact ⟨run, h.deleteCompleted ht hok o.applied⟩

/-- A closing goroutine moves. -/
theorem closer {t t' : Closing} {a : ClosingStep}
    (ht : c.closers[n]? = some t) (hok : Undisputed c (.closer n a)) (hmove : ClosingMove c t a c' t') :
    ∃ run', Sound run' { c' with closers := c.closers.set n t' } := by
  have hs := h.closers t (mem_of_getElem? ht)
  cases hmove with
  | settle _ => exact hs.elim
  | skip => exact hs.elim
  | @write reaper copy status message size o =>
    obtain ⟨happlied, hfinished, hfailed⟩ := hok
    rw [if_pos happlied]
    exact ⟨_, h.write hs hfinished (fun hstatus ↦ hfailed _ ht (congrArg some hstatus)) n o⟩
  | discard _ _ _ => exact ⟨run, h.setCloser hs⟩
  | leave => exact ⟨run, h.setCloser trivial⟩
  | abort o =>
    refine ⟨run, { h.setCloser (n := n) (t := .delete _) hs with
      upload := fun hne ↦ h.upload fun hnone ↦ hne ?_ }⟩
    dsimp only
    rw [hnone, ite_self]
  | delete o =>
    -- Nobody has learned the size, and nobody will.
    refine ⟨run, { h.setCloser (n := n) (t := .done) trivial with
      unstarted := fun hid ↦ ⟨?_, (h.unstarted hid).2⟩
      holds := fun u hu size hsize ↦ ?_
      upload := fun hne ↦ ⟨?_, (h.upload hne).2⟩
      recorded := fun size hsize bytes hbytes ↦ ?_ }⟩
    · dsimp only
      rw [(h.unstarted hid).1, ite_self]
    · rw [hs.2 u hu] at hsize
      cases hsize
    · dsimp only
      rw [(h.upload hne).1, ite_self]
    · dsimp only at hbytes
      split at hbytes
      · cases hbytes
      · exact h.recorded size hsize bytes hbytes

/-- **A step keeps it.** -/
theorem step {a : Label} (hex : Exchange c a) (hok : Undisputed c a)
    (hstep : c.step a = some c') : ∃ run', Sound run' c' := by
  cases step_cases hstep with
  | @startUpload uploadID partSize run₀ hid hrow hnone hstatus =>
    obtain rfl := h.row_eq hrow
    obtain ⟨harchive, hbytes, hcompletions⟩ := h.unstarted hnone
    refine ⟨{ run with uploadID := uploadID, partSize := partSize }, { h with
      row := rfl
      unstarted := fun hempty ↦ absurd hempty hid
      upload := fun _ ↦ ⟨harchive, hbytes⟩
      closers := h.closers }⟩
  | putPart hupload =>
    exact ⟨run, { h with upload := fun _ ↦ h.upload (by rw [hupload]; exact some_ne_none _) }⟩
  | abortUpload o =>
    refine ⟨run, { h with upload := fun hne ↦ h.upload fun hnone ↦ hne ?_ }⟩
    dsimp only
    rw [hnone, ite_self]
  | @report r attributed provider run₀ status message size hrow hsettle =>
    obtain rfl := h.row_eq hrow
    obtain ⟨hr, u, hu, -⟩ := hex
    refine ⟨run, { h with closers := fun t ht ↦ ?_ }⟩
    rcases mem_append.mp ht with ht | ht
    · exact h.closers t ht
    · rw [mem_singleton.mp ht]
      exact settleReport_upload hr (h.uploadID_ne hu) hsettle
  | @requestComplete run₀ hrow hstatus hupload =>
    obtain rfl := h.row_eq hrow
    refine ⟨run, { h with
      unstarted := fun hid ↦ absurd hid hupload
      live := fun _ _ _ ↦ hstatus
      holds := fun u hu ↦ ?_
      answered := fun u hu ↦ ?_
      closers := h.closers_mono hstatus (fun _ hb ↦ hb) _ }⟩
    · rcases mem_append.mp hu with hu | hu
      · exact h.holds u hu
      · rw [mem_singleton.mp hu]
        exact fun _ hs ↦ by cases hs
    · rcases mem_append.mp hu with hu | hu
      · exact h.answered u hu
      · rw [mem_singleton.mp hu]
        exact fun _ hs ↦ by cases hs
  | ignore => exact ⟨run, h⟩
  | closer ht hmove => exact h.closer ht hok hmove
  | completion ht hmove => exact h.completion ht hok hmove
  | writeArchive _ _ | reap _ _ | removeRow | removeArchive => exact hex.elim

end

end Sound

/-- **Completing an upload twice is safe** where nothing is disputed: once an execution has answered the
node with a size, the archive is there, of that size, and the run records it; and no execution deletes
the archive of a run closed as a success.  This is so in every state, so also when all have finished,
and for any number of executions. -/
theorem completeUpload_safe {id : Nat} {key : String} {c : Cell}
    (hreach : Reach Cell.step (fun c a ↦ Exchange c a ∧ Undisputed c a) (.start id key) c) :
    (∀ size, .done (.size size) ∈ c.completions → c.archive = some size ∧
      ∃ run, c.row = some run ∧ run.uploadedBytes = some size ∧
        (run.status = .success → run.sizeBytes = size)) ∧
    (∀ n a c', c.step (.completion n a) = some c' → c.archive ≠ none → c'.archive = none →
      ∀ run, c.row = some run → run.status ≠ .success) := by
  obtain ⟨run, h⟩ : ∃ run, Sound run c :=
    hreach.invariant (P := fun c ↦ ∃ run, Sound run c) ⟨_, sound_start id key⟩
      fun _ _ _ ⟨_, h⟩ hok hstep ↦ h.step hok.1 hok.2 hstep
  refine ⟨fun size hsize ↦ ?_, fun n a c' hstep _ _ run' hrun' ↦ ?_⟩
  · obtain ⟨hbytes, hstatus⟩ := h.answered _ hsize size rfl
    refine ⟨h.holds _ hsize size rfl, run, h.row, hbytes, fun hsuccess ↦ ?_⟩
    rcases hstatus with hrunning | ⟨-, hrecorded⟩
    · rw [hsuccess] at hrunning
      cases hrunning
    · exact hrecorded
  · -- An execution that moves is under way, so the run is running.
    rw [h.row] at hrun'
    cases hrun'
    cases step_cases hstep with
    | completion ht hmove =>
      rw [h.live _ (mem_of_getElem? ht) hmove.live]
      decide
    | ignore => contradiction

instance (c : Cell) : DecidablePred (Exchange c) := fun a ↦ by
  unfold Exchange
  split <;> infer_instance

instance (c : Cell) : DecidablePred (Undisputed c) := fun a ↦ by
  unfold Undisputed
  split <;> infer_instance

/-- The node asks twice for the completion of its upload.  The first execution completes it and answers,
the second finds no upload and learns the size from the object. -/
def completedTwice : List Label :=
  [.startUpload "upload" multipartMinPartSize, .putPart ⟨1, 100⟩, .requestComplete, .requestComplete,
    .completion 0 (.list true), .completion 0 (.check ⟨none, none⟩), .completion 0 (.parts true),
    .completion 0 (.complete .ok), .completion 0 (.recheck ⟨none, none⟩), .completion 0 (.record .ok),
    .completion 1 (.list true), .completion 1 (.stat true), .completion 1 (.recheck ⟨none, none⟩)]

/-- The node's report, once it has the answer of the first execution. -/
def reportSuccess : Label := .report ⟨.success, "", 100⟩ true none

/-- The second execution has answered too before the report is written. -/
theorem completeUpload_safe_answeredTwice :
    ∃ c : Cell, c.completions = [.done (.size 100), .done (.size 100)] ∧
      (c.row.map Run.status) = some .success ∧ c.archive = some 100 := by
  have hrun : (exec Cell.step (fun c a ↦ Exchange c a ∧ Undisputed c a) (.start 1 "key")
      (completedTwice ++ [reportSuccess, .completion 1 (.record .ok), .closer 0 (.write .ok)])).map
      (fun c ↦ (c.completions, c.row.map Run.status)) =
      some ([.done (.size 100), .done (.size 100)], some .success) := rfl
  obtain ⟨c, hreach, hview⟩ := exists_reach_of_exec hrun
  obtain ⟨hcompletions, hstatus⟩ := Prod.mk.inj hview
  refine ⟨c, hcompletions, hstatus, ((completeUpload_safe hreach).1 100 ?_).1⟩
  rw [hcompletions]
  exact mem_cons_self

/-- **The second execution deletes the archive of a success.**  The first has answered the node with the
size, the node's report has closed the run, and the second takes the closed run for a discarded one. -/
theorem not_completed_secondExecution :
    ∃ c c' : Cell, Reach Cell.step Exchange (.start 1 "key") c ∧
      c.row.map Run.status = some .success ∧ c.archive = some 100 ∧
      c.step (.completion 1 (.delete .ok)) = some c' ∧ .done (.size 100) ∈ c'.completions ∧
      (∀ u ∈ c'.completions, u.finished = true) ∧ (∀ t ∈ c'.closers, t = .done) ∧
      c'.row.map Run.status = some .success ∧ c'.archive = none := by
  have hrun : exec Cell.step Exchange (.start 1 "key")
      (completedTwice ++ [reportSuccess, .closer 0 (.write .ok), .completion 1 (.record .ok)]) =
      some ⟨some ⟨1, .success, "", 100, "key", "upload", multipartMinPartSize, some 100⟩, none,
        some 100, [.done],
        [.done (.size 100), .delete ⟨1, .running, "", 0, "key", "upload", multipartMinPartSize, none⟩
          "backup run 1 is no longer running"]⟩ := rfl
  exact ⟨_, _, reach_of_exec hrun, rfl, rfl, rfl, by decide, by decide, by decide, rfl, rfl⟩

end Dylaris.Backup
