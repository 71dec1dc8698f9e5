import Dylaris.Backup.Model

/-!
# What a step about a run can do

`step_cases` says once what a step about a run can do, with the guards it has passed: the environment
acts, a goroutine is started on what the row reads now, or a goroutine moves (`ClosingMove`,
`CompletingMove`).
-/

set_option autoImplicit false

namespace Dylaris.Backup

open Option

open Machine (Outcome)

/-! ## Closing -/

/-- What a closing goroutine can do. -/
inductive ClosingMove (c : Cell) : Closing → ClosingStep → Cell → Closing → Prop
  | settle {run : Run} {a : ClosingStep} {status : Status} {message : String} {size : Int}
      (hstatus : status = .failed ∨ status = .success) :
      ClosingMove c (.listed run) a c (.write true run status message size)
  | skip {run : Run} {a : ClosingStep} : ClosingMove c (.listed run) a c .done
  | write {reaper : Bool} {run : Run} {status : Status} {message : String} {size : Int} (o : Outcome) :
      ClosingMove c (.write reaper run status message size) (.write o)
        { c with row := if o.applied then
            c.row.map (updateBackupRunStatus status message size run.storageKey) else c.row }
        (afterWrite reaper status o)
  | discard {run : Run} {a : ClosingStep} (hrow : c.row = some run) (hupload : run.uploadID ≠ "")
      (hstatus : run.status ≠ .success) : ClosingMove c .reread a c (.abort run)
  | leave {a : ClosingStep} : ClosingMove c .reread a c .done
  | abort {run : Run} (o : Outcome) :
      ClosingMove c (.abort run) (.abort o) { c with upload := if o.applied then none else c.upload }
        (.delete run)
  | delete {run : Run} (o : Outcome) :
      ClosingMove c (.delete run) (.delete o)
        { c with archive := if o.applied then none else c.archive } .done

theorem settleAbandoned_status {run : Run} {connected : Bool} {stat : Option (Option Int)} {age : String}
    {status : Status} {message : String} {size : Int}
    (h : settleAbandoned run connected stat age = some (status, message, size)) :
    status = .failed ∨ status = .success := by
  rw [settleAbandoned] at h
  split at h
  · cases h
    exact .inr rfl
  · split at h
    · cases h
      exact .inl rfl
    · cases h

variable {c c' : Cell}

theorem closingStep_cases {t t' : Closing} {a : ClosingStep}
    (h : closingStep c t a = some (c', t')) : ClosingMove c t a c' t' := by
  revert h
  fun_cases closingStep c t a <;> rintro ⟨⟩
  · exact .settle (settleAbandoned_status ‹_›)
  · exact .skip
  · exact .write _
  · rename_i hrow hguard
    exact .discard hrow hguard.2.1 hguard.2.2
  · exact .leave
  · exact .leave
  · exact .abort _
  · exact .delete _

/-! ## Completing -/

/-- The execution has answered the node. -/
def Completing.finished : Completing → Bool
  | .done _ => true
  | _ => false

/-- The size of the archive that the execution has learned, or has answered the node with. -/
def Completing.holds : Completing → Option Int
  | .recheck _ size | .record _ size | .done (.size size) => some size
  | _ => none

/-- What an execution of `completeUpload` can do. -/
inductive CompletingMove (c : Cell) : Completing → CompletingStep → Cell → Completing → Prop
  /-- The upload is listed, measured or found to be gone. -/
  | look {t t' : Completing} {a : CompletingStep} (hfrom : t.holds = none) (hlive : t.finished = false)
      (hto : t'.holds = none) : CompletingMove c t a c t'
  | abort {run : Run} (o : Outcome) :
      CompletingMove c (.abort run) (.abort o)
        { c with upload := if o.applied then none else c.upload } (.done (.refused allowanceExceeded))
  | complete {run : Run} {total : Int} {parts : List Part} {t' : Completing}
      (hupload : c.upload = some parts) (o : Outcome) (happlied : o.applied = true)
      (hto : t' = .recheck run total ∨ t' = .stat run) :
      CompletingMove c (.complete run total) (.complete o)
        { c with upload := none, archive := some total } t'
  | stat {run : Run} {size : Int} {a : CompletingStep} (harchive : c.archive = some size) :
      CompletingMove c (.stat run) a c (.recheck run size)
  | recheck {run : Run} {size : Int} {a : CompletingStep} {t' : Completing}
      (hto : t' = .delete run allowanceExceeded ∨ t' = .record run size) :
      CompletingMove c (.recheck run size) a c t'
  | record {run row : Run} {size : Int} {answer : Answer} (hrow : c.row = some row)
      (hstatus : row.status = .running) (o : Outcome)
      (hanswer : answer = .size size ∧ o = .ok ∨ answer = .refused cannotComplete) :
      CompletingMove c (.record run size) (.record o)
        { c with row := if o.applied then some { row with uploadedBytes := some size } else c.row }
        (.done answer)
  | refuse {run : Run} {size : Int} {a : CompletingStep} {t' : Completing}
      (hclosed : ∀ row, c.row = some row → row.status ≠ .running)
      (hto : t' = .delete run (noLongerRunning run) ∨ t' = .done (.refused cannotComplete)) :
      CompletingMove c (.record run size) a c t'
  | delete {run : Run} {message : String} (o : Outcome) :
      CompletingMove c (.delete run message) (.delete o)
        { c with archive := if o.applied then none else c.archive } (.done (.refused message))

/-- An execution that moves has not answered yet. -/
theorem CompletingMove.live {t t' : Completing} {a : CompletingStep}
    (h : CompletingMove c t a c' t') : t.finished = false := by
  cases h with
  | look _ hlive _ => exact hlive
  | _ => rfl

theorem completingStep_cases {t t' : Completing} {a : CompletingStep}
    (h : completingStep c t a = some (c', t')) : CompletingMove c t a c' t' := by
  revert h
  fun_cases completingStep c t a <;> rintro ⟨⟩
  · exact .look rfl rfl (by split <;> rfl)
  · exact .look rfl rfl rfl
  · exact .look rfl rfl (by split <;> rfl)
  · exact .abort _
  · exact .look rfl rfl (by split <;> rfl)
  · exact .look rfl rfl rfl
  · rename_i o _ hupload
    cases o with
    | ok => exact .complete hupload .ok rfl (.inl rfl)
    | lost => exact .complete hupload .lost rfl (.inr rfl)
    | failed => exact .look rfl rfl rfl
  · exact .look rfl rfl rfl
  · rename_i answers _ harchive
    cases answers with
    | true => exact .stat harchive
    | false => exact .look rfl rfl rfl
  · exact .look rfl rfl rfl
  · refine .recheck ?_
    split
    · exact .inl rfl
    · exact .inr rfl
  · rename_i o _ hset
    obtain ⟨row, hrow, hset⟩ := bind_eq_some_iff.mp hset
    obtain ⟨hstatus, ⟨⟩⟩ := ite_none_right_eq_some.mp hset
    refine .record hrow hstatus o ?_
    split
    · exact .inl ⟨rfl, ‹_›⟩
    · exact .inr rfl
  · rename_i hset
    refine .refuse (fun row hrow hstatus ↦ ?_) ?_
    · rw [hrow, bind_some, setBackupRunUploaded, if_pos hstatus] at hset
      cases hset
    · split
      · exact .inl rfl
      · exact .inr rfl
  · exact .delete _

/-! ## Steps about a run -/

/-- **What a step about a run can do.** -/
inductive StepCases (c : Cell) : Label → Cell → Prop
  | startUpload {uploadID : String} {partSize : Int} {run : Run} (hid : uploadID ≠ "")
      (hrow : c.row = some run) (hnone : run.uploadID = "") (hstatus : run.status = .running) :
      StepCases c (.startUpload uploadID partSize)
        { c with row := some { run with uploadID := uploadID, partSize := partSize }, upload := some [] }
  | putPart {part : Part} {parts : List Part} (hupload : c.upload = some parts) :
      StepCases c (.putPart part) { c with upload := some (putPart part parts) }
  | abortUpload (o : Outcome) :
      StepCases c (.abortUpload o) { c with upload := if o.applied then none else c.upload }
  | writeArchive {size : Int} {run : Run} (hrow : c.row = some run) (hnone : run.uploadID = "") :
      StepCases c (.writeArchive size) { c with archive := some size }
  | report {r : Report} {attributed : Bool} {provider : Option Bool} {run : Run} {status : Status}
      {message : String} {size : Int} (hrow : c.row = some run)
      (hsettle : settleReport r run provider = some (status, message, size)) :
      StepCases c (.report r attributed provider) (c.addCloser (.write false run status message size))
  | reap {run : Run} (hrow : c.row = some run) (hstatus : run.status = .running) :
      StepCases c .reap (c.addCloser (.listed run))
  | requestComplete {run : Run} (hrow : c.row = some run) (hstatus : run.status = .running)
      (hupload : run.uploadID ≠ "") :
      StepCases c .requestComplete { c with completions := c.completions ++ [.list run] }
  /-- A report that writes nothing, or a completion that is refused. -/
  | ignore {a : Label} : StepCases c a c
  | closer {n : Nat} {a : ClosingStep} {t t' : Closing} {c' : Cell} (ht : c.closers[n]? = some t)
      (hmove : ClosingMove c t a c' t') :
      StepCases c (.closer n a) { c' with closers := c.closers.set n t' }
  | completion {n : Nat} {a : CompletingStep} {t t' : Completing} {c' : Cell}
      (ht : c.completions[n]? = some t) (hmove : CompletingMove c t a c' t') :
      StepCases c (.completion n a) { c' with completions := c.completions.set n t' }
  | removeRow : StepCases c .removeRow { c with row := none }
  | removeArchive : StepCases c .removeArchive { c with archive := none }

theorem step_cases {a : Label} (h : c.step a = some c') : StepCases c a c' := by
  cases a with rw [Cell.step] at h
  | startUpload uploadID partSize =>
    obtain ⟨hid, h⟩ := ite_none_left_eq_some.mp h
    obtain ⟨run', hset, rfl⟩ := map_eq_some_iff.mp h
    obtain ⟨run, hrow, hset⟩ := bind_eq_some_iff.mp hset
    obtain ⟨hguard, ⟨⟩⟩ := ite_none_right_eq_some.mp hset
    exact .startUpload hid hrow hguard.1 hguard.2
  | putPart part =>
    obtain ⟨parts, hupload, rfl⟩ := map_eq_some_iff.mp h
    exact .putPart hupload
  | abortUpload o =>
    cases h
    exact .abortUpload o
  | writeArchive size =>
    split at h
    · obtain ⟨hnone, ⟨⟩⟩ := ite_none_right_eq_some.mp h
      exact .writeArchive ‹_› hnone
    · cases h
  | report r attributed provider =>
    split at h
    · split at h <;> cases h
      · exact .report ‹_› (ite_none_right_eq_some.mp ‹_›).2
      · exact .ignore
    · cases h
      exact .ignore
  | reap =>
    split at h
    · obtain ⟨hstatus, ⟨⟩⟩ := ite_none_right_eq_some.mp h
      exact .reap ‹_› hstatus
    · cases h
  | requestComplete =>
    split at h
    · split at h <;> cases h
      · rename_i hguard
        exact .requestComplete ‹_› hguard.1 hguard.2
      · exact .ignore
    · cases h
      exact .ignore
  | closer n a =>
    obtain ⟨t, ht, h⟩ := bind_eq_some_iff.mp h
    obtain ⟨⟨c₁, t'⟩, hstep, rfl⟩ := map_eq_some_iff.mp h
    exact .closer ht (closingStep_cases hstep)
  | completion n a =>
    obtain ⟨t, ht, h⟩ := bind_eq_some_iff.mp h
    obtain ⟨⟨c₁, t'⟩, hstep, rfl⟩ := map_eq_some_iff.mp h
    exact .completion ht (completingStep_cases hstep)
  | removeRow =>
    cases h
    exact .removeRow
  | removeArchive =>
    cases h
    exact .removeArchive

end Dylaris.Backup
