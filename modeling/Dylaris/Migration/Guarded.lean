import Dylaris.Migration.Job

/-!
# What a job touches, and what its log says

Two facts about the steps of a migration job, on which the results about its source rest.

`Touches` is the places a step writes to or removes from, and `World.store_of_step` says that it is
all a step changes.  `touches_cases` sorts them by owner: the live writers and `DeleteSource` touch
the source, every other step the target, and that only before anything was read back.

`World.Guarded` is what the log says in each stage, whatever fails, is cancelled or written in between.
-/

set_option autoImplicit false

namespace Dylaris.Migration

open Machine DataSet

section Run

variable {C S : Type} {hash : C → S} {size : C → Nat} {job : Job} {w w' : World C S}
  {a : Action C S}

/-! ## What a step touches -/

/-- The step writes to the place or removes what is there. -/
def Touches (job : Job) (w : World C S) (a : Action C S) (x : Addr) : Prop :=
  match a, w.stage with
  | .live k _, _ => x ∈ job.src.roots.map (·.at k)
  | .write, .writing e _ _ | .writeFailed _, .writing e _ _ =>
    x ∈ job.target.roots.map (·.at e.key)
  | .remove, .removing e | .removeFailed _, .removing e => job.target.reaches e.key x = true
  | .delete, .deleting (e :: _) _ | .deleteFailed _, .deleting (e :: _) _ =>
    job.src.reaches e.key x = true
  | _, _ => False

namespace World

theorem manifestStep_frame (h : w.manifestStep hash size job a = some w') :
    w'.store = w.store ∧ w'.log = w.log := by
  unfold manifestStep at h
  repeat' split at h
  all_goals cases h
  all_goals exact ⟨rfl, rfl⟩

theorem onError_frame (h : w.onError = some w') : w'.store = w.store ∧ w'.log = w.log := by
  unfold onError at h
  split at h
  all_goals cases h
  all_goals exact ⟨rfl, rfl⟩

theorem onCancel_frame (h : w.onCancel = some w') : w'.store = w.store ∧ w'.log = w.log := by
  unfold onCancel at h
  split at h
  all_goals cases h
  all_goals exact ⟨rfl, rfl⟩

theorem onNext_store (h : w.onNext job = some w') : w'.store = w.store := by
  unfold onNext at h
  split at h
  all_goals cases h
  all_goals rfl

theorem onSwitch_store (h : w.onSwitch job = some w') : w'.store = w.store := by
  unfold onSwitch at h
  split at h
  all_goals cases h
  all_goals rfl

theorem deleteStep_log (h : w.deleteStep job a = some w') : w'.log = w.log := by
  unfold deleteStep at h
  repeat' split at h
  all_goals cases h
  all_goals rfl

theorem deleteStep_store (h : w.deleteStep job a = some w') {x : Addr}
    (hx : ¬ Touches job w a x) : w'.store x = w.store x := by
  revert h
  fun_cases deleteStep job w a <;> rintro ⟨⟩
  all_goals simp only [Touches, ‹w.stage = _›] at hx
  · exact remove_of_not_reaches hx
  · exact removeFailed_of_not_reaches hx

section

variable [DecidableEq S]

theorem verifyStep_store (h : w.verifyStep hash job a = some w') : w'.store = w.store := by
  unfold verifyStep at h
  repeat' split at h
  all_goals cases h
  all_goals rfl

/-- What `Verify` logs is what it reads. -/
theorem verifyStep_readBack (h : w.verifyStep hash job a = some w') {k : Key} {s : S}
    (hmem : .readBack k s ∈ w'.log) :
    .readBack k s ∈ w.log ∨ ∃ c, job.target.get w'.store k = some c ∧ hash c = s := by
  revert h
  fun_cases verifyStep hash job w a <;> rintro ⟨⟩
  · exact .inl hmem
  · exact .inl hmem
  next c hc =>
    rcases List.mem_cons.mp hmem with heq | hmem
    · cases heq
      exact .inr ⟨c, hc, rfl⟩
    · exact .inl hmem
  · exact .inl hmem
  · exact .inl hmem

theorem copyStep_log (h : w.copyStep hash size job a = some w') : w'.log = w.log := by
  unfold copyStep at h
  repeat' split at h
  all_goals cases h
  all_goals rfl

theorem copyStep_store (h : w.copyStep hash size job a = some w') {x : Addr}
    (hx : ¬ Touches job w a x) : w'.store x = w.store x := by
  revert h
  fun_cases copyStep hash size job w a <;> rintro ⟨⟩
  all_goals simp only [Touches, ‹w.stage = _›] at hx
  -- `probe` and the two answers of `read` leave the store as it is.
  · rfl
  · rfl
  · rfl
  · exact put_of_not_mem hx
  · exact putFailed_of_not_mem hx
  · exact remove_of_not_reaches hx
  · exact removeFailed_of_not_reaches hx

/-- **A step changes what it touches.** -/
theorem store_of_step (h : w.step hash size job a = some w') {x : Addr}
    (hx : ¬ Touches job w a x) : w'.store x = w.store x := by
  unfold step at h
  split at h
  all_goals first
    | exact congrFun (manifestStep_frame h).1 x
    | exact copyStep_store h hx
    | exact congrFun (verifyStep_store h) x
    | exact deleteStep_store h hx
    | skip
  · cases h
    exact put_of_not_mem hx
  · exact congrFun (onCancel_frame h).1 x
  · exact congrFun (onError_frame h).1 x
  · exact congrFun (onSwitch_store h) x
  · exact congrFun (onNext_store h) x

end

end World

/-! ## The gates -/

/-- Every entry was read back with its checksum. -/
def ReadBack (entries : List (Entry S)) (log : List (Event S)) : Prop :=
  ∀ e ∈ entries, .readBack e.key e.sum ∈ log

/-- The switch succeeded, before it a full verification passed, and before that every entry was read
back. -/
def Behind (entries : List (Entry S)) (log : List (Event S)) : Prop :=
  ∃ report pre, log = .switched :: .verified report :: pre ∧ report.ok = true ∧
    report.mode = .full ∧ ReadBack entries pre

/-- What the log says of each stage. -/
def Stage.Guarded (job : Job) (entries : List (Entry S)) (log : List (Event S)) : Stage C S → Prop
  | .listing | .capturing _ _ => log = [] ∧ job.req.kind ≠ .verify
  | .loading | .presence => log = []
  | .copying _ | .reading _ _ | .writing _ _ _ | .removing _ => log = [] ∧ job.req.kind = .migrate
  | .hashing todo problems =>
    job.req.verifyMode = .full → problems = 0 →
      ∀ e ∈ entries, e ∈ todo ∨ .readBack e.key e.sum ∈ log
  | .switching report =>
    job.req.kind = .migrate ∧ report.ok = true ∧
      ∃ pre, log = .verified report :: pre ∧ (report.mode = .full → ReadBack entries pre)
  | .deleting todo _ =>
    job.req.kind = .migrate ∧ (∀ e ∈ todo, e ∈ entries) ∧ Behind entries log
  | .done | .failed _ | .cancelled => True

def World.Guarded (job : Job) (w : World C S) : Prop := w.stage.Guarded job w.entries w.log

variable {entries : List (Entry S)}

theorem mem_byKey {e : Entry S} : e ∈ byKey entries ↔ e ∈ entries :=
  (List.perm_insertionSort _ _).mem_iff

theorem Job.kind_eq (job : Job) :
    job.req.kind = .migrate ∨ job.req.kind = .manifest ∨ job.req.kind = .verify := by
  have hv := job.valid
  rw [Request.validate] at hv
  split at hv
  · cases hv
  cases hk : job.req.kind with
  | migrate => exact .inl rfl
  | manifest => exact .inr (.inl rfl)
  | verify => exact .inr (.inr rfl)
  | other name =>
    rw [hk] at hv
    cases hv

theorem Stage.guarded_afterSwitch {log : List (Event S)}
    {report : Report} {settled : Bool} (hkind : job.req.kind = .migrate)
    (hlog : settled = true → report.ok = true → report.mode = .full → Behind entries log) :
    (afterSwitch job.req report settled entries : Stage C S).Guarded job entries log := by
  rw [afterSwitch]
  split
  · split
    · rename_i hok
      obtain ⟨_, hsettled, hrep, hmode⟩ := authorizeSourceDelete_eq_ok hok
      exact ⟨hkind, fun e he ↦ mem_byKey.mp he, hlog hsettled hrep hmode⟩
    · trivial
  · trivial

theorem Stage.guarded_afterVerify {log : List (Event S)}
    {report : Report} (hback : report.ok = true → report.mode = .full → ReadBack entries log) :
    (afterVerify job.req report entries : Stage C S).Guarded job entries
      (.verified report :: log) := by
  rw [afterVerify]
  split
  · trivial
  rename_i hok
  rw [Bool.not_eq_false] at hok
  split
  · trivial
  rename_i hkind
  rw [not_not] at hkind
  split
  · trivial
  split
  · exact ⟨hkind, hok, log, rfl, hback hok⟩
  · exact guarded_afterSwitch hkind fun h ↦ by cases h

namespace World.Guarded

theorem start (job : Job) (store : Addr → Option C) :
    (World.start job store : World C S).Guarded job := by
  show (if job.req.kind = .verify then Stage.loading else Stage.listing : Stage C S).Guarded job [] []
  split
  · rfl
  · rename_i hkind
    exact ⟨rfl, hkind⟩

theorem manifestStep (hg : w.Guarded job) (h : w.manifestStep hash size job a = some w') :
    w'.Guarded job := by
  revert h
  fun_cases World.manifestStep hash size job w a <;> rintro ⟨⟩
  all_goals rw [World.Guarded, ‹w.stage = _›] at hg
  · exact hg
  · exact hg
  · trivial
  next entries _ =>
    show (if _ then _ else _ : Stage C S).Guarded job entries w.log
    split
    · trivial
    · rename_i hmanifest
      exact ⟨hg.1, job.kind_eq.resolve_right (not_or.mpr ⟨hmanifest, hg.2⟩)⟩
  · exact hg
  · trivial

theorem onError (h : w.onError = some w') : w'.Guarded job := by
  unfold World.onError at h
  split at h <;> cases h
  all_goals trivial

theorem onCancel (h : w.onCancel = some w') : w'.Guarded job := by
  unfold World.onCancel at h
  split at h <;> cases h
  all_goals trivial

theorem onSwitch (hg : w.Guarded job) (h : w.onSwitch job = some w') : w'.Guarded job := by
  unfold World.onSwitch at h
  unfold World.Guarded at hg
  split at h <;> cases h
  rename_i report hstage
  rw [hstage] at hg
  obtain ⟨hkind, _, pre, hlog, hback⟩ := hg
  refine Stage.guarded_afterSwitch hkind fun _ hok hmode ↦ ?_
  exact ⟨report, pre, congrArg _ hlog, hok, hmode, hback hmode⟩

theorem onNext (hg : w.Guarded job) (h : w.onNext job = some w') : w'.Guarded job := by
  unfold World.onNext at h
  unfold World.Guarded at hg
  split at h <;> cases h
  · rename_i hstage
    rw [hstage] at hg
    exact hg.1
  · rename_i problems hstage
    rw [hstage] at hg
    refine Stage.guarded_afterVerify fun hok hmode e he ↦ ?_
    exact (hg hmode (of_decide_eq_true hok) e he).resolve_left List.not_mem_nil
  · trivial

theorem deleteStep (hg : w.Guarded job) (h : w.deleteStep job a = some w') : w'.Guarded job := by
  revert h
  fun_cases World.deleteStep job w a <;> rintro ⟨⟩
  · rw [World.Guarded, ‹w.stage = _›] at hg
    exact ⟨hg.1, fun e he ↦ hg.2.1 e (List.mem_cons_of_mem _ he), hg.2.2⟩
  · trivial

variable [DecidableEq S]

theorem copyStep (hg : w.Guarded job) (h : w.copyStep hash size job a = some w') :
    w'.Guarded job := by
  revert h
  fun_cases World.copyStep hash size job w a <;> rintro ⟨⟩
  all_goals rw [World.Guarded, ‹w.stage = _›] at hg
  · show (if _ then _ else _ : Stage C S).Guarded job w.entries w.log
    split <;> exact hg
  · exact hg
  · trivial
  · show (if _ then _ else _ : Stage C S).Guarded job w.entries w.log
    split <;> exact hg
  -- An object that is not written, or not as it should be, ends the job.
  · trivial
  · trivial
  · trivial

theorem verifyStep (hg : w.Guarded job) (h : w.verifyStep hash job a = some w') :
    w'.Guarded job := by
  revert h
  fun_cases World.verifyStep hash job w a <;> rintro ⟨⟩
  next hsample _ _ =>
    intro hfull
    rw [hfull] at hsample
    cases hsample
  next => exact fun _ _ e he ↦ .inl (mem_byKey.mpr he)
  next e todo problems hstage c _ =>
    rw [World.Guarded, hstage] at hg
    intro hfull hzero e' he'
    by_cases hsum : hash c = e.sum
    · rw [if_pos hsum] at hzero
      rcases hg hfull hzero e' he' with hmem | hback
      · rcases List.mem_cons.mp hmem with rfl | hmem
        · exact .inr (hsum ▸ List.mem_cons_self)
        · exact .inl hmem
      · exact .inr (List.mem_cons_of_mem _ hback)
    · rw [if_neg hsum] at hzero
      cases hzero
  all_goals
    intro _ hzero
    cases hzero

theorem step (hg : w.Guarded job) (h : w.step hash size job a = some w') : w'.Guarded job := by
  unfold World.step at h
  split at h
  all_goals first
    | exact hg.manifestStep h
    | exact hg.copyStep h
    | exact hg.verifyStep h
    | exact hg.deleteStep h
    | skip
  · cases h
    exact hg
  · exact onCancel h
  · exact onError h
  · exact hg.onSwitch h
  · exact hg.onNext h

end World.Guarded

/-! ## Whose places a step touches -/

/-- A `Delete` of `DeleteSource`. -/
def Action.isDelete : Action C S → Bool
  | .delete | .deleteFailed _ => true
  | _ => false

/-- **Who touches what.**  A live writer touches the source; `DeleteSource` what its `Delete`
reaches; and any other step the target of a migration, before anything was read back. -/
theorem touches_cases {x : Addr} (hg : w.Guarded job) (hx : Touches job w a x) :
    (∃ k c, a = .live k c) ∧ job.src.Owns x ∨
      (job.req.kind = .migrate ∧ w.log = [] ∧ job.target.Owns x) ∨
      a.isDelete = true ∧ ∃ e todo n, w.stage = .deleting (e :: todo) n ∧
        job.src.reaches e.key x = true := by
  unfold World.Guarded at hg
  revert hx
  fun_cases Touches job w a x <;> intro hx
  next => exact .inl ⟨⟨_, _, rfl⟩, owns_of_mem hx⟩
  case _ hstage | _ hstage =>
    rw [hstage] at hg
    exact .inr (.inl ⟨hg.2, hg.1, owns_of_mem hx⟩)
  case _ hstage | _ hstage =>
    rw [hstage] at hg
    exact .inr (.inl ⟨hg.2, hg.1, owns_of_reaches hx⟩)
  case _ hstage | _ hstage => exact .inr (.inr ⟨rfl, _, _, _, hstage, hx⟩)
  next => cases hx

end Run

end Dylaris.Migration
