import Dylaris.Queue.Steps

/-!
# The queue loses no message

Any command may fail, with or without having been applied, and processes may crash at any point.

`process` sends `XACK` only from three places, and each is reached only after a
success or after the message was parked (`StageOk`); a done marker is written only after a success; and
a read moves the group's position exactly past the entries it makes pending (`Ordered.deliver_split`).

Both streams are capped, the dead-letter stream as well.  A message whose `XACK` keeps failing is parked
once per round, so the dead-letter stream can fill up with one message and push another out, while the
stream itself stays short (`not_accounted_deadFull`).
-/

set_option autoImplicit false

namespace Dylaris.Queue

open List Option Redis Machine

open Machine (Outcome)

/-- The message is undelivered, pending, handled with success, or parked. -/
def World.Accounted (w : World) (id : Nat) : Prop :=
  (w.redis.inStream id ∧ w.redis.lastDelivered < id) ∨ w.redis.IsPending id ∨ w.Succeeded id ∨
    w.redis.IsDead id

/-- A publish does not take the stream past its trim length. -/
def StreamFits (w : World) : Label → Prop
  | .publish _ _ => w.redis.stream.length < defaultMaxLen
  | _ => True

/-- A move to the dead-letter stream does not take it past its trim length. -/
def DeadFits (w : World) : Label → Prop
  | .worker p id (.command _ _) => ∀ P ∈ w.procs[p]?, ∀ j ∈ P.job id, j.stage = .park →
      w.redis.dead.length < defaultMaxLen
  | _ => True

/-! ## What the server keeps -/

/-- What the server keeps track of, when the messages in `S` have been handled with success. -/
structure Covers (S : Nat → Prop) (r : Redis) : Prop where
  ordered : r.Ordered
  stream : ∀ id, 0 < id → id ≤ r.top → r.inStream id = true
  pos : ∀ id, r.IsPending id → 0 < id
  covered : ∀ id, r.inStream id = true →
    r.lastDelivered < id ∨ r.IsPending id ∨ S id ∨ r.IsDead id
  done : ∀ id ∈ r.done, S id

variable {trim : Nat}

theorem trimTo_of_fits {α : Type} {l l' : List α} (h : trimTo trim l = some l')
    (hfits : l.length ≤ defaultMaxLen) : l' = l := by
  rw [trimTo] at h
  split at h
  · have htrim : trim = 0 := by omega
    rw [htrim, drop_zero] at h
    exact (Option.some.inj h).symm
  · cases h

namespace Covers

variable {S S' : Nat → Prop} {r r' : Redis}

theorem mono (h : Covers S r) (hS : ∀ id, S id → S' id) : Covers S' r where
  ordered := h.ordered
  stream := h.stream
  pos := h.pos
  covered id hid := (h.covered id hid).imp_right (.imp_right (.imp_left (hS id)))
  done id hid := hS id (h.done id hid)

variable {id : Nat}

section

variable (h : Covers S r)

include h

/-- What is pending is in the stream. -/
theorem inStream_of_isPending (hid : r.IsPending id) : r.inStream id = true :=
  h.stream id (h.pos id hid) (Nat.le_trans (h.ordered.pending_le id hid) h.ordered.last_le)

theorem publish {data : Option String} {trim : Nat}
    (hr : r.publish data trim = some r') (hfits : r.stream.length < defaultMaxLen) :
    Covers S r' := by
  have hordered := h.ordered.publish hr
  obtain ⟨l, hl, rfl⟩ := map_eq_some_iff.mp hr
  have hl' := trimTo_of_fits hl (by rw [length_append]; exact hfits)
  subst hl'
  have hin : ∀ id, inStream { r with
      stream := r.stream ++ [⟨r.top + 1, data⟩], top := r.top + 1 } id = true ↔
      r.inStream id = true ∨ id = r.top + 1 := by
    intro id
    rw [inStream_iff, inStream_iff]
    simp only [mem_append, mem_singleton, or_and_right, exists_or, exists_eq_left]
    exact or_congr_right eq_comm
  refine ⟨hordered, fun id hpos hle ↦ (hin id).mpr ?_, h.pos, fun id hid ↦ ?_, h.done⟩
  · rcases Nat.lt_or_eq_of_le hle with hlt | heq
    · exact .inl (h.stream id hpos (Nat.le_of_lt_succ hlt))
    · exact .inr heq
  · rcases (hin id).mp hid with hid | rfl
    · exact h.covered id hid
    · exact .inl (Nat.lt_succ_of_le h.ordered.last_le)

theorem ack (hid : S id ∨ r.IsDead id) : Covers S (r.ack id) where
  ordered := h.ordered.of_pending rfl rfl rfl fun _ hi ↦ (isPending_ack.mp hi).1
  stream := h.stream
  pos i hi := h.pos i (isPending_ack.mp hi).1
  covered i hi := by
    rcases h.covered i hi with hlast | hpend | hrest
    · exact .inl hlast
    · by_cases heq : i = id
      · exact .inr (.inr (heq ▸ hid))
      · exact .inr (.inl (isPending_ack.mpr ⟨hpend, heq⟩))
    · exact .inr (.inr hrest)
  done := h.done

/-- `XAUTOCLAIM` drops nothing, since nothing has been trimmed. -/
theorem claim (ids : List Nat) (consumer : String) :
    Covers S (r.claim ids consumer) where
  ordered := h.ordered.of_pending rfl rfl rfl fun _ ↦ isPending_of_claim
  stream := h.stream
  pos i hi := h.pos i (isPending_of_claim hi)
  covered id hid := (h.covered id hid).imp_right (.imp_left (isPending_claim hid))
  done := h.done

theorem deliver (count : Nat) (consumer : String) :
    Covers S (r.deliver (batch count r.undelivered) consumer) := by
  refine ⟨h.ordered.deliver count consumer, h.stream, fun id hid ↦ ?_, fun id hid ↦ ?_, h.done⟩
  · rcases isPending_deliver.mp hid with hid | ⟨m, hm, rfl⟩
    · exact h.pos id hid
    · exact Nat.zero_lt_of_lt (mem_undelivered.mp (mem_undelivered_of_batch hm)).2
  rw [isPending_deliver]
  rcases h.covered id hid with hnew | hpend | hdone
  · -- Undelivered before: in the batch, or after all of it.
    obtain ⟨m, hm, rfl⟩ := inStream_iff.mp hid
    obtain ⟨rest, hrest, -, hafter⟩ := h.ordered.deliver_split count consumer
    have hund : m ∈ r.undelivered := mem_undelivered.mpr ⟨hm, hnew⟩
    rcases mem_append.mp (hrest.symm ▸ hund) with hin | hout
    · exact .inr (.inl (.inr ⟨m, hin, rfl⟩))
    · exact .inl (hafter m hout)
  · exact .inr (.inl (.inl hpend))
  · exact .inr (.inr hdone)

theorem park {data : String} {trim : Nat}
    (hr : r.park id data trim = some r') (hfits : r.dead.length < defaultMaxLen) :
    Covers S r' ∧ ∀ i, r'.IsDead i ↔ r.IsDead i ∨ i = id := by
  obtain ⟨l, hl, rfl⟩ := map_eq_some_iff.mp hr
  have hl' := trimTo_of_fits hl (by rw [length_append]; exact hfits)
  subst hl'
  have hdead : ∀ i, IsDead { r with dead := r.dead ++ [(id, data)] } i ↔
      r.IsDead i ∨ i = id := by
    intro i
    simp only [IsDead, mem_append, mem_singleton, or_and_right, exists_or,
      exists_eq_left]
    exact or_congr_right eq_comm
  refine ⟨⟨h.ordered.of_pending rfl rfl rfl fun _ hi ↦ hi, h.stream, h.pos, fun i hi ↦ ?_, h.done⟩,
    hdead⟩
  rw [hdead]
  exact (h.covered i hi).imp_right (.imp_right (.imp_right .inl))

theorem markDone (hid : S id) : Covers S (r.markDone id) where
  ordered := h.ordered.of_pending rfl rfl rfl fun _ hi ↦ hi
  stream := h.stream
  pos := h.pos
  covered := h.covered
  done i hi := by
    rcases mem_cons.mp hi with rfl | hi
    · exact hid
    · exact h.done i hi

/-- The attempts counters and the loss of a done marker are not part of it. -/
theorem setMarkers {done attempts : List Nat} (hdone : ∀ id ∈ done, id ∈ r.done) :
    Covers S { r with done := done, attempts := attempts } :=
  ⟨h.ordered.of_pending rfl rfl rfl fun _ hi ↦ hi, h.stream, h.pos, h.covered,
    fun id hid ↦ h.done id (hdone id hid)⟩

end

end Covers

/-! ## What a worker has established -/

/-- A worker about to acknowledge a message has seen it succeed, or has parked it. -/
def StageOk (S : Nat → Prop) (r : Redis) (id : Nat) : Stage → Prop
  | .ackOnly | .mark | .markAck => S id
  | .parkAck => r.IsDead id
  | _ => True

variable {r' : Redis}

theorem StageOk.mono {S S' : Nat → Prop} {r : Redis} {id : Nat} {stage : Stage}
    (h : StageOk S r id stage) (hS : ∀ id, S id → S' id) (hdead : ∀ id, r.IsDead id → r'.IsDead id) :
    StageOk S' r' id stage := by
  cases stage <;> first | exact trivial | exact hS _ h | exact hdead _ h

/-- A command of `process` keeps track: so does the server after it, the worker's next stage is as it
should be, nothing leaves the dead-letter stream, and only what has succeeded or been parked leaves the
pending list. -/
structure Tracks (S : Nat → Prop) (r r' : Redis) (id : Nat) (next : Stage) : Prop where
  covers : Covers S r'
  stage : StageOk S r' id next
  dead : ∀ i, r.IsDead i → r'.IsDead i
  pending : ∀ i, r.IsPending i → r'.IsPending i ∨ S i ∨ r.IsDead i

namespace Tracks

variable {S : Nat → Prop} {r : Redis} {id : Nat} {next : Stage}

theorem refl (h : Covers S r) (hnext : StageOk S r id next) : Tracks S r r id next :=
  ⟨h, hnext, fun _ hd ↦ hd, fun _ ↦ .inl⟩

/-- A write to the markers. -/
theorem markers (h : Covers S r) {done attempts : List Nat} (hdone : ∀ i ∈ done, i ∈ r.done)
    (hnext : StageOk S r id next) :
    Tracks S r { r with done := done, attempts := attempts } id next :=
  ⟨h.setMarkers hdone, hnext.mono (fun _ hs ↦ hs) fun _ hd ↦ hd, fun _ hd ↦ hd, fun _ ↦ .inl⟩

theorem ack (h : Covers S r) (hok : S id ∨ r.IsDead id) (applied : Bool) (next : Stage)
    (hnext : StageOk S r id next) : Tracks S r (if applied then r.ack id else r) id next := by
  cases applied with
  | false => exact refl h hnext
  | true =>
    refine ⟨h.ack hok, hnext.mono (fun _ hs ↦ hs) fun _ hd ↦ hd, fun _ hd ↦ hd, fun i hi ↦ ?_⟩
    by_cases heq : i = id
    · exact .inr (heq ▸ hok)
    · exact .inl (isPending_ack.mpr ⟨hi, heq⟩)

end Tracks

theorem command_tracks {S : Nat → Prop} {cfg : Config} {r : Redis} {m : Msg} {stage : Stage}
    {o : Outcome} {e : Effect} (h : Covers S r) (hstage : StageOk S r m.id stage)
    (hfits : stage = .park → r.dead.length < defaultMaxLen)
    (he : command cfg r m stage o trim = some e) : Tracks S r e.redis m.id e.stage := by
  cases stage with
  | check =>
    simp only [command] at he
    split at he
    · rename_i hdone
      cases he
      exact .refl h (h.done _ hdone.2)
    · split at he <;> cases he <;> exact .refl h trivial
  | ackOnly =>
    cases he
    exact .ack h (.inl hstage) _ .release trivial
  | count =>
    have hnext : ∀ (c : Prop) [Decidable c], StageOk S r m.id (if c then .park else .release) := by
      intro c _
      split <;> exact trivial
    cases he
    dsimp only
    split
    · exact .markers h (fun _ hi ↦ hi) (hnext _)
    · exact .refl h (hnext _)
  | park =>
    simp only [command] at he
    split at he
    · obtain ⟨r', hr, rfl⟩ := map_eq_some_iff.mp he
      obtain ⟨hcov, hdead⟩ := h.park hr (hfits rfl)
      refine ⟨hcov, ?_, fun id hid ↦ (hdead id).mpr (.inl hid), ?_⟩
      · dsimp only
        split
        · exact (hdead m.id).mpr (.inr rfl)
        · exact trivial
      · obtain ⟨l, -, rfl⟩ := map_eq_some_iff.mp hr
        exact fun _ ↦ .inl
    · cases he
      exact .refl h trivial
  | parkAck =>
    cases he
    exact .ack h (.inr hstage) _ .parkClear trivial
  | parkClear | markClear =>
    cases he
    dsimp only
    split
    · exact .markers h (fun _ hi ↦ hi) trivial
    · exact .refl h trivial
  | mark =>
    cases he
    dsimp only
    split
    · exact ⟨h.markDone hstage, hstage, fun _ hd ↦ hd, fun _ ↦ .inl⟩
    · exact .refl h hstage
  | markAck =>
    cases he
    exact .ack h (.inl hstage) _ .markClear trivial
  | queued | running | release => cases he

/-! ## The invariant -/

/-- The server keeps track of every message, and every worker is where it should be. -/
structure NoLoss (w : World) : Prop where
  covers : Covers w.Succeeded w.redis
  jobs : ∀ P ∈ w.procs, ∀ j ∈ P.jobs, StageOk w.Succeeded w.redis j.msg.id j.stage

variable {w : World} {p : Nat} {P P' : Proc}

/-- A success is not forgotten when a process moves. -/
theorem succeeded_set (hp : w.procs[p]? = some P)
    (hlog : ∀ e ∈ P.log, e ∈ P'.log) (r' : Redis) (id : Nat) (h : w.Succeeded id) :
    World.Succeeded ⟨r', w.procs.set p P'⟩ id := by
  obtain ⟨Q, hQ, hev⟩ := h
  obtain ⟨q, hq⟩ := mem_iff_getElem?.mp hQ
  by_cases hqp : p = q
  · subst hqp
    rw [hp] at hq
    cases hq
    refine ⟨P', mem_iff_getElem?.mpr ⟨p, ?_⟩, hlog _ hev⟩
    rw [List.getElem?_set_self (List.getElem?_eq_some_iff.mp hp).1]
  · exact ⟨Q, mem_iff_getElem?.mpr ⟨q, by rw [getElem?_set_ne hqp, hq]⟩, hev⟩

section

variable (h : NoLoss w)

include h

section

variable (hp : w.procs[p]? = some P)

include hp

/-- A move of a process keeps the invariant if it does on the server and every job of the process is an
old one or where it should be. -/
theorem NoLoss.set (hlog : ∀ e ∈ P.log, e ∈ P'.log)
    (hdead : ∀ id, w.redis.IsDead id → r'.IsDead id) (hcovers : Covers w.Succeeded r')
    (hjobs : ∀ j ∈ P'.jobs, j ∈ P.jobs ∨
      StageOk (World.Succeeded ⟨r', w.procs.set p P'⟩) r' j.msg.id j.stage) :
    NoLoss ⟨r', w.procs.set p P'⟩ := by
  have hS := succeeded_set hp hlog r'
  refine ⟨hcovers.mono hS, fun Q hQ j hj ↦ ?_⟩
  rcases mem_or_eq_of_mem_set hQ with hQ | rfl
  · exact (h.jobs Q hQ j hj).mono hS hdead
  · rcases hjobs j hj with hj | hj
    · exact (h.jobs P (mem_of_getElem? hp) j hj).mono hS hdead
    · exact hj

/-- A move that leaves the server alone and logs nothing. -/
theorem NoLoss.still (hlog : P'.log = P.log)
    (hjobs : ∀ j ∈ P'.jobs, j ∈ P.jobs ∨
      StageOk (World.Succeeded ⟨w.redis, w.procs.set p P'⟩) w.redis j.msg.id j.stage) :
    NoLoss ⟨w.redis, w.procs.set p P'⟩ :=
  h.set hp (fun _ he ↦ hlog.symm ▸ he) (fun _ hd ↦ hd) h.covers hjobs

theorem NoLoss.reader
    (hmove : ReaderMove w.redis P r' P') :
    NoLoss ⟨r', w.procs.set p P'⟩ ∧ ∀ id, w.redis.IsPending id → r'.IsPending id := by
  cases hmove with
  | read reader hread _ _ _ =>
    cases hread with
    | list =>
      exact ⟨h.still hp rfl fun _ hj ↦ .inl hj, fun _ hi ↦ hi⟩
    | claim ids =>
      exact ⟨h.set hp (fun _ he ↦ he) (fun _ hd ↦ hd) (h.covers.claim ids P.name) fun _ hj ↦ .inl hj,
        fun id hi ↦ isPending_claim (h.covers.inStream_of_isPending hi) hi⟩
    | deliver =>
      refine ⟨h.set hp (fun _ he ↦ he) (fun _ hd ↦ hd) (h.covers.deliver P.cfg.count P.name)
        fun _ hj ↦ .inl hj, ?_⟩
      exact fun _ hi ↦ isPending_deliver.mpr (.inl hi)
  | begin _ _ | giveUp _ =>
    exact ⟨h.still hp rfl fun _ hj ↦ .inl hj, fun _ hi ↦ hi⟩
  | send _ _ hstage =>
    refine ⟨h.still hp rfl fun j hj ↦ ?_, fun _ hi ↦ hi⟩
    rcases mem_append.mp hj with hj | hj
    · exact .inl hj
    · rw [mem_singleton.mp hj]
      rcases hstage with hst | hst <;> rw [hst] <;> exact .inr trivial

theorem NoLoss.worker {i : Nat}
    {a : WorkerStep} (hmove : WorkerMove w.redis P i a r' P')
    (hfits : DeadFits w (.worker p i a)) :
    NoLoss ⟨r', w.procs.set p P'⟩ ∧ ∀ id, w.redis.IsPending id →
      r'.IsPending id ∨ w.Succeeded id ∨ w.redis.IsDead id := by
  cases hmove with
  | take _ _ =>
    refine ⟨h.still hp rfl fun j hj ↦ ?_, fun _ ↦ .inl⟩
    rcases mem_setStage hj with ⟨-, hst, -⟩ | ⟨hj, -⟩
    · rw [hst]
      exact .inr trivial
    · exact .inl hj
  | drop _ _ | release _ _ =>
    exact ⟨h.still hp rfl fun _ hj ↦ .inl (mem_removeJob hj).1,
      fun _ ↦ .inl⟩
  | @command j o trim e hj he =>
    obtain ⟨hmem, hid⟩ := mem_of_job hj
    subst hid
    have htracks := command_tracks h.covers (h.jobs P (mem_of_getElem? hp) j hmem)
      (hfits P hp j hj) he
    have hlog : ∀ ev ∈ P.log, ev ∈ e.events ++ P.log := fun _ ↦ mem_append_right _
    refine ⟨h.set hp hlog htracks.dead htracks.covers fun j' hj' ↦ ?_, htracks.pending⟩
    rcases mem_setStage hj' with ⟨hid', hst', -⟩ | ⟨hj', -⟩
    · rw [hid', hst']
      exact .inr (htracks.stage.mono (succeeded_set hp hlog _) fun _ hd ↦ hd)
    · exact .inl hj'
  | @handler j result hj hstage =>
    have hlog : ∀ ev ∈ P.log, ev ∈ Event.returned i (result == .ok) :: P.log :=
      fun _ ↦ mem_cons_of_mem _
    refine ⟨h.set hp hlog (fun _ hd ↦ hd) h.covers fun j' hj' ↦ ?_, fun _ ↦ .inl⟩
    rcases mem_setStage hj' with ⟨hid', hst', -⟩ | ⟨hj', -⟩
    · rw [hid', hst']
      refine .inr ?_
      split
      · -- The success that the marker will stand for.
        rename_i hok
        refine ⟨_, List.mem_set (List.getElem?_eq_some_iff.mp hp).1 _, ?_⟩
        rw [hok]
        exact mem_cons_self
      · exact trivial
    · exact .inl hj'

end

/-- **One step keeps the invariant**, and what leaves the pending list has succeeded or been parked. -/
theorem NoLoss.step {w' : World} {a : Label} (hstream : StreamFits w a)
    (hdead : DeadFits w a) (hstep : w.step a = some w') :
    NoLoss w' ∧ ∀ id, w.redis.IsPending id →
      w'.redis.IsPending id ∨ w.Succeeded id ∨ w.redis.IsDead id := by
  cases step_cases hstep with
  | env henv =>
    cases henv with
    | publish hr =>
      refine ⟨⟨h.covers.publish hr hstream, fun P hP j hj ↦ ?_⟩, ?_⟩
      · obtain ⟨l, -, rfl⟩ := map_eq_some_iff.mp hr
        exact (h.jobs P hP j hj).mono (fun _ ↦ id) fun _ ↦ id
      · obtain ⟨l, -, rfl⟩ := map_eq_some_iff.mp hr
        exact fun _ ↦ .inl
    | expireDone i =>
      exact ⟨⟨h.covers.setMarkers fun _ hid ↦ (mem_filter.mp hid).1, h.jobs⟩, fun _ ↦ .inl⟩
    | expireAttempts i => exact ⟨⟨h.covers.setMarkers fun _ ↦ id, h.jobs⟩, fun _ ↦ .inl⟩
  | @start name cfg hstart =>
    have hS : ∀ id, w.Succeeded id →
        World.Succeeded { w with procs := w.procs ++ [Proc.start name cfg] } id :=
      fun id ⟨P, hP, hev⟩ ↦ ⟨P, mem_append_left _ hP, hev⟩
    refine ⟨⟨h.covers.mono hS, fun P hP j hj ↦ ?_⟩, fun _ ↦ .inl⟩
    rcases mem_append.mp hP with hP | hP
    · exact (h.jobs P hP j hj).mono hS fun _ ↦ id
    · rw [mem_singleton.mp hP] at hj
      cases hj
  | @proc p P r' P' hp hmove =>
    cases hmove with
    | crash =>
      exact ⟨h.still hp rfl fun _ hj ↦ (by cases hj), fun _ ↦ .inl⟩
    | cancel =>
      exact ⟨h.still hp rfl fun _ hj ↦ .inl hj, fun _ ↦ .inl⟩
    | reader hmove =>
      obtain ⟨hinv, hpend⟩ := h.reader hp hmove
      exact ⟨hinv, fun id hid ↦ .inl (hpend id hid)⟩
    | worker hmove => exact h.worker hp hmove hdead

end

theorem ordered_empty : World.empty.redis.Ordered :=
  ⟨.nil, by simp [World.empty], Nat.le_refl 0, by simp [World.empty, IsPending]⟩

theorem noLoss_empty : NoLoss World.empty := by
  refine ⟨⟨ordered_empty, fun id hpos hle ↦ absurd hle (Nat.not_le_of_lt hpos), ?_, ?_, ?_⟩, ?_⟩ <;>
    simp [World.empty, IsPending, inStream]

/-! ## No message is lost -/

/-- **The queue loses no message**, as long as neither the stream nor the dead-letter stream exceeds
its trim length: in every state reached, each published message is undelivered, pending, handled with
success or parked, and a message leaves the pending list only after one of the last two. -/
theorem no_message_lost (w : World)
    (hreach : Reach World.step (fun w a ↦ StreamFits w a ∧ DeadFits w a) World.empty w) :
    (∀ id, 0 < id → id ≤ w.redis.top → w.Accounted id) ∧
    (∀ a w', StreamFits w a → DeadFits w a → w.step a = some w' → ∀ id, w.redis.IsPending id →
      ¬ w'.redis.IsPending id → w.Succeeded id ∨ w.redis.IsDead id) := by
  have hinv : NoLoss w := hreach.invariant noLoss_empty fun _ _ _ h hok hstep ↦
    (h.step hok.1 hok.2 hstep).1
  refine ⟨fun id hpos htop ↦ ?_, fun a w' hstream hdead hstep id hpend hgone ↦ ?_⟩
  · have hin := hinv.covers.stream id hpos htop
    exact (hinv.covers.covered id hin).imp_left fun hlast ↦ ⟨hin, hlast⟩
  · exact ((hinv.step hstream hdead hstep).2 id hpend).resolve_left hgone

/-! ## A full dead-letter stream -/

instance (w : World) : DecidablePred (StreamFits w) := fun a ↦ by
  unfold StreamFits
  split <;> infer_instance

instance (w : World) : DecidablePred (DeadFits w)
  | .publish _ _ | .start _ _ | .crash _ | .cancel _ | .expireDone _ | .expireAttempts _ | .reader _ _
  | .worker _ _ .take | .worker _ _ .drop | .worker _ _ (.command _ _) | .worker _ _ (.handler _)
  | .worker _ _ .release => by unfold DeadFits; infer_instance

/-- Message 1 has been parked and acknowledged, message 2 parked but not acknowledged. -/
def unacked (dead : List (Nat × String)) (log : List Event) : World :=
  ⟨⟨[⟨1, some "a"⟩, ⟨2, some "b"⟩], 2, 2, [(2, "node")], [], [], dead⟩,
    [⟨"node", oneDelivery, false, .read, [], [], log⟩]⟩

/-- The idle tick has listed message 2 again, its handler has failed, and `deadLetter` is under way. -/
def parking (dead : List (Nat × String)) (log : List Event) (stage : Stage) : World :=
  ⟨⟨[⟨1, some "a"⟩, ⟨2, some "b"⟩], 2, 2, [(2, "node")], [], [2], dead⟩,
    [⟨"node", oneDelivery, false, .read, [2], [⟨⟨2, some "b"⟩, .main, stage⟩], log⟩]⟩

/-- What the first round leaves in the log. -/
def firstLog : List Event :=
  [.parked 2, .returned 2 false, .invoked 2, .parked 1, .returned 1 false, .invoked 1]

/-- Both messages are published, delivered and fail; the `XACK` of message 2 fails as well. -/
def firstRound : List Label :=
  [.publish (some "a") 0, .publish (some "b") 0, .start "node" oneDelivery,
    .reader 0 (.claim [] .ok), .reader 0 .next, .reader 0 (.list .ok), .reader 0 .next,
    .reader 0 (.read .ok), .reader 0 .next, .reader 0 .send, .reader 0 .next,
    .worker 0 1 (.command .ok 0), .worker 0 1 (.handler .error), .worker 0 1 (.command .ok 0),
    .worker 0 1 (.command .ok 0), .worker 0 1 (.command .ok 0), .worker 0 1 (.command .ok 0),
    .worker 0 1 .release, .reader 0 .send, .reader 0 .next,
    .worker 0 2 (.command .ok 0), .worker 0 2 (.handler .error), .worker 0 2 (.command .ok 0),
    .worker 0 2 (.command .ok 0), .worker 0 2 (.command .failed 0), .worker 0 2 (.command .ok 0),
    .worker 0 2 .release]

/-- The idle tick, until message 2 has failed again and is about to be parked. -/
def nextRound : List Label :=
  [.reader 0 (.read .ok), .reader 0 (.claim [] .ok), .reader 0 .next, .reader 0 (.list .ok),
    .reader 0 (.list .ok), .reader 0 .next, .reader 0 .send, .reader 0 .next,
    .worker 0 2 (.command .ok 0), .worker 0 2 (.handler .error), .worker 0 2 (.command .ok 0)]

/-- The rest of `deadLetter`, with an `XACK` that fails. -/
def failedAck : List Label :=
  [.worker 0 2 (.command .failed 0), .worker 0 2 (.command .ok 0), .worker 0 2 .release]

theorem exec_firstRound :
    exec World.step (fun w a ↦ StreamFits w a ∧ DeadFits w a) World.empty firstRound =
      some (unacked [(1, "a"), (2, "b")] firstLog) := rfl

/-- The hypothesis at a run with a failing handler and a failing `XACK`. -/
theorem no_message_lost_firstRound :
    (unacked [(1, "a"), (2, "b")] firstLog).Accounted 1 ∧
      (unacked [(1, "a"), (2, "b")] firstLog).Accounted 2 :=
  have h := (no_message_lost _ (reach_of_exec exec_firstRound)).1
  ⟨h 1 (by decide) (by decide), h 2 (by decide) (by decide)⟩

theorem exec_nextRound (dead : List (Nat × String)) (log : List Event) :
    exec World.step StreamFits (unacked dead log) nextRound =
      some (parking dead (.returned 2 false :: .invoked 2 :: log) .park) := rfl

theorem exec_failedAck (dead : List (Nat × String)) (log : List Event) :
    exec World.step StreamFits (parking dead log .parkAck) failedAck =
      some (unacked dead log) := rfl

variable {dead : List (Nat × String)} {dead' : List (Nat × String)}

theorem step_parking (log : List Event)
    (h : trimTo trim (dead ++ [(2, "b")]) = some dead') :
    World.step (parking dead log .park) (.worker 0 2 (.command .ok trim)) =
      some (parking dead' (.parked 2 :: log) .parkAck) := by
  have hpark : (parking dead log .park).redis.park 2 "b" trim =
      some (parking dead' log .park).redis := by
    exact congrArg _ h
  change (((park _ 2 "b" trim).map _).map _).map _ = _
  rw [hpark]
  rfl

/-- A round of message 2 adds one entry to the dead-letter stream, which may push others out. -/
theorem reach_round (trim : Nat) (log : List Event)
    (h : trimTo trim (dead ++ [(2, "b")]) = some dead') :
    Reach World.step StreamFits (unacked dead log)
      (unacked dead' (.parked 2 :: .returned 2 false :: .invoked 2 :: log)) :=
  have hparked := (reach_of_exec (exec_nextRound dead log)).tail (by exact trivial)
    (step_parking _ h)
  hparked.trans (reach_of_exec (exec_failedAck dead' _))

/-- Any number of rounds, with the stream short and no success for message 1. -/
theorem reach_rounds (n : Nat) : ∃ log : List Event, .returned 1 true ∉ log ∧
    Reach World.step StreamFits World.empty
      (unacked ((1, "a") :: List.replicate (n + 1) (2, "b")) log) := by
  induction n with
  | zero =>
    exact ⟨firstLog, by decide, (reach_of_exec exec_firstRound).mono fun _ _ ↦ And.left⟩
  | succ n ih =>
    obtain ⟨log, hlog, hreach⟩ := ih
    refine ⟨.parked 2 :: .returned 2 false :: .invoked 2 :: log, by simpa using hlog,
      hreach.trans (reach_round 0 log ?_)⟩
    rw [trimTo, if_pos (.inl rfl), drop_zero, cons_append, ← replicate_succ']

theorem not_accounted_unacked {log : List Event}
    (hlog : .returned 1 true ∉ log) (hdead : ∀ e ∈ dead, e.1 ≠ 1) :
    ¬ (unacked dead log).Accounted 1 := by
  rintro (⟨-, hlast⟩ | ⟨e, he, hid⟩ | ⟨P, hP, hev⟩ | ⟨e, he, hid⟩)
  · exact absurd hlast (by change ¬ 2 < 1; decide)
  · rw [mem_singleton.mp he] at hid
    cases hid
  · rw [mem_singleton.mp hP] at hev
    exact hlog hev
  · exact hdead e he hid

/-- Message 2, whose `XACK` keeps failing, is parked until message 1 is pushed out of the dead-letter
stream, though the stream never holds more than two entries. -/
theorem not_accounted_deadFull :
    ∃ w, Reach World.step StreamFits World.empty w ∧ 1 ≤ w.redis.top ∧ ¬ w.Accounted 1 := by
  obtain ⟨n, hn⟩ : ∃ n, n + 2 = defaultMaxLen := ⟨9998, rfl⟩
  obtain ⟨log, hlog, hreach⟩ := reach_rounds n
  have htrim : trimTo 1 ((1, "a") :: List.replicate (n + 1) (2, "b") ++ [(2, "b")]) =
      some (List.replicate (n + 1) (2, "b") ++ [(2, "b")]) := by
    rw [trimTo, if_pos]
    · rfl
    · simp only [cons_append, length_cons, length_append, length_replicate,
        length_nil]
      omega
  refine ⟨_, hreach.trans (reach_round 1 log htrim), Nat.le_succ 1, not_accounted_unacked ?_ ?_⟩
  · simpa using hlog
  · intro e he
    have : e = (2, "b") := by simpa using he
    simp [this]

end Dylaris.Queue
