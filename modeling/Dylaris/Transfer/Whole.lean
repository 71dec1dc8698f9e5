import Dylaris.Backup.Model
import Dylaris.Library.Places
import Dylaris.Transfer.Invariant

/-!
# A cut-off archive is not completed

When the node asks Core to complete its upload, the archive should have been read to its end without an
error, and the stored parts should be exactly its bytes, cut at the part size.  Core cannot check this: a
cut at the end of a part looks like the end of the archive.

The loop has three exits that take a cut for the end.

* It leaves at the check of the context without an error.  Where the caller's context is cancelled
  between two parts and every `PUT` has gone through, no goroutine reports one either, and the upload is
  completed (`not_whole_cancelled`): `Request` sends before it looks at the context.
* A reader's own `io.ErrUnexpectedEOF` is taken for the one of `io.ReadFull`.
* `io.ReadFull` drops an error that comes with the bytes that fill the buffer.

The result is for runs in which none of them is taken (`Intact`).

In every run at most `maxBufferedParts` parts are in memory, and the upload does not hang
(`upload_bounded`): whoever waits for a buffer waits for a goroutine that has one.
-/

set_option autoImplicit false

namespace Dylaris.Transfer

open List Option Machine Prod Places

/-- How much of the part has been read. -/
def Phase.filled : Phase → Nat
  | .read _ n => n
  | _ => 0

/-- The context is not found done before an error is recorded; and no `Read` of the archive returns
`io.ErrUnexpectedEOF`, or an error other than `io.EOF` with the bytes that fill the part. -/
def Intact (s : Upload) : Label → Prop
  | .main .check => s.ctxDone = true → s.firstErr ≠ none
  | .main (.read _ (some .unexpectedEOF)) => False
  | .main (.read chunk (some (.other _))) => s.phase.filled + chunk.length < s.partSize
  | _ => True

/-! ## The loop -/

namespace Sound

variable {cut : List (List UInt8)} {s : Upload}

variable {s' : Upload}

section

variable (h : Sound cut s)

include h

theorem same_workers (hadv : Advances s s')
    (hworkers : s'.workers = s.workers) (i : Nat) (v : Worker) (hv : s'.workers[i]? = some v) :
    Settled s' v ∧ ∃ v₀, s.workers[i]? = some v₀ ∧ v.num = v₀.num ∧ v.buf = v₀.buf ∧
      v.size = v₀.size ∧ (v.at' ≠ .done → v₀.at' ≠ .done) := by
  rw [hworkers] at hv
  exact ⟨hadv.settled (h.settled v (mem_of_getElem? hv)), v, hv, rfl, rfl, rfl, fun h ↦ h⟩

/-- A context is cancelled. -/
theorem cancel (ctxDone callerDone : Bool) :
    Sound cut { s with ctxDone := ctxDone, callerDone := callerDone } := by
  have hadv : Advances s { s with ctxDone := ctxDone, callerDone := callerDone } :=
    ⟨rfl, rfl, rfl, fun h ↦ h, fun _ h ↦ h⟩
  exact h.of_advances hadv (.refl _) rfl rfl rfl (h.same_workers hadv rfl) h.sorted h.stored h.inFlight

/-- An error is recorded. -/
theorem fail (err : String) : Sound cut (s.fail err) := by
  have hadv : Advances s (s.fail err) := ⟨rfl, rfl, rfl, fun _ ↦ some_ne_none _, fun _ h ↦ h⟩
  exact h.of_advances hadv (.refl _) rfl rfl rfl (h.same_workers hadv rfl) h.sorted h.stored h.inFlight

/-- An upload that has failed arrives: it is the part of its number all the same. -/
theorem land {p : Nat × List UInt8} (hp : p ∈ s.inFlight) :
    Sound cut { s with stored := Numbered.insert p.1 p.2 s.stored } := by
  have hadv : Advances s { s with stored := Numbered.insert p.1 p.2 s.stored } :=
    ⟨rfl, rfl, rfl, fun h ↦ h, fun _ hk ↦ Numbered.key_mem_insert _ _ hk⟩
  obtain ⟨i, hnum, hpart⟩ := h.inFlight p hp
  exact h.of_advances hadv (.refl _) rfl rfl rfl (h.same_workers hadv rfl) (h.sorted.insert _ _)
    (hnum ▸ h.stored.insert hpart) h.inFlight

end

variable {ph : Phase}

section

variable (h : Sound cut s)

include h

/-- What is known where the loop is. -/
theorem here (hphase : s.phase = ph) : PhaseSound cut s ph :=
  hphase ▸ h.phase

/-- Before the completion is asked for, nothing has been sent. -/
theorem unsent (hphase : s.phase = ph) (hasked : ph.asked = false) {P : Prop}
    (hsent : s.completeSent = true) : P := by
  have := (h.sent hsent).1
  rw [hphase, hasked] at this
  cases this

/-- The loop goes on, with what it holds or less. -/
theorem goto {bufs : List (Option Nat)}
    (howned : ({ s with phase := ph, bufs := bufs } : Upload).owned.Sublist s.owned)
    (hph : PhaseSound cut s ph) (hsent : s.completeSent = true → ph.asked = true) :
    Sound cut { s with phase := ph, bufs := bufs } := by
  have hadv : Advances s { s with phase := ph, bufs := bufs } :=
    ⟨rfl, rfl, rfl, fun h ↦ h, fun _ h ↦ h⟩
  exact { h with
    owned := h.owned.sublist howned
    allocated := fun b hb ↦ h.allocated b (howned.subset hb)
    phase := hadv.phaseSound hph
    sent := fun hs ↦ ⟨hsent hs, hadv.complete (h.sent hs).2⟩ }

/-- The loop goes to a place where it holds no buffer. -/
theorem leave {p : Phase} (hheld : p.held = none) (hph : PhaseSound cut s p)
    (hsent : s.completeSent = true → p.asked = true) : Sound cut { s with phase := p } := by
  refine h.goto ?_ hph hsent
  simp only [Upload.owned, hheld]
  exact sublist_append_right _ _

/-- Core's first answer. -/
theorem openUpload (hphase : s.phase = .open)
    (answer : Except String (Int × List Nat)) : Sound cut (s.openUpload answer) := by
  have hopen := h.here hphase
  obtain ⟨hheap, hreads, rfl⟩ := hopen
  unfold Upload.openUpload
  split
  · exact h.leave rfl trivial fun _ ↦ rfl
  split
  · exact h.leave rfl trivial fun _ ↦ rfl
  rename_i partSize urls hsize
  have howned : ({ s with
      phase := .head, partSize := partSize.toNat, urls := urls, ctxDone := s.callerDone } :
      Upload).owned = s.owned := by
    simp only [Upload.owned, hphase]
    rfl
  exact { h with
    owned := howned ▸ h.owned
    allocated := howned ▸ h.allocated
    sizes := fun buf hbuf ↦ by
      rw [hheap] at hbuf
      cases hbuf
    phase := {
      size := by
        dsimp only
        omega
      full := fun _ hpart ↦ by cases hpart
      reads := fun r hr ↦ by
        rw [hreads] at hr
        cases hr
      bytes := by
        simp only [Upload.bytes, hreads]
        rfl }
    sent := h.unsent hphase rfl }

/-- A buffer comes free, or the context is done. -/
theorem select (hphase : s.phase = .head) {stopped : Bool}
    (hstep : s.select stopped = some s') : Sound cut s' := by
  have hhead := h.here hphase
  revert hstep
  fun_cases Upload.select s stopped <;> rintro ⟨⟩
  · exact h.leave rfl hhead (h.unsent hphase rfl)
  · rename_i buf bufs hbufs
    refine h.goto ?_ hhead (h.unsent hphase rfl)
    simp only [Upload.owned, hphase, hbufs]
    cases buf with
    | none | some b => exact .refl _

/-- A goroutine's buffer is allocated. -/
theorem buf_lt {i : Nat} {w : Worker} (hw : s.workers[i]? = some w)
    (hdone : w.at' ≠ .done) : w.buf < s.heap.length := by
  refine h.allocated _ (mem_append_right _ (mem_append_right _ ?_))
  exact mem_filterMap.mpr ⟨w, mem_of_getElem? hw, if_neg hdone⟩

/-- A new buffer. -/
theorem allocate (hphase : s.phase = .check none) :
    Sound cut { s with
      phase := .read s.heap.length 0
      heap := s.heap ++ [List.replicate s.partSize 0] } := by
  have hhead := h.here hphase
  have howned : ({ s with
      phase := .read s.heap.length 0
      heap := s.heap ++ [List.replicate s.partSize 0] } : Upload).owned = s.heap.length :: s.owned := by
    simp only [Upload.owned, hphase]
    rfl
  exact { h with
    owned := by
      rw [howned]
      exact nodup_cons.mpr ⟨fun hmem ↦ lt_irrefl _ (h.allocated _ hmem), h.owned⟩
    allocated := fun b hb ↦ by
      rw [howned] at hb
      rw [length_append]
      rcases mem_cons.mp hb with rfl | hb
      · exact Nat.lt_succ_self _
      · exact Nat.lt_succ_of_lt (h.allocated b hb)
    sizes := fun buf hbuf ↦ by
      rcases mem_append.mp hbuf with hbuf | hbuf
      · exact h.sizes buf hbuf
      · rw [mem_singleton.mp hbuf]
        exact length_replicate
    body := fun i w hw hdone ↦ by
      rw [h.body i w hw hdone, Upload.body, Upload.body]
      exact congrArg (fun buf ↦ some (List.take w.size buf))
        (Upload.buffer_append (h.buf_lt hw hdone) _).symm
    phase := ⟨Nat.zero_le _, { hhead with }⟩
    sent := h.unsent hphase rfl }

/-- The check of the context. -/
theorem checkContext {buf : Option Nat} (hphase : s.phase = .check buf)
    (hok : s.ctxDone = true → s.firstErr ≠ none) : Sound cut (s.checkContext buf) := by
  have hhead := h.here hphase
  unfold Upload.checkContext
  split
  · exact h.leave rfl (.inl (hok ‹_›)) (h.unsent hphase rfl)
  split
  · refine h.goto ?_ ⟨Nat.zero_le _, hhead⟩ (h.unsent hphase rfl)
    simp only [Upload.owned, hphase]
    exact .refl _
  · exact h.allocate hphase

/-- A goroutine's buffer is not the one that the loop reads into. -/
theorem buf_ne {b n : Nat} (hphase : s.phase = .read b n) {i : Nat} {w : Worker}
    (hw : s.workers[i]? = some w) (hdone : w.at' ≠ .done) : b ≠ w.buf := by
  rintro rfl
  have howned : s.owned = w.buf :: (s.bufs.reduceOption ++ s.workers.filterMap Worker.held) := by
    rw [Upload.owned, hphase]
    rfl
  have hnodup := h.owned
  rw [howned] at hnodup
  refine (nodup_cons.mp hnodup).1 (mem_append_right _ ?_)
  exact mem_filterMap.mpr ⟨w, mem_of_getElem? hw, if_neg hdone⟩

end

section Read

variable {b n : Nat} {chunk : List UInt8} {err : Option ReadError}

section

variable (h : Sound cut s) (hphase : s.phase = .read b n)

include h hphase

theorem lt_heap : b < s.heap.length := by
  refine h.allocated b (mem_append_left _ ?_)
  rw [hphase]
  exact mem_cons_self

/-- The next bytes of the archive are behind those already in the buffer. -/
theorem reading_readInto (chunk : List UInt8)
    (herr : ∀ e ∈ err, e = .eof) :
    Reading cut (((s.readInto b n chunk err).buffer b).take (n + chunk.length))
      (s.readInto b n chunk err) := by
  have hread := h.here hphase
  obtain ⟨hn, hsize, hfull, hreads, hbytes⟩ := hread
  have hb := h.lt_heap hphase
  have hlen : n ≤ (s.buffer b).length := (Upload.length_buffer hb h.sizes).symm ▸ hn
  refine ⟨hsize, hfull, fun r hr e he ↦ ?_, ?_⟩
  · rcases mem_append.mp hr with hr | hr
    · exact hreads r hr e he
    · rw [mem_singleton.mp hr] at he
      exact herr e he
  · have hbuf : (s.readInto b n chunk err).buffer b = writeAt n chunk (s.buffer b) :=
      Upload.buffer_modify_self hb _
    calc (s.readInto b n chunk err).bytes = s.bytes ++ chunk := by
          simp [Upload.bytes, Upload.readInto]
      _ = cut.flatten ++ ((s.buffer b).take n ++ chunk) := by rw [hbytes, append_assoc]
      _ = _ := by rw [hbuf, take_writeAt hlen]

/-- **A `Read` returns**, and the loop holds the buffer or leaves it. -/
theorem readInto
    (hfits : n + chunk.length ≤ s.partSize) {p : Phase}
    (hheld : p.held = none ∨ p.held = some b)
    (hph : PhaseSound cut { s.readInto b n chunk err with phase := p } p) :
    Sound cut { s.readInto b n chunk err with phase := p } := by
  have howned : ({ s.readInto b n chunk err with phase := p } : Upload).owned.Sublist s.owned := by
    simp only [Upload.owned, hphase]
    rcases hheld with hheld | hheld
    · rw [hheld]
      exact sublist_append_right _ _
    · rw [hheld]
      exact .refl _
  exact { h with
    owned := h.owned.sublist howned
    allocated := fun b' hb' ↦ by
      simp only [Upload.readInto, length_modify]
      exact h.allocated b' (howned.subset hb')
    sizes := fun buf hbuf ↦ by
      obtain ⟨i, hi⟩ := mem_iff_getElem?.mp hbuf
      simp only [Upload.readInto, getElem?_modify] at hi
      obtain ⟨buf₀, hbuf₀, rfl⟩ := map_eq_some_iff.mp hi
      have hlen := h.sizes buf₀ (mem_of_getElem? hbuf₀)
      split
      · exact (length_writeAt (hlen.symm ▸ hfits)).trans hlen
      · exact hlen
    body := fun i w hw hdone ↦ by
      rw [h.body i w hw hdone, Upload.body, Upload.body]
      exact congrArg (fun buf ↦ some (List.take w.size buf))
        (Upload.buffer_modify_ne (h.buf_ne hphase hw hdone) _).symm
    phase := hph
    sent := h.unsent hphase rfl }

/-- A goroutine is started for the part in the buffer, which goes from the loop to it. -/
theorem spawn {p : Phase} (hheld : p.held = none)
    (hp : PhaseSound (cut ++ [(s.buffer b).take n]) s p) :
    Sound (cut ++ [(s.buffer b).take n])
      { s with phase := p, workers := s.workers ++ [⟨s.workers.length + 1, b, n, .lookup⟩] } := by
  have howned : ({ s with
      phase := p
      workers := s.workers ++ [⟨s.workers.length + 1, b, n, .lookup⟩] } : Upload).owned.Perm
      s.owned := by
    simp only [Upload.owned, hphase, hheld, filterMap_append, ← append_assoc]
    exact perm_append_comm
  have hadv : Advances s { s with
      phase := p
      workers := s.workers ++ [⟨s.workers.length + 1, b, n, .lookup⟩] } :=
    ⟨rfl, rfl, rfl, fun h ↦ h, fun _ h ↦ h⟩
  exact {
    owned := howned.nodup_iff.mpr h.owned
    allocated := fun b' hb' ↦ h.allocated b' (howned.mem_iff.mp hb')
    sizes := h.sizes
    count := by simp [h.count]
    num := fun i w hw ↦ by
      rcases getElem?_append_singleton hw with hw | ⟨rfl, rfl⟩
      · exact h.num i w hw
      · rfl
    body := fun i w hw hdone ↦ by
      rcases getElem?_append_singleton hw with hw | ⟨rfl, rfl⟩
      · have hpart := h.body i w hw hdone
        rw [List.getElem?_append_left (List.getElem?_eq_some_iff.mp hpart).1]
        exact hpart
      · rw [h.count, getElem?_concat_length]
        rfl
    settled := fun w hw ↦ by
      rcases mem_append.mp hw with hw | hw
      · exact h.settled w hw
      · rw [mem_singleton.mp hw]
        exact trivial
    sorted := h.sorted
    stored := h.stored.append _
    inFlight := h.inFlight.append _
    phase := hadv.phaseSound hp
    sent := h.unsent hphase rfl }

/-- **A part is cut**: it is full, or the archive has ended in it. -/
theorem partRead {last : Bool}
    (hlast : if last then s.reads.getLast?.map snd = some (some .eof) else n = s.partSize) :
    ∃ cut', Sound cut' (s.partRead b n last) := by
  obtain ⟨hn, hread⟩ := h.here hphase
  unfold Upload.partRead
  split
  · exact ⟨cut, h.leave rfl trivial (h.unsent hphase rfl)⟩
  have hlen : ((s.buffer b).take n).length = n := by
    rw [length_take, Upload.length_buffer (h.lt_heap hphase) h.sizes, Nat.min_eq_left hn]
  have hbytes : s.bytes = (cut ++ [(s.buffer b).take n]).flatten := by
    rw [hread.bytes, flatten_append, flatten_singleton]
  cases last with
  | false =>
    refine ⟨_, h.spawn hphase rfl ⟨hread.size, fun part hpart ↦ ?_, hread.reads,
      hbytes.trans (append_nil _).symm⟩⟩
    rcases mem_append.mp hpart with hpart | hpart
    · exact hread.full part hpart
    · rw [mem_singleton.mp hpart, hlen]
      exact hlast
  | true =>
    refine ⟨_, h.spawn hphase rfl (.inr ⟨hread.size, ?_, ?_, hread.reads, hlast, hbytes⟩)⟩
    · rw [dropLast_concat]
      exact hread.full
    · rw [getLast?_concat]
      rintro part ⟨⟩
      rw [hlen]
      exact hn

end

/-- What the end of an intact `io.ReadFull` tells about the error of the last `Read`. -/
def FilledSound (partSize n : Nat) (err : Option ReadError) : Option Filled → Prop
  | none => err = none
  | some .full => n = partSize ∧ ∀ e ∈ err, e = .eof
  | some .short => err = some .eof
  | some .nothing => err = some .eof ∧ n = 0
  | some (.error _) => True

theorem filledSound_readFull (hphase : s.phase = .read b n)
    (hok : Intact s (.main (.read chunk err))) (hfits : n + chunk.length ≤ s.partSize) :
    FilledSound s.partSize (n + chunk.length) err (readFull s.partSize (n + chunk.length) err) := by
  unfold readFull
  split
  · rename_i hfull
    refine ⟨Nat.le_antisymm hfits hfull, ?_⟩
    rintro e ⟨⟩
    cases e with
    | eof => rfl
    | unexpectedEOF => exact hok.elim
    | other _ =>
      rw [Intact, hphase] at hok
      exact absurd hok (Nat.not_lt.mpr hfull)
  · split
    · rfl
    · split
      · exact ⟨rfl, ‹_›⟩
      · rfl
    · exact hok.elim
    · exact trivial

/-- The archive is read on, a part is cut, or the loop ends. -/
theorem read (h : Sound cut s) (hphase : s.phase = .read b n)
    (hok : Intact s (.main (.read chunk err))) {s' : Upload} (hstep : s.read b n chunk err = some s') :
    ∃ cut', Sound cut' s' := by
  unfold Upload.read at hstep
  split at hstep
  · cases hstep
  rename_i hfits
  rw [Nat.not_lt] at hfits
  have hfilled := filledSound_readFull hphase hok hfits
  have heof : err = some .eof → ∀ e ∈ err, e = .eof := by
    rintro rfl e ⟨⟩
    rfl
  -- Where the loop goes on, no error has come but `io.EOF`.
  have hon (herr : ∀ e ∈ err, e = .eof) : Sound cut (s.readInto b n chunk err) :=
    h.readInto (p := .read b (n + chunk.length)) hphase hfits (.inr rfl)
      ⟨hfits, { h.reading_readInto hphase chunk herr with }⟩
  have hlast (herr : err = some .eof) :
      (s.readInto b n chunk err).reads.getLast?.map snd = some (some .eof) := by
    simp only [Upload.readInto, getLast?_concat, herr]
    rfl
  split at hstep
  · rename_i hfull
    rw [hfull] at hfilled
    cases hstep
    refine ⟨cut, hon fun e he ↦ ?_⟩
    rw [show err = none from hfilled] at he
    cases he
  · rename_i hfull
    rw [hfull] at hfilled
    cases hstep
    exact (hon hfilled.2).partRead rfl hfilled.1
  · rename_i hfull
    rw [hfull] at hfilled
    cases hstep
    exact (hon (heof hfilled)).partRead rfl (hlast hfilled)
  · rename_i hfull
    rw [hfull] at hfilled
    cases hstep
    have hread := h.reading_readInto hphase chunk (heof hfilled.1)
    refine ⟨cut, h.readInto hphase hfits (.inl rfl) (.inr ⟨hread.size, fun part hpart ↦ ?_,
      fun part hpart ↦ ?_, hread.reads, hlast hfilled.1, ?_⟩)⟩
    · exact hread.full part (dropLast_subset _ hpart)
    · exact (hread.full part (mem_of_getLast? hpart)).le
    · have hbytes := hread.bytes
      rw [hfilled.2, take_zero, append_nil] at hbytes
      exact hbytes
  · cases hstep
    exact ⟨cut, h.readInto hphase hfits (.inl rfl) trivial⟩

end Read

/-! ## The end of the loop -/

section

variable (h : Sound cut s)

include h

/-- All goroutines have returned without an error: their parts are stored. -/
theorem complete_of_done (hended : Ended cut s) (hdone : ∀ w ∈ s.workers, w.at' = .done)
    (hfirst : s.firstErr = none) (hworkers : s.workers ≠ []) : Complete cut s := by
  refine ⟨hended, fun hnil ↦ hworkers ?_, fun i hi ↦ ?_⟩
  · have hcount := h.count
    rw [hnil] at hcount
    exact length_eq_zero_iff.mp hcount
  obtain ⟨w, hw⟩ : ∃ w, s.workers[i]? = some w :=
    ⟨_, getElem?_eq_getElem (by rw [h.count]; exact hi)⟩
  have hmem := mem_of_getElem? hw
  have hsettled := h.settled w hmem
  rw [Settled, hdone w hmem] at hsettled
  rw [← h.num i w hw]
  exact hsettled.resolve_left fun hne ↦ hne hfirst

/-- `wg.Wait()` returns. -/
theorem waitAll (hphase : s.phase = .wait)
    (hstep : s.waitAll = some s') : Sound cut s' := by
  have hwait := h.here hphase
  revert hstep
  fun_cases Upload.waitAll s <;> rintro ⟨⟩
  · exact (h.leave (p := .finished _) rfl trivial fun _ ↦ rfl).cancel true s.callerDone
  · exact (h.leave (p := .finished _) rfl trivial fun _ ↦ rfl).cancel true s.callerDone
  · rename_i hdone hfirst hdata
    have hended := hwait.resolve_left fun hne ↦ hne hfirst
    exact (h.leave (p := .beforeComplete) rfl (h.complete_of_done hended hdone hfirst hdata)
      (h.unsent hphase rfl)).cancel true s.callerDone

/-- The request to complete the upload is sent. -/
theorem send {second : Bool} (hphase : s.phase = .complete second) :
    Sound cut { s with completeSent := true } := by
  have hcomplete := h.here hphase
  have hadv : Advances s { s with completeSent := true } := ⟨rfl, rfl, rfl, fun h ↦ h, fun _ h ↦ h⟩
  exact { h with
    body := h.body
    phase := hadv.phaseSound h.phase
    sent := fun _ ↦ ⟨by rw [hphase]; rfl, hadv.complete hcomplete⟩ }

/-- An attempt of `Request`. -/
theorem complete {second : Bool} (hphase : s.phase = .complete second) (a : Attempt) :
    Sound cut (s.complete second a) := by
  have hcomplete := h.here hphase
  have hretry {s : Upload} (h : Sound cut s) (hcomplete : Complete cut s) (err : String) :
      Sound cut (s.retryComplete second err) := by
    unfold Upload.retryComplete
    split
    · exact h.leave rfl trivial fun _ ↦ rfl
    · exact h.leave rfl hcomplete fun _ ↦ rfl
  have hsend := h.send hphase
  cases a with
  | noCore => exact h.leave rfl trivial fun _ ↦ rfl
  | unsent err => exact hretry h hcomplete err
  | unanswered err => exact hretry hsend (hsend.sent rfl).2 err
  | answered result =>
    cases result with
    | error err | ok size => exact hsend.leave (p := .finished _) rfl trivial fun _ ↦ rfl

/-- **`uploadMultipartPaced` moves.** -/
theorem main {a : MainStep} (hok : Intact s (.main a))
    (hstep : mainStep s s.phase a = some s') : ∃ cut', Sound cut' s' := by
  generalize hphase : s.phase = ph at hstep
  have hphaseSound := h.here hphase
  revert hstep
  fun_cases mainStep s ph a <;> intro hstep
  · cases hstep
    exact ⟨cut, h.openUpload hphase _⟩
  · exact ⟨cut, h.select hphase hstep⟩
  · cases hstep
    exact ⟨cut, h.checkContext hphase hok⟩
  · exact h.read hphase hok hstep
  · rename_i err
    cases hstep
    have hfirst : (s.fail err).firstErr ≠ none := some_ne_none _
    refine ⟨cut, ?_⟩
    split
    · exact (h.fail err).leave rfl hfirst (h.unsent hphase rfl)
    · exact (h.fail err).leave rfl (.inl hfirst) (h.unsent hphase rfl)
  · cases hstep
    exact ⟨cut, (h.leave (p := .wait) rfl (.inl hphaseSound) (h.unsent hphase rfl)).cancel true
      s.callerDone⟩
  · exact ⟨cut, h.waitAll hphase hstep⟩
  · rename_i refusal
    cases hstep
    refine ⟨cut, ?_⟩
    cases refusal with
    | some err => exact h.leave rfl trivial fun _ ↦ rfl
    | none => exact h.leave rfl hphaseSound fun _ ↦ rfl
  · cases hstep
    exact ⟨cut, h.complete hphase _⟩
  · cases hstep

/-- **A step keeps it.** -/
theorem step {a : Label} (hok : Intact s a)
    (hstep : s.step a = some s') : ∃ cut', Sound cut' s' := by
  cases a with
  | cancel =>
    cases hstep
    exact ⟨cut, h.cancel true true⟩
  | land n =>
    obtain ⟨p, hp, rfl⟩ := map_eq_some_iff.mp hstep
    exact ⟨cut, h.land (mem_of_getElem? hp)⟩
  | main a => exact h.main hok hstep
  | worker n a =>
    obtain ⟨w, hw, hstep⟩ := bind_eq_some_iff.mp hstep
    obtain ⟨⟨s₁, t'⟩, hput, rfl⟩ := map_eq_some_iff.mp hstep
    exact ⟨cut, h.worker hw (putStep_cases hput)⟩

end

end Sound

variable {s : Upload} {cut : List (List UInt8)}

/-- The parts in the storage, once all are stored. -/
theorem Sound.stored_eq (h : Sound cut s)
    (hc : Complete cut s) : s.stored.map fst = List.range' 1 s.stored.length ∧
      s.stored.map snd = cut := by
  have hkeys := Numbered.keys_eq h.sorted h.stored hc.stored
  have hlen : s.stored.length = cut.length := by simpa using congrArg List.length hkeys
  exact ⟨hlen ▸ hkeys, Numbered.values_eq h.sorted h.stored hc.stored⟩

theorem exists_complete (hreach : Reach Upload.step Intact .start s)
    (hsent : s.completeSent = true) : ∃ cut, Sound cut s ∧ Complete cut s := by
  obtain ⟨cut, h⟩ : ∃ cut, Sound cut s :=
    hreach.invariant (P := fun s ↦ ∃ cut, Sound cut s) ⟨_, sound_start⟩
      fun _ _ _ ⟨_, h⟩ hok hstep ↦ h.step hok hstep
  exact ⟨cut, h, (h.sent hsent).2⟩

/-- The stored parts have the sizes of the parts cut. -/
theorem Complete.sizes (hc : Complete cut s)
    (hvalues : s.stored.map snd = cut) : (∀ p ∈ s.stored.dropLast, p.2.length = s.partSize) ∧
      ∀ p ∈ s.stored.getLast?, p.2.length ≤ s.partSize := by
  subst hvalues
  refine ⟨fun p hp ↦ hc.ended.full p.2 ?_, fun p hp ↦ hc.ended.last p.2 ?_⟩
  · rw [← map_dropLast]
    exact mem_map_of_mem hp
  · rw [getLast?_map, hp]
    rfl

/-- **A cut-off archive is not completed.**  Once the request to complete the upload has been sent, the
archive has been read to its end without an error, and the stored parts, in the order of their numbers,
are its bytes, every part but the last being of the part size. -/
theorem completed_whole {s : Upload} (hreach : Reach Upload.step Intact .start s)
    (hsent : s.completeSent = true) :
    s.reads.getLast?.map snd = some (some .eof) ∧ (∀ r ∈ s.reads, ∀ err ∈ r.2, err = .eof) ∧
      s.stored.map fst = List.range' 1 s.stored.length ∧
      (s.stored.map snd).flatten = (s.reads.map fst).flatten ∧
      (∀ p ∈ s.stored.dropLast, p.2.length = s.partSize) ∧
      ∀ p ∈ s.stored.getLast?, p.2.length ≤ s.partSize := by
  obtain ⟨cut, h, hc⟩ := exists_complete hreach hsent
  obtain ⟨hkeys, hvalues⟩ := h.stored_eq hc
  obtain ⟨hfull, hlast⟩ := hc.sizes hvalues
  refine ⟨hc.ended.eof, hc.ended.reads, hkeys, ?_, hfull, hlast⟩
  rw [hvalues]
  exact hc.ended.bytes.symm

instance (s : Upload) : DecidablePred (Intact s) := fun a ↦ by
  unfold Intact
  split <;> infer_instance

/-- Three bytes in parts of two.  The first `PUT` of the first part fails and arrives in the end. -/
def retried : List Label :=
  [.main (.openUpload (.ok (2, [1]))), .main (.select false), .main .check, .main (.read [1] none),
    .main (.read [2] none), .worker 0 .lookup, .worker 0 (.put .failed "put: timeout"),
    .main (.select false), .main .check, .main (.read [3] none), .main (.read [] (some .eof)),
    .worker 0 .check, .worker 0 (.backoff false), .worker 0 (.request (.ok (2, [1]))),
    .worker 0 (.put .ok ""), .worker 0 .release, .worker 1 .lookup,
    .worker 1 (.request (.ok (2, [2, 3]))), .worker 1 (.put .ok ""), .worker 1 .release, .main .wait,
    .main (.beforeComplete none), .main (.complete (.answered (.ok 3))), .land 0]

theorem completed_whole_retried :
    ∃ s : Upload, s.completeSent = true ∧ s.stored = [(1, [1, 2]), (2, [3])] ∧
      (s.stored.map snd).flatten = (s.reads.map fst).flatten := by
  have hrun : (exec Upload.step Intact .start retried).map
      (fun s ↦ (s.completeSent, s.stored)) = some (true, [(1, [1, 2]), (2, [3])]) := rfl
  obtain ⟨s, hreach, hview⟩ := exists_reach_of_exec hrun
  obtain ⟨hsent, hstored⟩ := mk.inj hview
  exact ⟨s, hsent, hstored, (completed_whole hreach hsent).2.2.2.1⟩

/-- **The caller's context is cancelled between two parts.**  The first part is stored, the loop leaves
without an error, and the upload is completed: two bytes of an archive that has not ended. -/
theorem not_whole_cancelled :
    ∃ s : Upload, Reach Upload.step anyStep .start s ∧ s.completeSent = true ∧
      s.stored = [(1, [1, 2])] ∧ s.reads = [([1, 2], none)] :=
  exists_reach_of_any [.main (.openUpload (.ok (2, [1]))), .main (.select false), .main .check,
        .main (.read [1, 2] none), .worker 0 .lookup, .worker 0 (.put .ok ""), .worker 0 .release,
        .cancel, .main (.select true), .main .check, .main .wait,
        .main (.beforeComplete none), .main (.complete (.unanswered "context canceled"))]
    (by decide +kernel)

/-! ## Memory, and who can go on -/

/-- The buffer that the loop has received.  Behind a `select` that found the context done there is none. -/
def Upload.taken (s : Upload) : Option (Option Nat) :=
  match s.phase with
  | .check buf => if s.ctxDone then none else some buf
  | .read b _ => some (some b)
  | _ => none

/-- The goroutines that have not put their buffer back. -/
def Upload.active (s : Upload) : Nat := (s.workers.filterMap Worker.held).length

/-- The loop will receive from the channel again. -/
def Upload.looping (s : Upload) : Bool :=
  match s.phase with
  | .open | .head | .read _ _ => true
  | .check _ => !s.ctxDone
  | _ => false

/-- Every buffer is on the channel, with the loop, with a goroutine, or given up with the loop; and those
not yet allocated are counted. -/
structure Bounded (s : Upload) : Prop where
  tokens : s.bufs.length + s.taken.toList.length + s.active ≤ maxBufferedParts
  looping : s.looping = true → maxBufferedParts ≤ s.bufs.length + s.taken.toList.length + s.active
  heap : s.heap.length + (s.taken.toList ++ s.bufs).count none ≤ maxBufferedParts
  filled : s.phase.filled ≤ s.partSize

theorem bounded_start : Bounded .start := by
  constructor <;> decide

section Step

variable {s s' : Upload} (h : Bounded s)

include h

/-- The buffers stay where they are, or the loop gives up its own and asks for no other. -/
theorem Bounded.go (htaken : s'.taken = none ∨ s'.taken = s.taken)
    (hloop : s'.looping = true → s.looping = true ∧ s'.taken = s.taken) (hbufs : s'.bufs = s.bufs)
    (hactive : s'.active = s.active) (hheap : s'.heap.length = s.heap.length)
    (hfilled : s'.phase.filled ≤ s'.partSize) : Bounded s' where
  tokens := by
    have := h.tokens
    rcases htaken with htaken | htaken <;> simp only [hbufs, hactive, htaken, toList_none, length_nil] <;>
      omega
  looping hs' := by
    obtain ⟨hs, htaken⟩ := hloop hs'
    rw [hbufs, hactive, htaken]
    exact h.looping hs
  heap := by
    have := h.heap
    rw [count_append] at this ⊢
    rcases htaken with htaken | htaken <;> simp only [hbufs, hheap, htaken, toList_none, count_nil] <;>
      omega
  filled := hfilled

theorem Bounded.leave (htaken : s'.taken = none) (hloop : s'.looping = false) (hbufs : s'.bufs = s.bufs)
    (hactive : s'.active = s.active) (hheap : s'.heap.length = s.heap.length)
    (hfilled : s'.phase.filled = 0) : Bounded s' :=
  h.go (.inl htaken) (by simp [hloop]) hbufs hactive hheap (hfilled ▸ Nat.zero_le _)

theorem Bounded.partRead {b n : Nat} (last : Bool) (hphase : s.phase = .read b n) :
    Bounded (s.partRead b n last) := by
  have htokens := h.tokens
  have hlooping := h.looping
  have hheap := h.heap
  unfold Upload.partRead
  split
  · exact h.leave rfl rfl rfl rfl rfl rfl
  · cases last <;> constructor <;>
      simp_all [Upload.taken, Upload.active, Upload.looping, Worker.held, Phase.filled] <;> omega

theorem Bounded.select {stopped : Bool} (hphase : s.phase = .head)
    (hstep : s.select stopped = some s') : Bounded s' := by
  have htokens := h.tokens
  have hlooping := h.looping
  have hheap := h.heap
  revert hstep
  fun_cases Upload.select s stopped <;> rintro ⟨⟩
  · exact h.leave (by simp_all [Upload.taken]) (by simp_all [Upload.looping]) rfl rfl rfl rfl
  · rename_i buf bufs hbufs
    cases hdone : s.ctxDone <;> cases buf <;> constructor <;>
      simp_all [Upload.taken, Upload.active, Upload.looping, Phase.filled] <;> omega

theorem Bounded.read {b n : Nat} {chunk : List UInt8} {err : Option ReadError}
    (hphase : s.phase = .read b n) (hstep : s.read b n chunk err = some s') : Bounded s' := by
  have hread (hle : ¬ s.partSize < n + chunk.length) : Bounded (s.readInto b n chunk err) :=
    h.go (.inr (by simp [Upload.taken, hphase, Upload.readInto]))
      (fun _ ↦ by simp [Upload.taken, Upload.looping, hphase, Upload.readInto]) rfl rfl (length_modify ..)
      (Nat.le_of_not_lt hle)
  unfold Upload.read at hstep
  split at hstep
  · cases hstep
  rename_i hle
  dsimp only at hstep
  split at hstep <;> cases hstep
  · exact hread hle
  · exact (hread hle).partRead _ rfl
  · exact (hread hle).partRead _ rfl
  · exact h.leave rfl rfl rfl rfl (length_modify ..) rfl
  · exact h.leave rfl rfl rfl rfl (length_modify ..) rfl

theorem Bounded.main {a : MainStep} (hstep : mainStep s s.phase a = some s') : Bounded s' := by
  generalize hphase : s.phase = ph at hstep
  revert hstep
  fun_cases mainStep s ph a <;> intro hstep
  · rename_i answer
    cases hstep
    fun_cases Upload.openUpload s answer
    · exact h.leave rfl rfl rfl rfl rfl rfl
    · exact h.leave rfl rfl rfl rfl rfl rfl
    · refine h.go (.inl rfl) (fun _ ↦ ?_) rfl rfl rfl (Nat.zero_le _)
      simp [Upload.taken, Upload.looping, hphase]
  · exact h.select hphase hstep
  · rename_i buf
    cases hstep
    have htokens := h.tokens
    have hlooping := h.looping
    have hheap := h.heap
    fun_cases Upload.checkContext s buf
    · exact h.leave rfl rfl rfl rfl rfl rfl
    all_goals
      constructor <;> simp_all [Upload.taken, Upload.active, Upload.looping, Phase.filled] <;> omega
  · exact h.read hphase hstep
  · cases hstep
    split <;> exact h.leave rfl rfl rfl rfl rfl rfl
  · cases hstep
    exact h.leave rfl rfl rfl rfl rfl rfl
  · revert hstep
    fun_cases Upload.waitAll s <;> rintro ⟨⟩ <;> exact h.leave rfl rfl rfl rfl rfl rfl
  · rename_i refusal
    cases hstep
    cases refusal <;> exact h.leave rfl rfl rfl rfl rfl rfl
  · rename_i second a
    cases hstep
    cases a with
    | noCore => exact h.leave rfl rfl rfl rfl rfl rfl
    | unsent err | unanswered err =>
      rw [Upload.complete, Upload.retryComplete]
      split <;> exact h.leave rfl rfl rfl rfl rfl rfl
    | answered answer => cases answer <;> exact h.leave rfl rfl rfl rfl rfl rfl
  · cases hstep

theorem Bounded.cancel (callerDone : Bool) :
    Bounded { s with ctxDone := true, callerDone := callerDone } := by
  refine h.go ?_ ?_ rfl rfl rfl h.filled <;> cases hphase : s.phase <;>
    simp [Upload.taken, Upload.looping, hphase]

theorem Bounded.worker {n : Nat} {w : Worker} {t' : Putting} (hw : s.workers[n]? = some w)
    (hmove : PutMove s w w.at' s' t') :
    Bounded { s' with workers := s.workers.set n { w with at' := t' } } := by
  obtain ⟨l, r, hl, hr⟩ := held_set hw { w with at' := t' }
  rw [Worker.held_eq hmove.ne_done] at hl
  by_cases hdone : t' = .done
  · subst hdone
    generalize w.at' = t at hmove
    cases hmove with
    | go _ _ ht' => cases ht'
    | store _ ht' | fail _ ht' => rcases ht' with ht' | ht' <;> cases ht'
    | release =>
      have htokens := h.tokens
      have hlooping := h.looping
      have hheap := h.heap
      simp only [Upload.active, hl, length_append] at htokens hlooping
      simp only [count_append] at hheap
      refine ⟨?_, fun hs ↦ ?_, ?_, h.filled⟩
      · simp only [Upload.active, hr, length_append]
        simp_all [Upload.taken, Worker.held]
        omega
      · have := hlooping hs
        simp_all [Upload.active, Upload.taken, Worker.held]
        omega
      · simp_all [Upload.taken]
  · have hactive : ({ s' with workers := s.workers.set n { w with at' := t' } } : Upload).active =
        s.active := by
      simp [Upload.active, hl, hr, Worker.held_eq (w := { w with at' := t' }) hdone]
    generalize w.at' = t at hmove
    cases hmove with
    | go _ _ _ | store _ _ | delay _ _ | fail _ _ =>
      exact h.go (.inr rfl) (fun hs ↦ ⟨hs, rfl⟩) rfl hactive rfl h.filled
    | cancel =>
      exact (h.cancel s.callerDone).go (.inr rfl) (fun hs ↦ ⟨hs, rfl⟩) rfl hactive rfl h.filled
    | release => exact absurd rfl hdone

theorem Bounded.step {a : Label} (hstep : s.step a = some s') : Bounded s' := by
  cases a with
  | cancel =>
    cases hstep
    exact h.cancel true
  | land n =>
    obtain ⟨p, -, rfl⟩ := map_eq_some_iff.mp hstep
    exact h.go (.inr rfl) (fun hs ↦ ⟨hs, rfl⟩) rfl rfl rfl h.filled
  | main a => exact h.main hstep
  | worker n a =>
    obtain ⟨w, hw, hstep⟩ := bind_eq_some_iff.mp hstep
    obtain ⟨⟨s₁, t'⟩, hput, rfl⟩ := map_eq_some_iff.mp hstep
    exact h.worker hw (putStep_cases hput)

omit h in
/-- A goroutine that has not put its buffer back has a step. -/
theorem exists_worker_step {w : Worker} (hw : w ∈ s.workers) (hdone : w.at' ≠ .done) :
    ∃ n a, (s.step (.worker n a)).isSome = true := by
  obtain ⟨n, hn⟩ := mem_iff_getElem?.mp hw
  have hput : ∃ a, (putStep s w w.at' a).isSome = true := by
    cases hat : w.at' with
    | lookup =>
      refine ⟨.lookup, ?_⟩
      rw [putStep]
      split <;> rfl
    | request attempt batch => exact ⟨.request (.error ""), rfl⟩
    | put attempt => exact ⟨.put .ok "", rfl⟩
    | check attempt err =>
      refine ⟨.check, ?_⟩
      rw [putStep]
      split
      · rfl
      · split <;> rfl
    | backoff attempt => exact ⟨.backoff false, rfl⟩
    | fail err => exact ⟨.fail, rfl⟩
    | cancel => exact ⟨.cancel, rfl⟩
    | release => exact ⟨.release, rfl⟩
    | done => exact absurd hat hdone
  obtain ⟨a, ha⟩ := hput
  exact ⟨n, a, by simpa [Upload.step, hn] using ha⟩

/-- Someone can go on: at an empty channel and at `wg.Wait()` a goroutine that has a buffer. -/
theorem Bounded.progress (hphase : ∀ r, s.phase ≠ .finished r) :
    (∃ a, (s.step (.main a)).isSome = true) ∨ ∃ n a, (s.step (.worker n a)).isSome = true := by
  have hmain {ph : Phase} (hs : s.phase = ph) {a : MainStep} (ha : (mainStep s ph a).isSome = true) :
      ∃ a, (s.step (.main a)).isSome = true := ⟨a, by rwa [Upload.step, hs]⟩
  cases hs : s.phase with
  | «open» => exact .inl (hmain hs (a := .openUpload (.error "")) rfl)
  | head =>
    cases hbufs : s.bufs with
    | cons buf bufs => exact .inl (hmain hs (a := .select false) (by simp [mainStep, Upload.select, hbufs]))
    | nil =>
      have hactive := h.looping (by simp [Upload.looping, hs])
      simp only [hbufs, Upload.taken, hs, toList_none, length_nil, Nat.zero_add] at hactive
      have hpos : 0 < maxBufferedParts := by decide
      obtain ⟨b, hb⟩ := exists_mem_of_length_pos (hpos.trans_le hactive)
      obtain ⟨w, hw, hheld⟩ := mem_filterMap.mp hb
      exact .inr (exists_worker_step hw fun hdone ↦ by simp [Worker.held, hdone] at hheld)
  | check buf => exact .inl (hmain hs (a := .check) rfl)
  | read b n =>
    have hfilled : n ≤ s.partSize := by simpa [hs, Phase.filled] using h.filled
    refine .inl (hmain hs (a := .read [] (some .eof)) ?_)
    simp only [mainStep, Upload.read, length_nil, Nat.add_zero, if_neg (Nat.not_lt.mpr hfilled)]
    split <;> rfl
  | fail err => exact .inl (hmain hs (a := .fail) rfl)
  | cancel => exact .inl (hmain hs (a := .cancel) rfl)
  | wait =>
    by_cases hdone : ∀ w ∈ s.workers, w.at' = .done
    · refine .inl (hmain hs (a := .wait) ?_)
      rw [mainStep, Upload.waitAll, if_pos hdone]
      repeat' split
      all_goals rfl
    · push Not at hdone
      obtain ⟨w, hw, hdone⟩ := hdone
      exact .inr (exists_worker_step hw hdone)
  | beforeComplete => exact .inl (hmain hs (a := .beforeComplete none) rfl)
  | complete second => exact .inl (hmain hs (a := .complete .noCore) rfl)
  | finished r => exact absurd hs (hphase r)

end Step

/-- **At most two parts are in memory, and the upload never hangs.**  In every run, whatever the storage, the
archive and Core answer, no more than `maxBufferedParts` buffers are ever allocated, no more goroutines
than that are uploading, a buffer that is put back finds room on the channel, and until the upload has a
result the loop or a goroutine can go on. -/
theorem upload_bounded (h : Reach Upload.step anyStep .start s) :
    s.heap.length ≤ maxBufferedParts ∧ s.bufs.length + s.active ≤ maxBufferedParts ∧
      ((∀ r, s.phase ≠ .finished r) →
        (∃ a, (s.step (.main a)).isSome = true) ∨ ∃ n a, (s.step (.worker n a)).isSome = true) := by
  have hb : Bounded s := h.invariant bounded_start fun _ _ _ hb _ hstep ↦ hb.step hstep
  have htokens := hb.tokens
  exact ⟨(Nat.le_add_right ..).trans hb.heap, by omega, hb.progress⟩

/-- Two parts are being uploaded, and the loop waits for a buffer. -/
theorem upload_bounded_full : ∃ s : Upload, s.bufs = [] ∧ s.active = 2 ∧
    ((∃ a, (s.step (.main a)).isSome = true) ∨ ∃ n a, (s.step (.worker n a)).isSome = true) := by
  have hexec : (exec Upload.step anyStep .start
      [.main (.openUpload (.ok (2, [1]))), .main (.select false), .main .check, .main (.read [1, 2] none),
        .main (.select false), .main .check, .main (.read [3, 4] none)]).map
      (fun s ↦ (s.bufs, s.active, s.looping)) = some ([], 2, true) := by
    decide +kernel
  obtain ⟨s, hs, hrun⟩ := exists_reach_of_exec hexec
  simp only [Prod.mk.injEq] at hrun
  obtain ⟨hbufs, hactive, hloop⟩ := hrun
  exact ⟨s, hbufs, hactive, (upload_bounded hs).2.2 fun r hr ↦ by simp [Upload.looping, hr] at hloop⟩

end Dylaris.Transfer
