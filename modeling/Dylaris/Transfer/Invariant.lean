import Mathlib.Data.List.ReduceOption
import Dylaris.Transfer.Steps

/-!
# The parts of an upload

The invariant of the upload is about the parts that the loop has cut so far, `cut`.  `Sound cut s` says
that what is stored, or may still arrive, under a number is the part of that number; that every
goroutine has the bytes of its part in its buffer until it puts the buffer back; and where the loop is,
how the parts compare with what the archive's reader has returned (`PhaseSound`).

The bytes in a goroutine's buffer stay, because a buffer belongs to one goroutine, to the loop or to the
channel: `Upload.owned` lists the buffers by owner, and none is listed twice.

The steps that read nothing keep the invariant by `Sound.of_advances`; the goroutines' are among them
(`Sound.worker`).
-/

set_option autoImplicit false

namespace Dylaris.Transfer

open List Option Prod

/-! ## The parts cut so far -/

/-- The bytes that the archive's reader has returned. -/
def Upload.bytes (s : Upload) : List UInt8 := (s.reads.map fst).flatten

/-- The loop goes on: the parts cut so far are full, and `rest` is what has been read of the next. -/
structure Reading (cut : List (List UInt8)) (rest : List UInt8) (s : Upload) : Prop where
  size : (s.partSize : Int) ≤ maxNodePartSize
  full : ∀ part ∈ cut, part.length = s.partSize
  reads : ∀ r ∈ s.reads, ∀ err ∈ r.2, err = .eof
  bytes : s.bytes = cut.flatten ++ rest

/-- The reader has been read to its end, and the parts are its bytes. -/
structure Ended (cut : List (List UInt8)) (s : Upload) : Prop where
  size : (s.partSize : Int) ≤ maxNodePartSize
  full : ∀ part ∈ cut.dropLast, part.length = s.partSize
  last : ∀ part ∈ cut.getLast?, part.length ≤ s.partSize
  reads : ∀ r ∈ s.reads, ∀ err ∈ r.2, err = .eof
  eof : s.reads.getLast?.map snd = some (some .eof)
  bytes : s.bytes = cut.flatten

/-- And there are parts, and all of them are stored. -/
structure Complete (cut : List (List UInt8)) (s : Upload) : Prop where
  ended : Ended cut s
  ne_nil : cut ≠ []
  stored : ∀ i < cut.length, i + 1 ∈ s.stored.map fst

/-- What is known where `uploadMultipartPaced` is. -/
def PhaseSound (cut : List (List UInt8)) (s : Upload) : Phase → Prop
  | .open => s.heap = [] ∧ s.reads = [] ∧ cut = []
  | .head | .check _ => Reading cut [] s
  | .read b n => n ≤ s.partSize ∧ Reading cut ((s.buffer b).take n) s
  | .fail _ => True
  | .cancel => s.firstErr ≠ none
  | .wait => s.firstErr ≠ none ∨ Ended cut s
  | .beforeComplete | .complete _ => Complete cut s
  | .finished _ => True

/-- The request to complete the upload may have been sent. -/
def Phase.asked : Phase → Bool
  | .complete _ | .finished _ => true
  | _ => false

/-- Who has passed the point where a goroutine reports has an error recorded or the part stored. -/
def Settled (s : Upload) (w : Worker) : Prop :=
  match w.at' with
  | .cancel => s.firstErr ≠ none
  | .release | .done => s.firstErr ≠ none ∨ w.num ∈ s.stored.map fst
  | _ => True

/-! ## Buffers and their owners -/

/-- The buffer that the loop works on. -/
def Phase.held : Phase → Option Nat
  | .check buf => buf
  | .read b _ => some b
  | _ => none

/-- The buffer that a goroutine has not put back. -/
def Worker.held (w : Worker) : Option Nat := if w.at' = .done then none else some w.buf

/-- The buffers in use or on the channel. -/
def Upload.owned (s : Upload) : List Nat :=
  s.phase.held.toList ++ (s.bufs.reduceOption ++ s.workers.filterMap Worker.held)

/-- The upload, of which `cut` are the parts cut so far. -/
structure Sound (cut : List (List UInt8)) (s : Upload) : Prop where
  owned : s.owned.Nodup
  allocated : ∀ b ∈ s.owned, b < s.heap.length
  sizes : ∀ buf ∈ s.heap, buf.length = s.partSize
  count : s.workers.length = cut.length
  num : ∀ (i : Nat) (w : Worker), s.workers[i]? = some w → w.num = i + 1
  body : ∀ (i : Nat) (w : Worker), s.workers[i]? = some w → w.at' ≠ .done → cut[i]? = some (s.body w)
  settled : ∀ w ∈ s.workers, Settled s w
  sorted : Numbered.Sorted s.stored
  stored : Numbered.Of cut s.stored
  inFlight : Numbered.Of cut s.inFlight
  phase : PhaseSound cut s s.phase
  sent : s.completeSent = true → s.phase.asked = true ∧ Complete cut s

theorem sound_start : Sound [] .start where
  owned := List.nodup_nil
  allocated _ hb := by cases hb
  sizes _ hb := by cases hb
  count := rfl
  num _ _ h := by cases h
  body _ _ h := by cases h
  settled _ h := by cases h
  sorted := List.Pairwise.nil
  stored _ h := by cases h
  inFlight _ h := by cases h
  phase := ⟨rfl, rfl, rfl⟩
  sent h := by cases h

/-! ## Steps that leave the archive alone -/

/-- From `s` to `s'` nothing is read, an error stays recorded, and a part stays stored. -/
structure Advances (s s' : Upload) : Prop where
  partSize : s'.partSize = s.partSize
  heap : s'.heap = s.heap
  reads : s'.reads = s.reads
  firstErr : s.firstErr ≠ none → s'.firstErr ≠ none
  stored : ∀ k ∈ s.stored.map fst, k ∈ s'.stored.map fst

namespace Advances

variable {cut : List (List UInt8)} {s s' : Upload}

section

variable (h : Advances s s')

include h

theorem bytes : s'.bytes = s.bytes := by rw [Upload.bytes, h.reads, Upload.bytes]

theorem buffer (b : Nat) : s'.buffer b = s.buffer b := by
  rw [Upload.buffer, h.heap, Upload.buffer]

theorem reading {rest : List UInt8} (hr : Reading cut rest s) :
    Reading cut rest s' where
  size := h.partSize ▸ hr.size
  full := h.partSize ▸ hr.full
  reads := h.reads ▸ hr.reads
  bytes := h.bytes.trans hr.bytes

theorem ended (he : Ended cut s) : Ended cut s' where
  size := h.partSize ▸ he.size
  full := h.partSize ▸ he.full
  last := h.partSize ▸ he.last
  reads := h.reads ▸ he.reads
  eof := h.reads ▸ he.eof
  bytes := h.bytes.trans he.bytes

theorem complete (hc : Complete cut s) : Complete cut s' :=
  ⟨h.ended hc.ended, hc.ne_nil, fun i hi ↦ h.stored _ (hc.stored i hi)⟩

theorem settled {w : Worker} (hw : Settled s w) : Settled s' w := by
  unfold Settled at hw ⊢
  split
  · rename_i hat
    rw [hat] at hw
    exact h.firstErr hw
  · rename_i hat
    rw [hat] at hw
    exact hw.imp h.firstErr (h.stored _)
  · rename_i hat
    rw [hat] at hw
    exact hw.imp h.firstErr (h.stored _)
  · exact trivial

theorem phaseSound {ph : Phase} (hp : PhaseSound cut s ph) :
    PhaseSound cut s' ph := by
  cases ph with
  | «open» => exact ⟨h.heap ▸ hp.1, h.reads ▸ hp.2.1, hp.2.2⟩
  | head | check _ => exact h.reading hp
  | read b n => exact ⟨h.partSize ▸ hp.1, h.buffer b ▸ h.reading hp.2⟩
  | fail _ | finished _ => exact trivial
  | cancel => exact h.firstErr hp
  | wait => exact hp.imp h.firstErr h.ended
  | beforeComplete | complete _ => exact h.complete hp

end

end Advances

/-- A step that leaves the archive alone, and every goroutine with its part. -/
theorem Sound.of_advances {cut : List (List UInt8)} {s s' : Upload} (h : Sound cut s)
    (hadv : Advances s s') (howned : s'.owned.Perm s.owned) (hphase : s'.phase = s.phase)
    (hsent : s'.completeSent = s.completeSent) (hcount : s'.workers.length = s.workers.length)
    (hworkers : ∀ (i : Nat) (v : Worker), s'.workers[i]? = some v → Settled s' v ∧
      ∃ v₀, s.workers[i]? = some v₀ ∧ v.num = v₀.num ∧ v.buf = v₀.buf ∧ v.size = v₀.size ∧
        (v.at' ≠ .done → v₀.at' ≠ .done))
    (hsorted : Numbered.Sorted s'.stored) (hstored : Numbered.Of cut s'.stored)
    (hflight : Numbered.Of cut s'.inFlight) : Sound cut s' where
  owned := howned.nodup_iff.mpr h.owned
  allocated b hb := by
    rw [hadv.heap]
    exact h.allocated b (howned.mem_iff.mp hb)
  sizes := by
    rw [hadv.heap, hadv.partSize]
    exact h.sizes
  count := hcount.trans h.count
  num i v hv := by
    obtain ⟨-, v₀, hv₀, hnum, -⟩ := hworkers i v hv
    rw [hnum, h.num i v₀ hv₀]
  body i v hv hdone := by
    obtain ⟨-, v₀, hv₀, -, hbuf, hsize, hdone₀⟩ := hworkers i v hv
    rw [h.body i v₀ hv₀ (hdone₀ hdone), Upload.body, Upload.body, hadv.buffer, hbuf, hsize]
  settled v hv := by
    obtain ⟨i, hi⟩ := mem_iff_getElem?.mp hv
    exact (hworkers i v hi).1
  sorted := hsorted
  stored := hstored
  inFlight := hflight
  phase := by
    rw [hphase]
    exact hadv.phaseSound h.phase
  sent hs := by
    obtain ⟨hasked, hcomplete⟩ := h.sent (hsent.symm.trans hs)
    exact ⟨hphase ▸ hasked, hadv.complete hcomplete⟩

/-! ## The goroutines -/

section Goroutines

variable {cut : List (List UInt8)} {s s' : Upload} {w : Worker} {t' : Putting} {n : Nat}

theorem PutMove.advances (h : PutMove s w w.at' s' t') : Advances s s' := by
  generalize w.at' = t at h
  cases h with
  | go _ _ _ | delay _ _ | cancel | release => exact ⟨rfl, rfl, rfl, fun h ↦ h, fun _ h ↦ h⟩
  | store _ _ => exact ⟨rfl, rfl, rfl, fun h ↦ h, fun _ hk ↦ Numbered.key_mem_insert _ _ hk⟩
  | fail _ _ => exact ⟨rfl, rfl, rfl, fun _ ↦ some_ne_none _, fun _ h ↦ h⟩

/-- The buffers held by goroutines when one of them moves. -/
theorem held_set {workers : List Worker} (hw : workers[n]? = some w) (w' : Worker) :
    ∃ l r, workers.filterMap Worker.held = l ++ w.held.toList ++ r ∧
      (workers.set n w').filterMap Worker.held = l ++ w'.held.toList ++ r := by
  induction workers generalizing n with
  | nil => cases hw
  | cons v workers ih =>
    cases n with
    | zero =>
      cases hw
      refine ⟨[], workers.filterMap Worker.held, ?_, ?_⟩
      · rw [filterMap_cons]
        cases w.held <;> rfl
      · rw [set_cons_zero, filterMap_cons]
        cases w'.held <;> rfl
    | succ n =>
      obtain ⟨l, r, hl, hr⟩ := ih hw
      refine ⟨v.held.toList ++ l, r, ?_, ?_⟩
      · rw [filterMap_cons, hl]
        cases v.held <;> rfl
      · rw [set_cons_succ, filterMap_cons, hr]
        cases v.held <;> rfl

theorem Worker.held_eq (h : w.at' ≠ .done) : w.held = some w.buf := if_neg h

/-- A goroutine gives its buffer to nobody but the channel. -/
theorem PutMove.owned (h : PutMove s w w.at' s' t') (hw : s.workers[n]? = some w) :
    ({ s' with workers := s.workers.set n { w with at' := t' } } : Upload).owned.Perm s.owned := by
  obtain ⟨l, r, hl, hr⟩ := held_set hw { w with at' := t' }
  have hheld := Worker.held_eq h.ne_done
  rw [hheld] at hl
  simp only [Upload.owned, hl, hr]
  by_cases hdone : t' = .done
  · subst hdone
    generalize w.at' = t at h
    cases h with
    | go _ _ ht' => cases ht'
    | store _ ht' => rcases ht' with ht' | ht' <;> cases ht'
    | fail _ ht' => rcases ht' with ht' | ht' <;> cases ht'
    | release =>
      refine List.Perm.append_left _ ?_
      rw [reduceOption_append, append_assoc]
      refine List.Perm.append_left _ ?_
      simpa [Worker.held, List.reduceOption] using perm_middle.symm
  · rw [Worker.held_eq (w := { w with at' := t' }) hdone]
    have hsame : s'.phase = s.phase ∧ s'.bufs = s.bufs := by
      generalize w.at' = t at h
      cases h with
      | go _ _ _ | delay _ _ | cancel | store _ _ | fail _ _ => exact ⟨rfl, rfl⟩
      | release => exact absurd rfl hdone
    rw [hsame.1, hsame.2]

/-- Where a goroutine arrives. -/
theorem PutMove.settled (h : PutMove s w w.at' s' t') (hw : Settled s w) :
    Settled s' { w with at' := t' } := by
  unfold Settled at hw ⊢
  generalize w.at' = t at h hw
  cases h with
  | go _ _ ht' => cases t' <;> first | exact trivial | cases ht'
  | store _ ht' =>
    rcases ht' with rfl | ht'
    · exact .inr (Numbered.key_mem_insert_self _ _ _)
    · cases t' <;> first | exact trivial | cases ht'
  | delay _ _ => exact trivial
  | fail _ ht' =>
    rcases ht' with rfl | rfl
    · exact some_ne_none _
    · exact .inl (some_ne_none _)
  | cancel => exact .inl hw
  | release => exact hw

/-- What a goroutine sends is the part of its number. -/
theorem Sound.stored_worker (h : Sound cut s) (hw : s.workers[n]? = some w)
    (hmove : PutMove s w w.at' s' t') :
    Numbered.Sorted s'.stored ∧ Numbered.Of cut s'.stored ∧ Numbered.Of cut s'.inFlight := by
  have hbody := h.body n w hw hmove.ne_done
  have hnum := h.num n w hw
  generalize w.at' = t at hmove
  cases hmove with
  | go _ _ _ | fail _ _ | cancel | release => exact ⟨h.sorted, h.stored, h.inFlight⟩
  | store _ _ =>
    refine ⟨h.sorted.insert _ _, ?_, h.inFlight⟩
    rw [hnum]
    exact h.stored.insert hbody
  | delay _ _ =>
    refine ⟨h.sorted, h.stored, fun p hp ↦ ?_⟩
    rcases mem_append.mp hp with hp | hp
    · exact h.inFlight p hp
    · rw [mem_singleton.mp hp]
      exact ⟨n, hnum, hbody⟩

/-- **A goroutine moves.** -/
theorem Sound.worker (h : Sound cut s) (hw : s.workers[n]? = some w)
    (hmove : PutMove s w w.at' s' t') :
    Sound cut { s' with workers := s.workers.set n { w with at' := t' } } := by
  obtain ⟨hsorted, hstored, hflight⟩ := h.stored_worker hw hmove
  have hsame : s'.phase = s.phase ∧ s'.completeSent = s.completeSent := by
    generalize w.at' = t at hmove
    cases hmove with
    | go _ _ _ | delay _ _ | cancel | store _ _ | fail _ _ | release => exact ⟨rfl, rfl⟩
  refine h.of_advances { hmove.advances with } (hmove.owned hw) hsame.1 hsame.2 length_set ?_ hsorted
    hstored hflight
  intro i v hv
  rw [getElem?_set] at hv
  split at hv
  · rename_i hni
    subst hni
    split at hv
    · cases hv
      exact ⟨hmove.settled (h.settled w (mem_of_getElem? hw)), w, hw, rfl, rfl, rfl,
        fun _ ↦ hmove.ne_done⟩
    · cases hv
  · exact ⟨hmove.advances.settled (h.settled v (mem_of_getElem? hv)), v, hv, rfl, rfl, rfl,
      fun h ↦ h⟩

end Goroutines

end Dylaris.Transfer
