import Dylaris.Transfer.Model

/-!
# What a step of the upload can do

The effects of a goroutine's step on the upload are few, whatever the reason for it: `PutMove` lists
them, and `putStep_cases` is the one case analysis.  The rest is about the buffers: what a `Read` leaves
in the buffer it fills and in the others.
-/

set_option autoImplicit false

namespace Dylaris.Transfer

open List

open Machine (Outcome)

/-- The goroutine has yet to upload its part or to report its error. -/
def Putting.pending : Putting → Bool
  | .cancel | .release | .done => false
  | _ => true

/-- A step of a goroutine. -/
inductive PutMove (s : Upload) (w : Worker) : Putting → Upload → Putting → Prop
  /-- It asks for a URL or waits. -/
  | go {t t' : Putting} (urls : List Nat) (ht : t ≠ .done) (ht' : t'.pending = true) :
      PutMove s w t { s with urls := urls } t'
  /-- The part is stored, and the goroutine may have the reply. -/
  | store {t' : Putting} (attempt : Nat) (ht' : t' = .release ∨ t'.pending = true) :
      PutMove s w (.put attempt) { s with stored := Numbered.insert w.num (s.body w) s.stored } t'
  | delay (attempt : Nat) (err : String) :
      PutMove s w (.put attempt) { s with inFlight := s.inFlight ++ [(w.num, s.body w)] }
        (.check attempt err)
  | fail {t' : Putting} (err : String) (ht' : t' = .cancel ∨ t' = .release) :
      PutMove s w (.fail err) (s.fail err) t'
  | cancel : PutMove s w .cancel { s with ctxDone := true } .release
  | release : PutMove s w .release { s with bufs := s.bufs ++ [some w.buf] } .done

theorem putStep_cases {s s' : Upload} {w : Worker} {t t' : Putting} {a : PutStep}
    (h : putStep s w t a = some (s', t')) : PutMove s w t s' t' := by
  rw [putStep.eq_def] at h
  -- One case for each alternative of the source's loop, in its order.
  split at h
  next => split at h <;> cases h <;> exact .go _ nofun rfl
  next attempt _ answer =>
    cases answer with
    | error err =>
      cases h
      exact .go s.urls nofun rfl
    | ok batch =>
      simp only at h
      split at h
      · cases h
        exact .go s.urls nofun rfl
      · split at h <;> cases h <;> exact .go _ nofun rfl
  next attempt o err =>
    cases o with cases h
    | ok => exact .store attempt (.inl rfl)
    | lost => exact .store attempt (.inr rfl)
    | failed => exact .delay attempt err
  next =>
    split at h
    · cases h
      exact .go s.urls nofun rfl
    · split at h <;> cases h <;> exact .go s.urls nofun rfl
  next stopped =>
    split at h
    · obtain ⟨-, ⟨⟩⟩ := Option.ite_none_right_eq_some.mp h
      exact .go s.urls nofun rfl
    · cases h
      exact .go s.urls nofun rfl
  next err =>
    cases h
    exact .fail err (by split <;> simp)
  next =>
    cases h
    exact .cancel
  next =>
    cases h
    exact .release
  next => cases h

/-- A goroutine that moves was not done. -/
theorem PutMove.ne_done {s s' : Upload} {w : Worker} {t t' : Putting} (h : PutMove s w t s' t') :
    t ≠ .done := by
  cases h with
  | go _ ht _ => exact ht
  | store _ _ | delay _ _ | fail _ _ | cancel | release => exact nofun

/-! ## Buffers -/

theorem length_writeAt {n : Nat} {chunk buf : List UInt8} (h : n + chunk.length ≤ buf.length) :
    (writeAt n chunk buf).length = buf.length := by
  simp only [writeAt, length_append, length_take, length_drop]
  omega

/-- The bytes read so far are followed by the new ones. -/
theorem take_writeAt {n : Nat} {chunk buf : List UInt8} (h : n ≤ buf.length) :
    (writeAt n chunk buf).take (n + chunk.length) = buf.take n ++ chunk := by
  have hlen : (buf.take n ++ chunk).length = n + chunk.length := by
    rw [length_append, length_take, Nat.min_eq_left h]
  rw [writeAt, ← hlen, take_left]

namespace Upload

variable {s : Upload}

theorem buffer_modify_self {b : Nat} (hb : b < s.heap.length) (f : List UInt8 → List UInt8) :
    ({ s with heap := s.heap.modify b f } : Upload).buffer b = f (s.buffer b) := by
  simp only [buffer, getElem?_modify, getElem?_eq_getElem hb]
  simp

theorem buffer_modify_ne {b b' : Nat} (hne : b ≠ b') (f : List UInt8 → List UInt8) :
    ({ s with heap := s.heap.modify b f } : Upload).buffer b' = s.buffer b' := by
  simp only [buffer, getElem?_modify, if_neg hne]
  simp

/-- A new buffer does not touch the others. -/
theorem buffer_append {b : Nat} (hb : b < s.heap.length) (buf : List UInt8) :
    ({ s with heap := s.heap ++ [buf] } : Upload).buffer b = s.buffer b := by
  simp only [buffer, getElem?_append_left hb]

theorem length_buffer {b size : Nat} (hb : b < s.heap.length)
    (hsizes : ∀ buf ∈ s.heap, buf.length = size) : (s.buffer b).length = size := by
  rw [buffer, getElem?_eq_getElem hb]
  exact hsizes _ (getElem_mem hb)

end Upload

end Dylaris.Transfer
