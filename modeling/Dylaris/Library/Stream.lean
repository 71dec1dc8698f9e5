import Mathlib.Data.List.Basic
import Mathlib.Algebra.Order.Group.Nat
import Mathlib.Algebra.GroupWithZero.Nat

/-!
# Byte streams

What a program sees of a connection.  A *source* hands out its bytes in pieces that the program does
not choose: a read returns at most what it asked for, may return less, and may return nothing without
an error.  It ends at the end of the stream or with an error of its own, which comes after the last
bytes or together with them.  A *sink* takes bytes until a write fails, at which point it may have
taken some of that write's.

`readFull_eq` says that `Source.readFull` returns the next bytes of the stream however they are cut up, and
leaves the rest; `writeAll_bytes` says what `Sink.writeAll` leaves on the stream.
-/

set_option autoImplicit false

namespace Stream

open List Option

inductive ReadError
  | eof | unexpectedEOF | failed
deriving DecidableEq, Repr

/-! ## Sources -/

/-- The pieces still to be read; whether the stream ends with an error of its own; and whether the
end is reported together with the last bytes. -/
structure Source where
  pieces : List (List UInt8)
  broken : Bool
  eager : Bool
deriving DecidableEq, Repr

namespace Source

variable (s : Source)

/-- The bytes still to be read. -/
def bytes : List UInt8 := s.pieces.flatten

/-- What is reported at the end. -/
def ending : ReadError := if s.broken then .failed else .eof

/-- The end is reported by the read that leaves these pieces. -/
def endsAt (rest : List (List UInt8)) : Option ReadError :=
  if s.eager && rest.isEmpty then some s.ending else none

/-- One read of at most `n` bytes: what it returns, its error, and the source after it. -/
def read (n : Nat) : List UInt8 × Option ReadError × Source :=
  match s.pieces with
  | [] => ([], some s.ending, s)
  | p :: rest =>
    let rest := if n < p.length then p.drop n :: rest else rest
    (p.take n, s.endsAt rest, { s with pieces := rest })

/-- How many reads the source can still answer before it is at its end. -/
def size : Nat := (s.pieces.map fun p ↦ p.length + 1).sum

variable {s : Source}

/-- A read of one byte returns the next one, or nothing from an empty piece. -/
theorem read_one {b : UInt8} {bs : List UInt8} (h : s.bytes = b :: bs) :
    ((s.read 1).1 = [b] ∧ (s.read 1).2.2.bytes = bs ∧ (bs ≠ [] → (s.read 1).2.1 = none)) ∨
      ((s.read 1).1 = [] ∧ (s.read 1).2.2.bytes = b :: bs ∧ (s.read 1).2.1 = none) := by
  obtain ⟨pieces, broken, eager⟩ := s
  have hends : ∀ rest, List.flatten rest ≠ [] → endsAt ⟨pieces, broken, eager⟩ rest = none := by
    intro rest hrest
    have hne : rest.isEmpty = false := by
      rw [isEmpty_eq_false_iff]
      rintro rfl
      exact hrest rfl
    rw [endsAt, hne, Bool.and_false, if_neg Bool.false_ne_true]
  cases pieces with
  | nil => cases h
  | cons p rest =>
    cases p with
    | nil =>
      have hbytes : rest.flatten = b :: bs := h
      exact .inr ⟨rfl, hbytes, hends rest (by rw [hbytes]; exact cons_ne_nil b bs)⟩
    | cons c p =>
      obtain ⟨rfl, hbytes⟩ := List.cons.inj h
      left
      cases p with
      | nil => exact ⟨rfl, hbytes, fun hne ↦ hends rest (by rwa [← hbytes] at hne)⟩
      | cons d p => exact ⟨rfl, hbytes, fun _ ↦ hends _ (cons_ne_nil d _)⟩

theorem size_read_lt (h : (s.read 1).2.1 = none) : (s.read 1).2.2.size < s.size := by
  obtain ⟨pieces, broken, eager⟩ := s
  cases pieces with
  | nil => cases h
  | cons p rest =>
    simp only [read]
    split
    · simp only [size, map_cons, sum_cons, length_drop]
      omega
    · simp only [size, map_cons, sum_cons]
      omega

/-- `io.ReadFull`, piece by piece: `n` bytes are still to come behind those it has got.  An error that
comes with the last of them is dropped. -/
def readFullFrom (broken eager : Bool) : List (List UInt8) → Nat → List UInt8 →
    Except ReadError (List UInt8) × Source
  | [], n, got =>
    let s : Source := ⟨[], broken, eager⟩
    if n = 0 then (.ok got, s)
    else (.error (if broken then .failed else if got = [] then .eof else .unexpectedEOF), s)
  | p :: rest, n, got =>
    if n = 0 then (.ok got, ⟨p :: rest, broken, eager⟩)
    else if n < p.length then (.ok (got ++ p.take n), ⟨p.drop n :: rest, broken, eager⟩)
    else readFullFrom broken eager rest (n - p.length) (got ++ p)

def readFull (n : Nat) : Except ReadError (List UInt8) × Source :=
  readFullFrom s.broken s.eager s.pieces n []

variable {front back : List UInt8}

theorem readFullFrom_eq (broken eager : Bool) {pieces : List (List UInt8)}
    (got : List UInt8) (h : pieces.flatten = front ++ back) :
    ∃ pieces', readFullFrom broken eager pieces front.length got
      = (.ok (got ++ front), ⟨pieces', broken, eager⟩) ∧ pieces'.flatten = back := by
  induction pieces generalizing front got with
  | nil =>
    obtain ⟨rfl, rfl⟩ := append_eq_nil_iff.mp h.symm
    exact ⟨[], by simp [readFullFrom], rfl⟩
  | cons p rest ih =>
    rw [readFullFrom]
    split
    · rename_i hzero
      obtain rfl := length_eq_zero_iff.mp hzero
      exact ⟨p :: rest, by simp, h⟩
    split
    · rename_i hlt
      rw [flatten_cons] at h
      have hfront : p.take front.length = front := by
        have htake := congrArg (List.take front.length) h
        rwa [take_append_of_le_length hlt.le, take_left] at htake
      have hback : p.drop front.length ++ rest.flatten = back := by
        have hdrop := congrArg (List.drop front.length) h
        rwa [drop_append_of_le_length hlt.le, drop_left] at hdrop
      exact ⟨p.drop front.length :: rest, by rw [hfront], hback⟩
    · rename_i hge
      rw [not_lt] at hge
      rw [flatten_cons] at h
      -- The whole piece belongs to what is read.
      obtain ⟨front', rfl⟩ : p <+: front := by
        refine prefix_of_prefix_length_le (prefix_append p rest.flatten) ?_ hge
        exact h ▸ prefix_append front back
      rw [append_assoc, append_cancel_left_eq] at h
      obtain ⟨pieces', hread, hrest⟩ := ih (got ++ p) h
      refine ⟨pieces', ?_, hrest⟩
      rw [length_append, Nat.add_sub_cancel_left, hread, append_assoc]

/-- **A full read returns the next bytes and leaves the rest**, however the stream is cut up. -/
theorem readFull_eq (h : s.bytes = front ++ back) :
    ∃ s', s.readFull front.length = (.ok front, s') ∧ s'.bytes = back := by
  obtain ⟨pieces', hread, hrest⟩ := readFullFrom_eq s.broken s.eager [] h
  exact ⟨_, hread, hrest⟩

end Source

/-! ## Sinks -/

/-- The bytes on the stream, and how the next writes turn out: a write that fails has put some of its
bytes there. -/
structure Sink where
  bytes : List UInt8
  faults : List (Option Nat)
deriving DecidableEq, Repr

namespace Sink

/-- One write; `false` is an error. -/
def write (s : Sink) (p : List UInt8) : Bool × Sink :=
  match s.faults with
  | some k :: faults => (false, ⟨s.bytes ++ p.take k, faults⟩)
  | none :: faults => (true, ⟨s.bytes ++ p, faults⟩)
  | [] => (true, ⟨s.bytes ++ p, []⟩)

/-- Writes one after another, up to the first that fails. -/
def writeAll : Sink → List (List UInt8) → Bool × Sink
  | s, [] => (true, s)
  | s, p :: ps =>
    match s.write p with
    | (false, s') => (false, s')
    | (true, s') => s'.writeAll ps

theorem write_bytes (s : Sink) (p : List UInt8) :
    ((s.write p).1 = true ∧ (s.write p).2.bytes = s.bytes ++ p) ∨
      ((s.write p).1 = false ∧ ∃ k, (s.write p).2.bytes = s.bytes ++ p.take k) := by
  rw [write]
  split
  · exact .inr ⟨rfl, _, rfl⟩
  · exact .inl ⟨rfl, rfl⟩
  · exact .inl ⟨rfl, rfl⟩

/-- **What writes leave on the stream**: all of it, or with an error the beginning of it. -/
theorem writeAll_bytes (s : Sink) (ps : List (List UInt8)) :
    ((s.writeAll ps).1 = true ∧ (s.writeAll ps).2.bytes = s.bytes ++ ps.flatten) ∨
      ((s.writeAll ps).1 = false ∧ ∃ out, out <+: ps.flatten ∧
        (s.writeAll ps).2.bytes = s.bytes ++ out) := by
  induction ps generalizing s with
  | nil => exact .inl ⟨rfl, by simp [writeAll]⟩
  | cons p ps ih =>
    rw [writeAll]
    rcases hw : s.write p with ⟨ok, s'⟩
    have hp := s.write_bytes p
    rw [hw] at hp
    rcases hp with ⟨rfl, hbytes⟩ | ⟨rfl, k, hbytes⟩
    · rcases ih s' with ⟨hok, hrest⟩ | ⟨hok, out, hout, hrest⟩
      · refine .inl ⟨hok, ?_⟩
        rw [hrest, hbytes, flatten_cons, append_assoc]
      · refine .inr ⟨hok, p ++ out, ?_, ?_⟩
        · exact (prefix_append_right_inj p).mpr hout
        · rw [hrest, hbytes, append_assoc]
    · refine .inr ⟨rfl, p.take k, ?_, hbytes⟩
      exact (List.take_prefix k p).trans (prefix_append p _)

end Sink

end Stream
