import Dylaris.Library.Text

/-!
# Glob patterns

The glob patterns of Redis: `*` stands for any bytes, `?` for one byte, `[a-z]` for one byte of a set
and `[^a-z]` for one outside it, and a backslash takes the next byte as it is.  A pattern is parsed
into items once, and a text is matched against the items.

`glob_eq_true` says what a pattern without special bytes matches, `prefix_of_glob` what a pattern
with some of them matches at least.
-/

set_option autoImplicit false

namespace Glob

/-- One item of a parsed pattern. -/
inductive Item
  | star
  | one
  | byte (b : UInt8)
  /-- One byte inside one of the ranges or, negated, inside none of them. -/
  | set (negated : Bool) (ranges : List (UInt8 × UInt8))
deriving DecidableEq

/-- What has been read of the pattern: nothing that is still open, or a set with these ranges. -/
inductive Mode
  | outside
  | inSet (negated : Bool) (ranges : List (UInt8 × UInt8))

/-- The range between two bytes, which may be given in either order. -/
def rangeOf (a b : UInt8) : UInt8 × UInt8 := if a ≤ b then (a, b) else (b, a)

/-- Parse a pattern.  A set that is never closed ends with the pattern. -/
def parseFrom : Mode → Text → List Item
  | .outside, [] => []
  | .outside, 0x2A :: rest => .star :: parseFrom .outside rest
  | .outside, 0x3F :: rest => .one :: parseFrom .outside rest
  | .outside, 0x5C :: b :: rest => .byte b :: parseFrom .outside rest
  | .outside, 0x5B :: 0x5E :: rest => parseFrom (.inSet true []) rest
  | .outside, 0x5B :: rest => parseFrom (.inSet false []) rest
  | .outside, b :: rest => .byte b :: parseFrom .outside rest
  | .inSet negated ranges, [] => [.set negated ranges]
  | .inSet negated ranges, 0x5C :: b :: rest => parseFrom (.inSet negated ((b, b) :: ranges)) rest
  | .inSet negated ranges, 0x5D :: rest => .set negated ranges :: parseFrom .outside rest
  | .inSet negated ranges, a :: 0x2D :: b :: rest =>
    parseFrom (.inSet negated (rangeOf a b :: ranges)) rest
  | .inSet negated ranges, a :: rest => parseFrom (.inSet negated ((a, a) :: ranges)) rest

/-- The text is an instance of the items. -/
def accepts : List Item → Text → Bool
  | [], t => t.isEmpty
  | .star :: p, t => t.tails.any fun rest ↦ accepts p rest
  | .one :: p, _ :: t => accepts p t
  | .byte b :: p, c :: t => b == c && accepts p t
  | .set negated ranges :: p, c :: t =>
    (ranges.any (fun r ↦ r.1 ≤ c && c ≤ r.2) != negated) && accepts p t
  | _ :: _, [] => false

end Glob

/-- The text matches the pattern. -/
def glob (pattern t : Text) : Bool := Glob.accepts (Glob.parseFrom .outside pattern) t

namespace Glob

/-- A byte that stands for itself in a pattern. -/
def Plain (b : UInt8) : Prop := b ≠ 0x2A ∧ b ≠ 0x3F ∧ b ≠ 0x5C ∧ b ≠ 0x5B

instance (b : UInt8) : Decidable (Plain b) := inferInstanceAs (Decidable (_ ∧ _))

theorem parseFrom_plain {b : UInt8} (h : Plain b) (rest : Text) :
    parseFrom .outside (b :: rest) = .byte b :: parseFrom .outside rest := by
  obtain ⟨h1, h2, h3, h4⟩ := h
  rw [parseFrom.eq_def]
  split <;> simp_all

theorem parseFrom_plain_append {p : Text} (h : ∀ b ∈ p, Plain b) (rest : Text) :
    parseFrom .outside (p ++ rest) = p.map .byte ++ parseFrom .outside rest := by
  induction p with
  | nil => rfl
  | cons b p ih =>
    obtain ⟨hb, hp⟩ := List.forall_mem_cons.mp h
    rw [List.cons_append, parseFrom_plain hb, ih hp, List.map_cons, List.cons_append]

theorem accepts_bytes_append {p t : Text} {items : List Item} :
    accepts (p.map .byte ++ items) t = true ↔ ∃ rest, t = p ++ rest ∧ accepts items rest = true := by
  induction p generalizing t with
  | nil => simp
  | cons b p ih =>
    cases t with
    | nil => simp [accepts]
    | cons c t =>
      simp only [List.map_cons, List.cons_append, accepts, Bool.and_eq_true, beq_iff_eq, ih,
        List.cons.injEq]
      constructor
      · rintro ⟨rfl, rest, rfl, hrest⟩
        exact ⟨rest, ⟨rfl, rfl⟩, hrest⟩
      · rintro ⟨rest, ⟨rfl, rfl⟩, hrest⟩
        exact ⟨rfl, rest, rfl, hrest⟩

variable {p t : Text}

/-- A pattern without special bytes matches itself only. -/
theorem glob_eq_true (h : ∀ b ∈ p, Plain b) : glob p t = true ↔ t = p := by
  have hp := parseFrom_plain_append h []
  rw [List.append_nil] at hp
  rw [glob, hp, accepts_bytes_append]
  simp [parseFrom, accepts]

/-- What matches a pattern begins with the bytes before its first special one. -/
theorem prefix_of_glob {q : Text} (h : ∀ b ∈ p, Plain b) (hg : glob (p ++ q) t = true) : p <+: t := by
  rw [glob, parseFrom_plain_append h, accepts_bytes_append] at hg
  obtain ⟨rest, rfl, -⟩ := hg
  exact List.prefix_append p rest

end Glob
