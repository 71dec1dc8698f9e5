import Dylaris.Notes.Model
import Mathlib.Data.List.TakeWhile

/-!
# The code spans that end a text

`CodeEnd text prose contents` is the text as prose and a run of code spans behind it, with white space
before each, where the run cannot be made longer.  `trailingCode` finds it, and the services of an entry
are the contents of its spans: `tagged_of_parseEntry`.
-/

set_option autoImplicit false

namespace Dylaris.Notes

open Text List Option

/-- The content of a code span. -/
def IsContent (c : Text) : Prop := c ≠ [] ∧ tick ∉ c

/-- The text is the prose and the code spans that end it. -/
inductive CodeEnd : Text → Text → List Text → Prop
  | prose {t : Text} (h : ∀ p c, IsContent c → t ≠ p ++ tick :: c ++ [tick]) : CodeEnd t t []
  | span {text prose gap c : Text} {contents : List Text} (h : CodeEnd text prose contents)
      (hend : ∀ b, text.getLast? = some b → reSpace b = false) (hgap : ∀ b ∈ gap, reSpace b = true)
      (hc : IsContent c) : CodeEnd (text ++ gap ++ tick :: c ++ [tick]) prose (contents ++ [c])

/-- A text that ends in no code span is prose. -/
theorem CodeEnd.prose_eq {text prose : Text} (h : CodeEnd text prose []) : prose = text := by
  generalize hnil : ([] : List Text) = contents at h
  cases h with
  | prose => rfl
  | span => simp at hnil

/-- `lastSpan` looks at the text from its end. -/
theorem lastSpan_eq_some_iff {t content before : Text} :
    lastSpan t = some (content, before) ↔
      t = tick :: content.reverse ++ tick :: before ∧ IsContent content := by
  constructor
  · intro h
    cases t with
    | nil => cases h
    | cons b t =>
      rw [lastSpan] at h
      split at h
      · rename_i hb
        split at h
        · rename_i c rest x after htake hdrop
          cases h
          have hx := head?_dropWhile_not (· ≠ tick) t
          rw [hdrop] at hx
          simp only [head?_cons, ne_eq, decide_not, Bool.not_eq_false', decide_eq_true_eq] at hx
          refine ⟨?_, by simp, fun htick ↦ ?_⟩
          · rw [reverse_reverse, hb, ← hx, cons_append, ← htake, ← hdrop,
              takeWhile_append_dropWhile]
          · have hmem : tick ∈ t.takeWhile (· ≠ tick) := htake ▸ mem_reverse.mp htick
            simpa using mem_takeWhile_imp hmem
        · cases h
      · cases h
  · rintro ⟨rfl, hne, htick⟩
    have hall : ∀ b ∈ content.reverse, decide (b ≠ tick) = true := by
      intro b hb
      rw [decide_eq_true_eq]
      rintro rfl
      exact htick (mem_reverse.mp hb)
    rw [cons_append, lastSpan, if_pos rfl, takeWhile_append_of_pos hall,
      dropWhile_append_of_pos hall]
    simp only [takeWhile_cons, dropWhile_cons, ne_eq, not_true_eq_false, decide_false,
      Bool.false_eq_true, if_false, append_nil]
    obtain ⟨c, rest, hrev⟩ := exists_cons_of_ne_nil (mt reverse_eq_nil_iff.mp hne)
    rw [hrev]
    simp only [Option.some.injEq, Prod.mk.injEq, and_true]
    rw [← hrev, reverse_reverse]

theorem codeEnd_spansFrom (fuel : Nat) (t : Text) (h : t.length ≤ fuel) :
    CodeEnd t.reverse (spansFrom fuel t).2.reverse (spansFrom fuel t).1 := by
  induction fuel generalizing t with
  | zero =>
    obtain rfl := eq_nil_of_length_eq_zero (Nat.le_zero.mp h)
    exact .prose fun p c _ hp ↦ by simp at hp
  | succ fuel ih =>
    rw [spansFrom]
    split
    · rename_i hnone
      refine .prose fun p c hc hp ↦ ?_
      have hsome : lastSpan t = some (c, p.reverse) := by
        rw [lastSpan_eq_some_iff]
        refine ⟨?_, hc⟩
        rw [← reverse_reverse t, hp]
        simp
      rw [hnone] at hsome
      cases hsome
    · rename_i content before hsome
      obtain ⟨rfl, hc⟩ := lastSpan_eq_some_iff.mp hsome
      have hlen : (before.dropWhile reSpace).length ≤ fuel := by
        have := (dropWhile_suffix (p := reSpace) (l := before)).length_le
        simp only [length_append, length_cons] at h
        omega
      have hend : ∀ b, (before.dropWhile reSpace).reverse.getLast? = some b → reSpace b = false := by
        intro b hb
        have hhead := head?_dropWhile_not reSpace before
        rw [getLast?_reverse] at hb
        rwa [hb] at hhead
      have hgap : ∀ b ∈ (before.takeWhile reSpace).reverse, reSpace b = true :=
        fun b hb ↦ mem_takeWhile_imp (mem_reverse.mp hb)
      have hspan := (ih _ hlen).span hend hgap hc
      rw [← reverse_append, takeWhile_append_dropWhile] at hspan
      simpa using hspan

/-- **`trailingCode` finds the code spans that end the text.** -/
theorem codeEnd_trailingCode (t : Text) : CodeEnd t (trailingCode t).2 (trailingCode t).1 := by
  have h := codeEnd_spansFrom t.length t.reverse (by simp)
  rwa [reverse_reverse] at h

/-- The entry is the text without the code spans that end it, and they are its services. -/
def Tagged (text : Text) (e : Entry) : Prop :=
  ∃ prose contents, CodeEnd (trimSpace text) prose contents ∧ e.services = contents.map trimSpace ∧
    e.text = (if contents = [] then prose else trimSpace prose) ∧
    ∀ name ∈ e.services, knownService name = true

/-- **An entry's services are the code spans that end its text.** -/
theorem tagged_of_parseEntry {text : Text} {e : Entry} (h : parseEntry text = .ok (some e)) :
    Tagged text e := by
  have hcode := codeEnd_trailingCode (trimSpace text)
  have hprose : (trailingCode (trimSpace text)).1 = [] →
      (trailingCode (trimSpace text)).2 = trimSpace text := by
    intro hnil
    rw [hnil] at hcode
    exact hcode.prose_eq
  simp only [parseEntry] at h
  generalize trailingCode (trimSpace text) = code at *
  obtain ⟨contents, prose⟩ := code
  dsimp only at h hcode hprose
  split at h
  · cases h
  split at h
  · cases h
  rename_i hnone
  have hknown : ∀ name ∈ contents.map trimSpace, knownService name = true := by
    intro name hname
    simpa using find?_eq_none.mp hnone name hname
  by_cases hnil : contents = []
  · rw [if_pos hnil] at h
    split at h
    · cases h
    · cases h
      exact ⟨prose, contents, hcode, rfl, by rw [if_pos hnil, hprose hnil], hknown⟩
  · rw [if_neg hnil] at h
    split at h
    · cases h
    · cases h
      exact ⟨prose, contents, hcode, rfl, by rw [if_neg hnil], hknown⟩

end Dylaris.Notes
