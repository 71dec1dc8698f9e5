import Dylaris.Notes.Account

/-!
# Mandatory updates

`pkg/release/release.go`.  A release may be required by a deadline, for the components its bullets name.
`Requirement` scans the releases, newest first, for those that a component is below: it names the newest
of them and the earliest of their deadlines, and stops at the first that the component has reached.  The
releases come from several files, merged by `Merge`.

`requirement_exact` is that the scan leaves out none of them.  An unknown version, of an image from before
releases were stamped, is not compared with any.
-/

set_option autoImplicit false

namespace Dylaris.Notes

open Text List Option

/-- `Names`. -/
def Release.names (r : Release) (service : Text) : Bool :=
  [r.features, r.breaking, r.security, r.fixes].any fun entries ↦
    entries.any fun e ↦ e.services.contains service

/-- `Merge`. -/
def merge (sets : List (List Release)) : List Release :=
  sets.flatten.mergeSort fun a b ↦ decide (b.version.compare a.version ≠ .gt)

/-- The loop of `Requirement`, with the requirement and the version it has found. -/
def requirementFrom (service : Text) (cur : Version) :
    Option (Required × Version) → List Release → Option (Required × Version)
  | found, [] => found
  | found, r :: rs =>
    match r.required, r.names service with
    | none, _ => requirementFrom service cur found rs
    | some _, false => requirementFrom service cur found rs
    | some req, true =>
      if r.version.compare cur ≠ .gt then found
      else match found with
        | none => requirementFrom service cur (some (req, r.version)) rs
        | some (best, min) =>
          requirementFrom service cur
            (some (if req.deadline < best.deadline then req else best, min)) rs

/-- `Requirement`. -/
def requirement (rs : List Release) (service : Text) (cur : Version) : Option (Required × Version) :=
  if cur.raw = [] then none else requirementFrom service cur none rs

/-- The release is newer than the version, and required for the service. -/
structure Demands (service : Text) (cur : Version) (r : Release) (req : Required) : Prop where
  known : cur.raw ≠ []
  required : r.required = some req
  names : r.names service = true
  newer : r.version.compare cur = .gt

variable {service : Text} {cur : Version} {found : Option (Required × Version)} {done rs : List Release}

/-- The answer, for these releases. -/
def Answers (service : Text) (cur : Version) (rs : List Release) : Option (Required × Version) → Prop
  | none => ∀ r ∈ rs, ∀ req, ¬ Demands service cur r req
  | some (req, min) =>
    (∃ r ∈ rs, ∃ q, Demands service cur r q ∧ r.version = min) ∧
    (∃ r ∈ rs, Demands service cur r req) ∧
    ∀ r ∈ rs, ∀ q, Demands service cur r q → r.version.compare min ≠ .gt ∧
      req.deadline ≤ q.deadline

theorem Version.compare_ne_gt_trans {a b c : Version} (hab : b.compare a ≠ .gt)
    (hbc : c.compare b ≠ .gt) : c.compare a ≠ .gt := by
  rw [Ne, Version.compare_eq_gt_iff] at *
  omega

/-- Releases that demand nothing do not change the answer. -/
theorem Answers.append (h : Answers service cur done found)
    (hrs : ∀ r ∈ rs, ∀ req, ¬ Demands service cur r req) : Answers service cur (done ++ rs) found := by
  have hof : ∀ r ∈ done ++ rs, ∀ q, Demands service cur r q → r ∈ done := by
    intro r hr q hq
    exact (mem_append.mp hr).resolve_right fun hr ↦ hrs r hr q hq
  cases found with
  | none => exact fun r hr q hq ↦ h r (hof r hr q hq) q hq
  | some found =>
    obtain ⟨⟨r, hr, hmin⟩, ⟨r', hr', hreq⟩, hall⟩ := h
    exact ⟨⟨r, mem_append_left _ hr, hmin⟩, ⟨r', mem_append_left _ hr', hreq⟩,
      fun r hr q hq ↦ hall r (hof r hr q hq) q hq⟩

/-- The first release that demands an update is the newest. -/
theorem Answers.first {r : Release} {req : Required} (h : Answers service cur done none)
    (hr : Demands service cur r req) : Answers service cur (done ++ [r]) (some (req, r.version)) := by
  have hmem : r ∈ done ++ [r] := by simp
  refine ⟨⟨r, hmem, req, hr, rfl⟩, ⟨r, hmem, hr⟩, fun r' hr' q hq ↦ ?_⟩
  rcases mem_append.mp hr' with hdone | hlast
  · exact (h r' hdone q hq).elim
  · obtain rfl := mem_singleton.mp hlast
    obtain rfl := Option.some.inj (hr.required.symm.trans hq.required)
    exact ⟨by rw [Ne, Version.compare_eq_gt_iff]; omega, le_rfl⟩

/-- The next one is not newer, and its deadline counts if it is earlier. -/
theorem Answers.next {r : Release} {req best : Required} {min : Version}
    (h : Answers service cur done (some (best, min))) (hr : Demands service cur r req)
    (hsorted : ∀ r' ∈ done, r.version.compare r'.version ≠ .gt) :
    Answers service cur (done ++ [r]) (some (if req.deadline < best.deadline then req else best, min)) := by
  obtain ⟨⟨r₁, hr₁, q₁, hq₁, rfl⟩, ⟨r₂, hr₂, hbest⟩, hall⟩ := h
  refine ⟨⟨r₁, mem_append_left _ hr₁, q₁, hq₁, rfl⟩, ?_, fun r' hr' q hq ↦ ?_⟩
  · split
    · exact ⟨r, by simp, hr⟩
    · exact ⟨r₂, mem_append_left _ hr₂, hbest⟩
  rcases mem_append.mp hr' with hdone | hlast
  · obtain ⟨hnewest, hle⟩ := hall r' hdone q hq
    exact ⟨hnewest, by split <;> omega⟩
  · obtain rfl := mem_singleton.mp hlast
    obtain rfl := Option.some.inj (hr.required.symm.trans hq.required)
    exact ⟨hsorted r₁ hr₁, by split <;> omega⟩

/-- The loop answers for the releases it has read, and those it leaves out demand nothing. -/
theorem answers_requirementFrom (hknown : cur.raw ≠ [])
    (hsorted : (done ++ rs).Pairwise fun a b ↦ b.version.compare a.version ≠ .gt)
    (h : Answers service cur done found) :
    Answers service cur (done ++ rs) (requirementFrom service cur found rs) := by
  induction rs generalizing done found with
  | nil => simpa [requirementFrom] using h
  | cons r rs ih =>
    have happend : done ++ r :: rs = done ++ [r] ++ rs := by simp
    rw [happend] at hsorted ⊢
    have hbefore := (pairwise_append.mp (pairwise_append.mp hsorted).1).2.2
    rw [requirementFrom]
    split
    · rename_i hnone
      refine ih hsorted (h.append ?_)
      rintro r' hr' req ⟨-, hreq, -⟩
      rw [mem_singleton.mp hr', hnone] at hreq
      cases hreq
    · rename_i hnames
      refine ih hsorted (h.append ?_)
      rintro r' hr' req ⟨-, -, hservice, -⟩
      rw [mem_singleton.mp hr', hnames] at hservice
      cases hservice
    · rename_i req hreq hnames
      split
      · -- This release has been reached, and those after it are not newer.
        rename_i hreached
        rw [← happend] at hsorted ⊢
        refine h.append fun r' hr' q hq ↦ ?_
        have hle : r'.version.compare r.version ≠ .gt := by
          rcases mem_cons.mp hr' with rfl | hr'
          · rw [Ne, Version.compare_eq_gt_iff]
            omega
          · exact rel_of_pairwise_cons (pairwise_append.mp hsorted).2.1 hr'
        exact Version.compare_ne_gt_trans hreached hle hq.newer
      · rename_i hnewer
        have hr : Demands service cur r req := ⟨hknown, hreq, hnames, not_not.mp hnewer⟩
        split
        · exact ih hsorted (h.first hr)
        · exact ih hsorted (h.next hr fun r' hr' ↦ hbefore r' hr' r (mem_singleton_self r))

/-- **The required-update answer is exact**, for the releases of any files, in any order: an update is
reported iff a newer release demands it, the version is that of the newest such release, and the deadline
is the earliest. -/
theorem requirement_exact (sets : List (List Release)) (service : Text) (cur : Version) :
    ((requirement (merge sets) service cur).isSome = true ↔
      ∃ r ∈ sets.flatten, ∃ req, Demands service cur r req) ∧
    ∀ req min, requirement (merge sets) service cur = some (req, min) →
      (∃ r ∈ sets.flatten, ∃ q, Demands service cur r q ∧ r.version = min) ∧
      (∃ r ∈ sets.flatten, Demands service cur r req) ∧
      ∀ r ∈ sets.flatten, ∀ q, Demands service cur r q →
        r.version.compare min ≠ .gt ∧ req.deadline ≤ q.deadline := by
  have hmem : ∀ r, r ∈ merge sets ↔ r ∈ sets.flatten := fun r ↦ mem_mergeSort
  have hsorted : (merge sets).Pairwise fun a b ↦ b.version.compare a.version ≠ .gt := by
    refine (pairwise_mergeSort ?_ ?_ sets.flatten).imp of_decide_eq_true
    · intro a b c hab hbc
      exact decide_eq_true (Version.compare_ne_gt_trans (of_decide_eq_true hab) (of_decide_eq_true hbc))
    · intro a b
      rw [Bool.or_eq_true, decide_eq_true_eq, decide_eq_true_eq]
      simp only [Ne, Version.compare_eq_gt_iff]
      omega
  have hanswer : Answers service cur (merge sets) (requirement (merge sets) service cur) := by
    rw [requirement]
    split
    · rename_i hunknown
      exact fun r _ req h ↦ h.known hunknown
    · rename_i hknown
      have hnone : Answers service cur [] none := fun r hr ↦ by cases hr
      exact answers_requirementFrom hknown hsorted hnone
  cases hreq : requirement (merge sets) service cur with
  | none =>
    rw [hreq] at hanswer
    refine ⟨iff_of_false (by simp) ?_, fun req min h ↦ by cases h⟩
    rintro ⟨r, hr, req, h⟩
    exact hanswer r ((hmem r).mpr hr) req h
  | some found =>
    rw [hreq] at hanswer
    simp only [Answers, hmem] at hanswer
    obtain ⟨hmin, ⟨r, hr, hbest⟩, hall⟩ := hanswer
    refine ⟨iff_of_true rfl ⟨r, hr, _, hbest⟩, ?_⟩
    rintro req min h
    cases h
    exact ⟨hmin, ⟨r, hr, hbest⟩, hall⟩

end Dylaris.Notes
