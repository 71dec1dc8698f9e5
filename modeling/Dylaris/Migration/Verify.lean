import Dylaris.Migration.Job

/-!
# A full verification is exact

`Verify` on its own: the listing and what `Open` gives for each key, the problems it finds, and its
report.  In full mode over a target that can be read, the problems are the keys that are missing,
surplus or different, each once, however many of them the report lists.

The log lines, the progress calls, the fractions of the report and the fields it copies from the
manifest's row are left out.
-/

set_option autoImplicit false

namespace Dylaris.Migration

open List Option Prod

/-- `StorageVerifyStatus`, of a problem. -/
inductive VerifyStatus
  | missing | extra | sizeMismatch | checksumMismatch | unreadable
deriving DecidableEq, Repr

/-- `StorageVerifyEntry`. -/
structure VerifyEntry where
  key : Key
  status : VerifyStatus
  expectedSize : Nat := 0
  actualSize : Nat := 0
deriving DecidableEq, Repr

/-- `StorageVerifyReport`. -/
structure VerifyReport where
  ok : Bool
  mode : VerifyMode
  objectsInManifest : Nat
  objectsChecked : Nat
  bytesInManifest : Nat
  bytesExamined : Nat
  bytesChecked : Nat
  problems : List VerifyEntry
  problemsTotal : Nat
deriving DecidableEq, Repr

/-- What `Open` and reading to the end give for a key. -/
inductive Opened (C : Type)
  | notExist
  | openError
  | readError (n : Nat)
  | content (c : C)
deriving DecidableEq, Repr

/-- `verifyMaxProblems`. -/
def verifyMaxProblems : Nat := 500

/-- `ErrVerifyCancelled`. -/
def errVerifyCancelled : String := "storagemigrate: verification cancelled"

section Verify

variable {C S : Type} [DecidableEq S] (hash : C → S) (size : C → Nat)

/-- The problem with an entry, and how many bytes of its object were read. -/
def checkEntry (e : Entry S) : Opened C → Option VerifyEntry × Nat
  | .notExist => (some { key := e.key, status := .missing, expectedSize := e.size }, 0)
  | .openError => (some { key := e.key, status := .unreadable, expectedSize := e.size }, 0)
  | .readError n => (some ⟨e.key, .unreadable, e.size, n⟩, n)
  | .content c =>
    (if hash c = e.sum then none
      else if size c ≠ e.size then some ⟨e.key, .sizeMismatch, e.size, size c⟩
      else some ⟨e.key, .checksumMismatch, e.size, size c⟩, size c)

/-- The objects that the manifest does not name. -/
def surplusProblems (entries : List (Entry S)) (present : List (Key × Nat)) : List VerifyEntry :=
  (present.filter fun p ↦ p.1 ∉ entries.map (·.key)).map fun p ↦
    { key := p.1, status := .extra, actualSize := p.2 }

/-- The entries that were neither hashed nor listed. -/
def unhashedProblems (entries hashed : List (Entry S)) (present : List (Key × Nat)) :
    List VerifyEntry :=
  (entries.filter fun e ↦ e.key ∉ hashed.map (·.key) ∧ e.key ∉ present.map fst).map fun e ↦
    { key := e.key, status := .missing, expectedSize := e.size }

/-- `Verify`: `present` is what `List` gives, `stop` the error on which the loop ends at a key, and
`shuffled` the large entries as a sample draws them. -/
def verify (present : Except String (List (Key × Nat))) (opened : Key → Opened C)
    (stop : Key → Option String) (shuffled entries : List (Entry S)) (mode : VerifyMode) :
    Except String VerifyReport :=
  if validVerifyMode mode = false then
    .error ("storagemigrate: unknown verify mode \"" ++ mode.name ++ "\" (want \"full\" or \"sample\")")
  else do
    let present ← present.mapError ("storagemigrate: list target: " ++ ·)
    let hashed := if mode = .sample then selectSample entries shuffled else byKey entries
    match hashed.findSome? fun e ↦ stop e.key with
    | some err => .error err
    | none =>
      let checked := hashed.map fun e ↦ checkEntry hash size e (opened e.key)
      let problems := surplusProblems entries present ++ checked.filterMap fst ++
        if mode = .sample then unhashedProblems entries hashed present else []
      .ok {
        ok := problems.length = 0
        mode := mode
        objectsInManifest := entries.length
        objectsChecked := hashed.length
        bytesInManifest := (entries.map (·.size)).sum
        bytesExamined := (hashed.map (·.size)).sum
        bytesChecked := (checked.map snd).sum
        problems := problems.take verifyMaxProblems
        problemsTotal := problems.length }

end Verify

/-! ## Manifests and targets -/

/-- A stored manifest: `storage_manifest_entries` has one row for a key. -/
structure Manifest (S : Type) where
  entries : List (Entry S)
  nodup : (entries.map (·.key)).Nodup

/-- A target whose objects can all be read. -/
structure Target (C : Type) where
  objects : List (Key × C)
  nodup : (objects.map fst).Nodup

section Exact

variable {C S : Type} [DecidableEq S] (hash : C → S) (size : C → Nat) (m : Manifest S) (t : Target C)

def Manifest.keys : List Key := m.entries.map (·.key)

def Target.keys : List Key := t.objects.map fst

def Target.get (k : Key) : Option C := (t.objects.find? (·.1 = k)).map snd

def Target.opened (k : Key) : Opened C :=
  match t.get k with
  | some c => .content c
  | none => .notExist

/-- The keys that are missing on the target, that only the target has, and whose contents differ. -/
def missing : List Key := m.keys.filter (· ∉ t.keys)

def surplus : List Key := t.keys.filter (· ∉ m.keys)

def differing : List Key :=
  (m.entries.filter fun e ↦ (t.get e.key).any fun c ↦ hash c ≠ e.sum).map (·.key)

variable {m t}

theorem Target.get_eq_none_iff {k : Key} : t.get k = none ↔ k ∉ t.keys := by
  rw [Target.get, Option.map_eq_none_iff, List.find?_eq_none, Target.keys, List.mem_map]
  constructor
  · rintro h ⟨o, ho, rfl⟩
    exact h o ho (by simp)
  · intro h o ho hk
    exact h ⟨o, ho, by simpa using hk⟩

/-- **An entry is a problem** if it is missing or differs. -/
theorem isSome_checkEntry (e : Entry S) :
    (checkEntry hash size e (t.opened e.key)).1.isSome =
      (decide (e.key ∉ t.keys) || (t.get e.key).any fun c ↦ hash c ≠ e.sum) := by
  rw [Target.opened]
  cases hget : t.get e.key with
  | none =>
    have hmem := Target.get_eq_none_iff.mp hget
    simp [checkEntry, hmem]
  | some c =>
    have hmem : e.key ∈ t.keys := by
      by_contra hmem
      rw [Target.get_eq_none_iff.mpr hmem] at hget
      cases hget
    by_cases hsum : hash c = e.sum
    · simp [checkEntry, hmem, hsum]
    · simp only [checkEntry, if_neg hsum, apply_ite Option.isSome, isSome_some, ite_self]
      simp [hsum]

/-- What the loop finds is what is missing and what differs. -/
theorem length_checked (entries : List (Entry S)) :
    ((byKey entries).filterMap fun e ↦ (checkEntry hash size e (t.opened e.key)).1).length =
      (entries.filter fun e ↦ e.key ∉ t.keys).length +
        (entries.filter fun e ↦ (t.get e.key).any fun c ↦ hash c ≠ e.sum).length := by
  have hperm : (byKey entries).Perm entries := perm_insertionSort _ _
  rw [(hperm.filterMap _).length_eq, length_filterMap_eq_countP, ← countP_eq_length_filter,
    ← countP_eq_length_filter]
  induction entries with
  | nil => rfl
  | cons e entries ih =>
    rw [countP_cons, countP_cons, countP_cons, ih (perm_insertionSort _ _),
      isSome_checkEntry]
    -- An entry that is missing has no content that could differ.
    by_cases hmem : e.key ∈ t.keys
    · simp only [hmem, not_true_eq_false, decide_false, Bool.false_or]
      split
      · simp
        omega
      · simp
    · simp only [Target.get_eq_none_iff.mpr hmem, hmem]
      simp
      omega

/-- What a full verification finds: the surplus keys, and the entries that are missing or different. -/
def fullProblems (hash : C → S) (size : C → Nat) (m : Manifest S) (t : Target C) : List VerifyEntry :=
  surplusProblems m.entries (t.objects.map fun o ↦ (o.1, size o.2)) ++
    ((byKey m.entries).map fun e ↦ checkEntry hash size e (t.opened e.key)).filterMap fst

theorem length_fullProblems (size : C → Nat) : (fullProblems hash size m t).length =
    (missing m t).length + (surplus m t).length + (differing hash m t).length := by
  have hsurplus : (surplusProblems m.entries (t.objects.map fun o ↦ (o.1, size o.2))).length =
      (surplus m t).length := by
    simp [surplusProblems, surplus, Target.keys, Manifest.keys, List.filter_map, Function.comp_def]
  have hmissing : (missing m t).length = (m.entries.filter fun e ↦ e.key ∉ t.keys).length := by
    simp [missing, Manifest.keys, List.filter_map, Function.comp_def]
  have hchecked : (((byKey m.entries).map fun e ↦
      checkEntry hash size e (t.opened e.key)).filterMap fst).length =
        (missing m t).length + (differing hash m t).length := by
    rw [filterMap_map, hmissing, differing, length_map]
    exact length_checked hash size m.entries
  rw [fullProblems, length_append, hsurplus, hchecked]
  omega

/-- Nothing is missing, surplus or different. -/
theorem no_problem_iff : (missing m t).length + (surplus m t).length + (differing hash m t).length = 0 ↔
    (∀ k, k ∈ t.keys ↔ k ∈ m.keys) ∧
      ∀ e ∈ m.entries, ∃ c, t.get e.key = some c ∧ hash c = e.sum := by
  have hkey : ∀ e ∈ m.entries, e.key ∈ m.keys := fun e he ↦ mem_map_of_mem he
  simp only [Nat.add_eq_zero_iff, length_eq_zero_iff, missing, surplus, differing,
    map_eq_nil_iff, filter_eq_nil_iff, decide_eq_true_eq, not_not]
  constructor
  · rintro ⟨⟨hmissing, hsurplus⟩, hsame⟩
    refine ⟨fun k ↦ ⟨hsurplus k, hmissing k⟩, fun e he ↦ ?_⟩
    cases hget : t.get e.key with
    | none => exact absurd (hmissing _ (hkey e he)) (Target.get_eq_none_iff.mp hget)
    | some c => exact ⟨c, rfl, by simpa [hget] using hsame e he⟩
  · rintro ⟨hkeys, hall⟩
    refine ⟨⟨fun k ↦ (hkeys k).mpr, fun k ↦ (hkeys k).mp⟩, fun e he ↦ ?_⟩
    obtain ⟨c, hget, hsum⟩ := hall e he
    simp [hget, hsum]

/-- Each key counts once. -/
theorem nodup_problems : (missing m t).Nodup ∧ (surplus m t).Nodup ∧ (differing hash m t).Nodup :=
  ⟨m.nodup.filter _, t.nodup.filter _, (filter_sublist.map _).nodup m.nodup⟩

/-- **A full verification is exact.**  For every manifest and every target that can be read, `Verify` in full
mode reports as many problems as keys are missing, surplus or different, each counted once, and lists the
first 500 of them; it reports success if and only if the target has the keys of the manifest and no
others, and every object has the checksum of the manifest. -/
theorem full_verify_exact (hash : C → S) (size : C → Nat) (m : Manifest S) (t : Target C)
    (shuffled : List (Entry S)) :
    ∃ r, verify hash size (.ok (t.objects.map fun o ↦ (o.1, size o.2))) t.opened (fun _ ↦ none)
        shuffled m.entries .full = .ok r ∧
      r.problemsTotal = (missing m t).length + (surplus m t).length + (differing hash m t).length ∧
      ((missing m t).Nodup ∧ (surplus m t).Nodup ∧ (differing hash m t).Nodup) ∧
      r.problems.length = min 500 r.problemsTotal ∧
      (r.ok = true ↔ (∀ k, k ∈ t.keys ↔ k ∈ m.keys) ∧
        ∀ e ∈ m.entries, ∃ c, t.get e.key = some c ∧ hash c = e.sum) := by
  have hstop : (byKey m.entries).findSome? (fun _ ↦ (none : Option String)) = none := by simp
  have hmode : VerifyMode.full ≠ .sample := by decide
  have htotal : (fullProblems hash size m t ++ []).length =
      (missing m t).length + (surplus m t).length + (differing hash m t).length := by
    rw [append_nil, length_fullProblems]
  refine ⟨_, by
    simp only [verify, validVerifyMode, Except.mapError, bind, Except.bind, hmode, hstop, decide_true,
      Bool.true_or, Bool.true_eq_false, if_false]
    rfl, htotal, nodup_problems hash, length_take, ?_⟩
  exact decide_eq_true_iff.trans (htotal ▸ no_problem_iff hash)

end Exact

end Dylaris.Migration
