import Mathlib.Data.List.AList
import Mathlib.Data.List.Sort

/-!
# Whether all Cores share a storage

`core/services/storagereach/aggregate.go`.  In a round every Core writes a beacon to the storage, looks for
the others' beacons and reports.  `Aggregate` gives each participant a verdict and says whether the round
proves that they share the storage.

A peer whose beacon carries another fingerprint counts as seen for the Core that names it, and is convicted
by that Core's report.  So a round that is `OK` has no such peer, and all the beacons that count as seen in
it were (`aggregate_ok_iff`).
-/

set_option autoImplicit false

namespace Dylaris.Storagereach

open List

inductive Status
  | ok
  | noResponse
  | unreachable
  | writeDenied
  | notShared
  | crossWriteDenied
  | fingerprintMismatch
deriving DecidableEq, Repr

structure Report where
  fingerprint : String
  reachable : Bool := true
  wrote : Bool := true
  writeErr : String := ""
  seenPeers : List String := []
  mismatchedPeers : List String := []
  crossWriteDenied : List String := []

structure CoreResult where
  coreID : String
  status : Status
  missingPeers : List String := []
  deniedPeers : List String := []
  detail : String := ""
deriving DecidableEq, Repr

structure RoundResult where
  fingerprint : String
  ok : Bool
  confirmed : Nat
  total : Nat
  results : List CoreResult
  done : Bool
deriving DecidableEq, Repr

/-- `map[string]Report`. -/
abbrev Reports := AList fun _ : String ↦ Report

variable (participants : List String) (reports : Reports) (fingerprint : String)

/-- The peers that a participant on the round's storage has found on another one. -/
def mismatchedByPeer : List String :=
  reports.entries.flatMap fun r ↦
    if r.1 ∈ participants ∧ r.2.fingerprint = fingerprint then r.2.mismatchedPeers else []

def missingFrom (self : String) (seen : List String) : List String :=
  (participants.filter fun p ↦ ¬ (p = self ∨ p ∈ seen)).mergeSort (decide <| · ≤ ·)

/-- The verdict on one participant. -/
def verdict (id : String) : CoreResult :=
  let mismatched := id ∈ mismatchedByPeer participants reports fingerprint
  match reports.lookup id with
  | none => ⟨id, if mismatched then .fingerprintMismatch else .noResponse, [], [], ""⟩
  | some rep =>
    let missing := missingFrom participants id (rep.seenPeers ++ rep.mismatchedPeers)
    if rep.fingerprint ≠ fingerprint ∨ mismatched then ⟨id, .fingerprintMismatch, [], [], ""⟩
    else if !rep.reachable then ⟨id, .unreachable, [], [], rep.writeErr⟩
    else if !rep.wrote then ⟨id, .writeDenied, [], [], rep.writeErr⟩
    else if missing ≠ [] then ⟨id, .notShared, missing, [], ""⟩
    else if rep.crossWriteDenied ≠ [] then ⟨id, .crossWriteDenied, [], rep.crossWriteDenied, ""⟩
    else ⟨id, .ok, [], [], ""⟩

/-- `Aggregate`. -/
def aggregate (done : Bool) : RoundResult :=
  let results := participants.map (verdict participants reports fingerprint)
  let confirmed := results.countP (·.status = .ok)
  { fingerprint
    ok := done && confirmed == participants.length && !participants.isEmpty
    confirmed
    total := participants.length
    results := results.mergeSort (decide <| ·.coreID ≤ ·.coreID)
    done }

variable {participants reports fingerprint}

theorem mem_mismatchedByPeer {id : String} :
    id ∈ mismatchedByPeer participants reports fingerprint ↔ ∃ p ∈ participants, ∃ rep,
      reports.lookup p = some rep ∧ rep.fingerprint = fingerprint ∧ id ∈ rep.mismatchedPeers := by
  rw [mismatchedByPeer, mem_flatMap]
  constructor
  · rintro ⟨⟨p, rep⟩, hmem, hid⟩
    split at hid
    · rename_i hvalid
      exact ⟨p, hvalid.1, rep, AList.mem_lookup_iff.mpr hmem, hvalid.2, hid⟩
    · cases hid
  · rintro ⟨p, hp, rep, hrep, hfp, hid⟩
    exact ⟨⟨p, rep⟩, AList.mem_lookup_iff.mp hrep, by rwa [if_pos ⟨hp, hfp⟩]⟩

theorem missingFrom_eq_nil {self : String} {seen : List String} :
    missingFrom participants self seen = [] ↔ ∀ p ∈ participants, p ≠ self → p ∈ seen := by
  rw [missingFrom, ← length_eq_zero_iff, length_mergeSort, length_eq_zero_iff, filter_eq_nil_iff]
  simp only [decide_eq_true_eq, not_not, ne_eq, or_iff_not_imp_left]

/-- What a participant has to report. -/
structure Confirmed (participants : List String) (reports : Reports) (fingerprint id : String)
    (rep : Report) : Prop where
  reported : reports.lookup id = some rep
  fingerprint_eq : rep.fingerprint = fingerprint
  reachable : rep.reachable = true
  wrote : rep.wrote = true
  allowed : rep.crossWriteDenied = []
  unnamed : ∀ p ∈ participants, ∀ r, reports.lookup p = some r → r.fingerprint = fingerprint →
    id ∉ r.mismatchedPeers

theorem verdict_ok_iff {id : String} :
    (verdict participants reports fingerprint id).status = .ok ↔
      ∃ rep, Confirmed participants reports fingerprint id rep ∧
        ∀ p ∈ participants, p ≠ id → p ∈ rep.seenPeers ++ rep.mismatchedPeers := by
  have hunnamed : id ∉ mismatchedByPeer participants reports fingerprint ↔
      ∀ p ∈ participants, ∀ r, reports.lookup p = some r → r.fingerprint = fingerprint →
        id ∉ r.mismatchedPeers := by
    rw [mem_mismatchedByPeer]
    push Not
    rfl
  constructor
  · fun_cases verdict participants reports fingerprint id
    · split <;> simp
    · simp
    · simp
    · simp
    · simp
    · simp
    next rep hrep missing hmatch hreach hwrote hmissing hdenied =>
      intro _
      rw [not_or, not_not, hunnamed] at hmatch
      exact ⟨rep, ⟨hrep, hmatch.1, by simpa using hreach, by simpa using hwrote, not_not.mp hdenied,
        hmatch.2⟩, missingFrom_eq_nil.mp (not_not.mp hmissing)⟩
  · rintro ⟨rep, h, hseen⟩
    simp [verdict, h.reported, h.fingerprint_eq, hunnamed.mpr h.unnamed, h.reachable, h.wrote, h.allowed,
      missingFrom_eq_nil.mpr hseen]

/-- **A round proves sharing**: it is `OK` if and only if it is done, somebody takes part, and every
participant reports the round's fingerprint, has reached the storage and written to it, is denied no write,
is found on another storage by no participant on this one, and has seen the beacon of every other. -/
theorem aggregate_ok_iff {done : Bool} :
    (aggregate participants reports fingerprint done).ok = true ↔
      done = true ∧ participants ≠ [] ∧ ∀ id ∈ participants, ∃ rep,
        Confirmed participants reports fingerprint id rep ∧
          ∀ p ∈ participants, p ≠ id → p ∈ rep.seenPeers := by
  have hall : (∀ id ∈ participants, (verdict participants reports fingerprint id).status = .ok) ↔
      ∀ id ∈ participants, ∃ rep, Confirmed participants reports fingerprint id rep ∧
        ∀ p ∈ participants, p ≠ id → p ∈ rep.seenPeers := by
    simp only [verdict_ok_iff]
    constructor
    · intro h id hid
      obtain ⟨rep, hrep, hseen⟩ := h id hid
      refine ⟨rep, hrep, fun p hp hne ↦ ?_⟩
      -- Who is named with another fingerprint is convicted, and every participant is confirmed.
      obtain ⟨_, hpeer, -⟩ := h p hp
      exact (mem_append.mp (hseen p hp hne)).resolve_right
        (hpeer.unnamed id hid rep hrep.reported hrep.fingerprint_eq)
    · intro h id hid
      obtain ⟨rep, hrep, hseen⟩ := h id hid
      exact ⟨rep, hrep, fun p hp hne ↦ mem_append_left _ (hseen p hp hne)⟩
  have hcount : (aggregate participants reports fingerprint done).confirmed = participants.length ↔
      ∀ id ∈ participants, (verdict participants reports fingerprint id).status = .ok := by
    rw [aggregate, countP_map, countP_eq_length]
    simp
  rw [← hall, ← hcount, aggregate]
  simp [and_comm, and_left_comm]

end Dylaris.Storagereach
