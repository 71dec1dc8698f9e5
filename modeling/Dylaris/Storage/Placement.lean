import Mathlib.Data.List.Find
import Mathlib.Algebra.GroupWithZero.Nat

/-!
# Which disk a new server goes to

Core checks whether a node has room for a new server on the path the node will choose, so it has to
know which one that is.  The node chooses with `selectStoragePath`, from the free space it reads; Core
predicts with `pickPlacementPath`, from the node's heartbeat.  The two share the ordering of the
paths, `orderPaths`, and nothing else.

`selectStoragePath_eq`: the prediction is exact.
-/

set_option autoImplicit false

namespace Dylaris.Storage

open List Option

/-! ## The shared rule -/

def modeAuto : String := "auto"

def modeManual : String := "manual"

/-- `NormalizeMode`. -/
def normalizeMode (mode : String) : String := if mode = modeManual then modeManual else modeAuto

/-- `OrderPaths`: what the operator's order names, then the rest; each path once. -/
def orderPaths (available order : List String) : List String :=
  let named := order.foldl
    (fun out want ↦ if available.contains want && !out.contains want then out ++ [want] else out) []
  available.foldl (fun out p ↦ if out.contains p then out else out ++ [p]) named

/-! ## The node -/

/-- The paths of the node are absolute (`filepath.Abs`), so none is empty. -/
structure StorageManager where
  paths : List String
  placementMode : String := ""
  placementOrder : List String := []
  absolute : "" ∉ paths

/-- `SetPlacement`. -/
def StorageManager.setPlacement (sm : StorageManager) (mode : String) (order : List String) :
    StorageManager :=
  { sm with placementMode := normalizeMode mode, placementOrder := order }

namespace StorageManager

variable (sm : StorageManager) (free : String → UInt64)

def orderedPaths : List String := orderPaths sm.paths sm.placementOrder

/-- `pickByPriority`: the first usable path of the order, or the empty string. -/
def pickByPriority : String := (sm.orderedPaths.find? fun p ↦ 0 < free p).getD ""

/-- The path with the most free space, with that. -/
def mostFree : String × UInt64 :=
  sm.paths.foldl (fun best p ↦ if best.2 < free p then (p, free p) else best) ("", 0)

/-- The storage keys of the servers. -/
abbrev Keys := String → Option String

/-- `assignPath`.  `mkdir` is the error of creating the server's directory; the key is not written if
Redis fails, which is only logged. -/
def assignPath (mkdir : String → Option String) (stored : Bool) (keys : Keys)
    (serverUUID storagePath : String) : Except String String × Keys :=
  match mkdir (storagePath ++ "/" ++ serverUUID) with
  | some err => (.error ("failed to create server directory: " ++ err), keys)
  | none => (.ok storagePath,
      if stored then Function.update keys serverUUID (some storagePath) else keys)

/-- `SelectStoragePath`. -/
def selectStoragePath (mkdir : String → Option String) (stored : Bool) (keys : Keys)
    (serverUUID preferredPath : String) : Except String String × Keys :=
  if preferredPath ≠ "" then
    if sm.paths.contains preferredPath then assignPath mkdir stored keys serverUUID preferredPath
    else (.error ("preferred path \"" ++ preferredPath ++ "\" not available"), keys)
  else if sm.placementMode = modeManual ∧ sm.pickByPriority free ≠ "" then
    assignPath mkdir stored keys serverUUID (sm.pickByPriority free)
  else
    let bestPath := (sm.mostFree free).1
    if bestPath = "" then (.error "no storage paths available", keys)
    else assignPath mkdir stored keys serverUUID bestPath

end StorageManager

/-! ## Core -/

/-- `HeartbeatStoragePath`, as far as it is read here. -/
structure HeartbeatStoragePath where
  path : String
  freeBytes : Int64
deriving DecidableEq, Repr

structure NodePlacement where
  mode : String
  order : List String
deriving DecidableEq, Repr

/-- The `free` map of `PickPlacementPath`: the last entry of a path counts, and a missing one is 0. -/
def freeBytesOf (storage : List HeartbeatStoragePath) (path : String) : Int64 :=
  storage.foldl (fun n sp ↦ if sp.path ≠ "" ∧ sp.path = path then sp.freeBytes else n) 0

/-- `PickPlacementPath`. -/
def pickPlacementPath (storage : List HeartbeatStoragePath) (p : NodePlacement) : String × Int64 :=
  let free := freeBytesOf storage
  let paths := (storage.map HeartbeatStoragePath.path).filter fun path ↦ path ≠ ""
  if paths = [] then ("", 0)
  else
    let manual := if normalizeMode p.mode = modeManual then
      (orderPaths paths p.order).find? fun path ↦ 0 < free path else none
    match manual with
    | some path => (path, free path)
    | none =>
      paths.foldl (fun best path ↦ if best.2 < free path then (path, free path) else best) ("", 0)

/-- The heartbeat of a node that reads this free space. -/
def StorageManager.heartbeat (sm : StorageManager) (free : String → UInt64) :
    List HeartbeatStoragePath :=
  sm.paths.map fun p ↦ ⟨p, Int64.ofNat (free p).toNat⟩

/-! ## The prediction -/

variable {p : String}

theorem mem_of_mem_orderPaths {available order : List String}
    (h : p ∈ orderPaths available order) : p ∈ available := by
  have hwanted := foldlRecOn (motive := fun out ↦ ∀ r ∈ out, r ∈ available) (b := []) order
    (fun out want ↦ if available.contains want && !out.contains want then out ++ [want] else out)
    (by simp) fun out hout want _ r hr ↦ ?_
  · refine foldlRecOn (motive := fun out ↦ ∀ r ∈ out, r ∈ available) available _ hwanted
      (fun out hout q hq r hr ↦ ?_) p h
    split at hr
    · exact hout r hr
    · rcases mem_append.mp hr with hr | hr
      · exact hout r hr
      · exact mem_singleton.mp hr ▸ hq
  · split at hr
    · rename_i hwant
      rw [Bool.and_eq_true, contains_iff_mem] at hwant
      rcases mem_append.mp hr with hr | hr
      · exact hout r hr
      · exact mem_singleton.mp hr ▸ hwant.1
    · exact hout r hr

section Prediction

variable {sm : StorageManager} {free : String → UInt64}

theorem paths_heartbeat : (sm.heartbeat free).map HeartbeatStoragePath.path = sm.paths := by
  rw [StorageManager.heartbeat, List.map_map]
  exact List.map_id _

theorem filter_paths : (sm.paths.filter fun path ↦ path ≠ "") = sm.paths := by
  rw [filter_eq_self]
  intro p hp
  have hne : p ≠ "" := fun h ↦ sm.absolute (h ▸ hp)
  simpa using hne

/-- Core has the node's reading of every path. -/
theorem freeBytesOf_heartbeat (hp : p ∈ sm.paths) :
    freeBytesOf (sm.heartbeat free) p = Int64.ofNat (free p).toNat := by
  have hne : p ≠ "" := fun h ↦ sm.absolute (h ▸ hp)
  have hfold : ∀ (paths : List String) (n : Int64), p ∈ paths ∨ n = Int64.ofNat (free p).toNat →
      (paths.map fun q ↦ (⟨q, Int64.ofNat (free q).toNat⟩ : HeartbeatStoragePath)).foldl
        (fun n sp ↦ if sp.path ≠ "" ∧ sp.path = p then sp.freeBytes else n) n
        = Int64.ofNat (free p).toNat := by
    intro paths
    induction paths with
    | nil => simp
    | cons q paths ih =>
      intro n h
      refine ih _ ?_
      by_cases hq : q = p
      · subst hq
        simp [hne]
      · rcases h with h | h
        · exact .inl ((mem_cons.mp h).resolve_left (Ne.symm hq))
        · simp [hq, h]
  exact hfold sm.paths 0 (.inl hp)

/-- Readings below `2 ^ 63` compare as the numbers Core has for them do. -/
theorem lt_iff_of_lt {a b : UInt64} (ha : a.toNat < 2 ^ 63) (hb : b.toNat < 2 ^ 63) :
    Int64.ofNat a.toNat < Int64.ofNat b.toNat ↔ a < b := by
  rw [Int64.lt_iff_toInt_lt, Int64.toInt_ofNat_of_lt ha, Int64.toInt_ofNat_of_lt hb,
    UInt64.lt_iff_toNat_lt]
  omega

/-- The loop over the free space finds the same path on both sides. -/
theorem foldl_mostFree {n : String → Int64} {paths : List String}
    (hn : ∀ p ∈ paths, n p = Int64.ofNat (free p).toNat)
    (hfree : ∀ p ∈ paths, (free p).toNat < 2 ^ 63) (best : String × UInt64)
    (hbest : best.2.toNat < 2 ^ 63) :
    paths.foldl (fun best path ↦ if best.2 < n path then (path, n path) else best)
        (best.1, Int64.ofNat best.2.toNat)
      = ((paths.foldl (fun best p ↦ if best.2 < free p then (p, free p) else best) best).1,
        Int64.ofNat
          (paths.foldl (fun best p ↦ if best.2 < free p then (p, free p) else best) best).2.toNat) := by
  induction paths generalizing best with
  | nil => rfl
  | cons p paths ih =>
    have hp := hfree p mem_cons_self
    have hrest := ih (fun q hq ↦ hn q (mem_cons_of_mem p hq))
      fun q hq ↦ hfree q (mem_cons_of_mem p hq)
    rw [foldl_cons, foldl_cons, hn p mem_cons_self]
    by_cases hlt : best.2 < free p
    · rw [if_pos hlt, if_pos ((lt_iff_of_lt hbest hp).mpr hlt)]
      exact hrest (p, free p) hp
    · rw [if_neg hlt, if_neg (mt (lt_iff_of_lt hbest hp).mp hlt)]
      exact hrest best hbest

/-- The first usable path of the order is the same on both sides. -/
theorem find?_orderPaths (hfree : ∀ p ∈ sm.paths, (free p).toNat < 2 ^ 63) (order : List String) :
    (orderPaths sm.paths order).find? (fun path ↦ 0 < freeBytesOf (sm.heartbeat free) path)
      = (orderPaths sm.paths order).find? fun p ↦ 0 < free p := by
  refine find?_congr fun p hp ↦ ?_
  have hmem := mem_of_mem_orderPaths hp
  have hlt := lt_iff_of_lt (a := 0) (by decide) (hfree p hmem)
  rw [freeBytesOf_heartbeat hmem]
  exact decide_eq_decide.mpr hlt

/-- A path of the node is never the empty string, which stands for none. -/
theorem pickByPriority_eq_some (h : sm.orderedPaths.find? (fun p ↦ 0 < free p) = some p) :
    sm.pickByPriority free = p ∧ p ≠ "" := by
  refine ⟨by rw [StorageManager.pickByPriority, h, getD_some], ?_⟩
  rintro rfl
  exact sm.absolute (mem_of_mem_orderPaths (mem_of_find?_eq_some h))

/-- Core's pick, in the node's words. -/
theorem pickPlacementPath_eq (hfree : ∀ p ∈ sm.paths, (free p).toNat < 2 ^ 63) (mode : String)
    (order : List String) : (pickPlacementPath (sm.heartbeat free) ⟨mode, order⟩).1 =
      if normalizeMode mode = modeManual ∧ (sm.setPlacement mode order).pickByPriority free ≠ "" then
        (sm.setPlacement mode order).pickByPriority free
      else ((sm.setPlacement mode order).mostFree free).1 := by
  have hmost := foldl_mostFree (fun p hp ↦ freeBytesOf_heartbeat hp) hfree ("", 0) (by decide)
  have hfind := find?_orderPaths hfree order
  rw [pickPlacementPath]
  simp only [paths_heartbeat, filter_paths, hfind]
  split
  · rename_i hnil
    have hnone : (sm.setPlacement mode order).pickByPriority free = "" := by
      rw [StorageManager.pickByPriority, find?_eq_none.mpr, getD_none]
      intro p hp
      have hmem : p ∈ sm.paths := mem_of_mem_orderPaths hp
      rw [hnil] at hmem
      cases hmem
    rw [hnone, if_neg (by simp), StorageManager.mostFree, StorageManager.setPlacement, hnil]
    rfl
  · by_cases hmode : normalizeMode mode = modeManual
    · rw [if_pos hmode]
      cases hp : (orderPaths sm.paths order).find? (fun p ↦ 0 < free p) with
      | some p =>
        have hpick : (sm.setPlacement mode order).pickByPriority free = p ∧ p ≠ "" :=
          pickByPriority_eq_some hp
        rw [hpick.1, if_pos ⟨hmode, hpick.2⟩]
      | none =>
        have hnone : (sm.setPlacement mode order).pickByPriority free = "" := by
          rw [StorageManager.pickByPriority]
          exact congrArg (Option.getD · "") hp
        rw [hnone, if_neg (by simp)]
        exact congrArg Prod.fst hmost
    · rw [if_neg hmode, if_neg (fun h ↦ hmode h.1)]
      exact congrArg Prod.fst hmost

end Prediction

open StorageManager in
/-- **Core predicts the node's disk.**  For every list of paths, reading of their free space below
`2 ^ 63`, mode and order, the node places a new server on the path that Core picks from its heartbeat;
where Core picks none, it refuses. -/
theorem selectStoragePath_eq (sm : StorageManager) (free : String → UInt64)
    (hfree : ∀ p ∈ sm.paths, (free p).toNat < 2 ^ 63) (mode : String) (order : List String)
    (mkdir : String → Option String) (stored : Bool) (keys : Keys) (serverUUID : String) :
    (sm.setPlacement mode order).selectStoragePath free mkdir stored keys serverUUID "" =
      if (pickPlacementPath (sm.heartbeat free) ⟨mode, order⟩).1 = "" then
        (.error "no storage paths available", keys)
      else assignPath mkdir stored keys serverUUID
        (pickPlacementPath (sm.heartbeat free) ⟨mode, order⟩).1 := by
  rw [selectStoragePath, if_neg (by simp), pickPlacementPath_eq hfree]
  have hmode : (sm.setPlacement mode order).placementMode = normalizeMode mode := rfl
  rw [hmode]
  split
  · rename_i hmanual
    rw [if_neg hmanual.2]
  · rfl

/-- Two disks, the fuller of which the operator prefers. -/
theorem selectStoragePath_eq_preferred :
    let sm : StorageManager := { paths := ["/a", "/b"], absolute := by decide }
    let free : String → UInt64 := fun p ↦ if p = "/a" then 5 else 7
    (∀ p ∈ sm.paths, (free p).toNat < 2 ^ 63) ∧
      (pickPlacementPath (sm.heartbeat free) ⟨"manual", ["/c", "/a", "/a"]⟩).1 = "/a" ∧
      (sm.setPlacement "manual" ["/c", "/a", "/a"]).selectStoragePath free (fun _ ↦ none) true
        (fun _ ↦ none) "u" "" =
          StorageManager.assignPath (fun _ ↦ none) true (fun _ ↦ none) "u" "/a" := by
  refine ⟨by decide +kernel, by decide +kernel, ?_⟩
  rw [selectStoragePath_eq _ _ (by decide +kernel)]
  rfl

end Dylaris.Storage
