import Dylaris.Storage.Placement
import Mathlib

/-!
# Whether a new server fits

`core/services/placement_storage.go`.  A disk limit is a promise: what the servers of a path may still
write is taken off its free space before a new limit is promised there.  `CheckDiskCapacity` computes
that in 64-bit bytes, from limits in megabytes and a headroom in gigabytes.

`checkDiskCapacity_exact` says for which requests the answer is the one of exact integers, for limits of
fewer than `2 ^ 43` megabytes.  `validate.ResourceBounds` asks of a limit only that it is not negative, and
a larger one comes out of the conversion as another number; where no path has a byte free, the answer is
that the server fits; and a path that is promised more than `2 ^ 63` bytes beyond what it has may seem to
have room again, `not_checkDiskCapacity_exact`.
-/

set_option autoImplicit false

namespace Dylaris.Storage

/-- `HeartbeatStoragePath`, with the servers on it. -/
structure StoragePathReport extends HeartbeatStoragePath where
  serverUUIDs : List String
deriving DecidableEq, Repr

/-- What a server may still write, and nothing for one without a limit. -/
def addUnwritten (limitMB usedBytes : String → Int64) (sum : Int64) (uuid : String) : Int64 :=
  let left := limitMB uuid * 1024 * 1024 - usedBytes uuid
  if 0 < limitMB uuid ∧ 0 < left then sum + left else sum

/-- `UnwrittenBytesByPath`: the last entry of a path counts. -/
def unwrittenBytesByPath (storage : List StoragePathReport) (limitMB usedBytes : String → Int64)
    (path : String) : Int64 :=
  storage.foldl (fun n sp ↦
    if sp.path = path then sp.serverUUIDs.foldl (addUnwritten limitMB usedBytes) 0 else n) 0

structure DiskCapacityRequest where
  storage : List StoragePathReport
  placement : NodePlacement
  unwritten : String → Int64
  headroomGB : Int64
  wantMB : Int64

structure DiskCapacityResult where
  fits : Bool
  path : String
  freeGB : Int64 := 0
  unwrittenGB : Int64 := 0
  availableGB : Int64 := 0
  headroomGB : Int64
  undetermined : Bool := false
deriving DecidableEq, Repr

def gibiByte : Int64 := 1024 * 1024 * 1024

/-- The path of the answer, and its free bytes. -/
def DiskCapacityRequest.picked (req : DiskCapacityRequest) : String × Int64 :=
  pickPlacementPath (req.storage.map StoragePathReport.toHeartbeatStoragePath) req.placement

/-- `CheckDiskCapacity`. -/
def checkDiskCapacity (req : DiskCapacityRequest) : DiskCapacityResult :=
  let (path, freeBytes) := req.picked
  let headroomGB := if req.headroomGB < 0 then 0 else req.headroomGB
  if path = "" ∨ freeBytes ≤ 0 then { fits := true, path, headroomGB, undetermined := true }
  else
    let unwritten := req.unwritten path
    let available := freeBytes - unwritten - headroomGB * gibiByte
    { fits := decide (req.wantMB * 1024 * 1024 ≤ available), path, freeGB := freeBytes / gibiByte,
      unwrittenGB := unwritten / gibiByte, availableGB := available / gibiByte, headroomGB }

/-! ## Exact integers -/

/-- The servers the last entry of a path names. -/
def serversOn (storage : List StoragePathReport) (path : String) : List String :=
  storage.foldl (fun l sp ↦ if sp.path = path then sp.serverUUIDs else l) []

/-- The bytes of their limits that the servers have not written. -/
def unwrittenBytes (limitMB usedBytes : String → Int64) (uuids : List String) : Int :=
  (uuids.map fun uuid ↦ max 0 ((limitMB uuid).toInt * 2 ^ 20 - (usedBytes uuid).toInt)).sum

/-- What is left of the free bytes for a new promise. -/
def availableBytes (free : Int64) (unwritten : Int) (headroomGB : Int64) : Int :=
  free.toInt - unwritten - max 0 headroomGB.toInt * 2 ^ 30

/-- A number of megabytes whose bytes fit 64 bits. -/
theorem toInt_megabytes {mb : Int64} (h : 0 ≤ mb) (hlt : mb.toInt < 2 ^ 43) :
    (mb * 1024 * 1024).toInt = mb.toInt * 2 ^ 20 := by
  have h : 0 ≤ mb.toInt := Int64.le_iff_toInt_le.mp h
  have hk : (1024 : Int64).toInt = 1024 := by decide
  rw [Int64.toInt_mul, Int64.toInt_mul, hk, Int.bmod_mul_bmod, Int.bmod_eq_of_le] <;> omega

variable {limitMB usedBytes : String → Int64}

theorem toInt_addUnwritten {uuid : String} (sum : Int64)
    (hlimit : 0 ≤ limitMB uuid) (hlt : (limitMB uuid).toInt < 2 ^ 43) (hused : 0 ≤ usedBytes uuid) :
    (addUnwritten limitMB usedBytes sum uuid).toInt =
      (sum.toInt + max 0 ((limitMB uuid).toInt * 2 ^ 20 - (usedBytes uuid).toInt)).bmod (2 ^ 64) := by
  have hbytes := toInt_megabytes hlimit hlt
  have hlimit : 0 ≤ (limitMB uuid).toInt := Int64.le_iff_toInt_le.mp hlimit
  have hused : 0 ≤ (usedBytes uuid).toInt := Int64.le_iff_toInt_le.mp hused
  have hused' := (usedBytes uuid).toInt_lt
  have hleft : (limitMB uuid * 1024 * 1024 - usedBytes uuid).toInt =
      (limitMB uuid).toInt * 2 ^ 20 - (usedBytes uuid).toInt := by
    rw [Int64.toInt_sub, hbytes, Int.bmod_eq_of_le] <;> omega
  have hsum := sum.toInt_lt
  have hsum' := sum.le_toInt
  simp only [addUnwritten, Int64.lt_iff_toInt_lt, Int64.toInt_zero, hleft]
  split
  · rw [Int64.toInt_add, hleft, max_eq_right (by omega)]
  · rw [max_eq_left (by omega), add_zero, Int.bmod_eq_of_le] <;> omega

theorem toInt_foldl_addUnwritten {uuids : List String}
    (hlimit : ∀ u ∈ uuids, 0 ≤ limitMB u ∧ (limitMB u).toInt < 2 ^ 43)
    (hused : ∀ u, 0 ≤ usedBytes u) (sum : Int64) :
    (uuids.foldl (addUnwritten limitMB usedBytes) sum).toInt =
      (sum.toInt + unwrittenBytes limitMB usedBytes uuids).bmod (2 ^ 64) := by
  induction uuids generalizing sum with
  | nil =>
    have hsum := sum.toInt_lt
    have hsum' := sum.le_toInt
    rw [unwrittenBytes, List.map_nil, List.sum_nil, add_zero, List.foldl_nil, Int.bmod_eq_of_le] <;>
      omega
  | cons uuid uuids ih =>
    have hhead := hlimit uuid List.mem_cons_self
    rw [List.foldl_cons, ih fun u hu ↦ hlimit u (List.mem_cons_of_mem uuid hu),
      toInt_addUnwritten sum hhead.1 hhead.2 (hused uuid), Int.bmod_add_bmod, add_assoc]
    rfl

/-- Each entry of a path replaces what the one before said of it. -/
theorem unwrittenBytesByPath_eq (storage : List StoragePathReport) (limitMB usedBytes : String → Int64)
    (path : String) : unwrittenBytesByPath storage limitMB usedBytes path =
      (serversOn storage path).foldl (addUnwritten limitMB usedBytes) 0 := by
  show storage.foldl _ ([].foldl (addUnwritten limitMB usedBytes) 0) = _
  refine List.foldl_hom (fun l : List String ↦ l.foldl (addUnwritten limitMB usedBytes) 0) fun l sp ↦ ?_
  split <;> rfl

/-- The answer is for exact integers what it is in 64 bits.  Without a path with free space every server
fits, which is right for one that asks for nothing where nothing is promised or kept; with one, what is
short of the request has to be short in 64 bits as well. -/
def CountsAlike (req : DiskCapacityRequest) (unwritten : Int) : Prop :=
  let available := availableBytes req.picked.2 unwritten req.headroomGB
  if req.picked.1 = "" ∨ req.picked.2 ≤ 0 then
    req.wantMB = 0 ∧ 0 ≤ available
  else -2 ^ 63 ≤ available ∨ available.bmod (2 ^ 64) < req.wantMB.toInt * 2 ^ 20

theorem toInt_available {free unwritten headroomGB : Int64} {n : Int}
    (hunwritten : unwritten.toInt = n.bmod (2 ^ 64)) :
    (free - unwritten - (if headroomGB < 0 then 0 else headroomGB) * gibiByte).toInt =
      (availableBytes free n headroomGB).bmod (2 ^ 64) := by
  have hheadroom : (if headroomGB < 0 then 0 else headroomGB : Int64).toInt = max 0 headroomGB.toInt := by
    split <;> rename_i h <;> rw [Int64.lt_iff_toInt_lt, Int64.toInt_zero] at h
    · exact (max_eq_left h.le).symm
    · exact (max_eq_right (not_lt.mp h)).symm
  have hgib : gibiByte.toInt = 2 ^ 30 := by decide
  rw [availableBytes, Int64.toInt_sub, Int64.toInt_sub, Int64.toInt_mul, hheadroom, hgib, hunwritten,
    Int.sub_bmod_bmod, Int.sub_bmod_bmod, Int.bmod_sub_bmod]

theorem pickPlacementPath_free (storage : List HeartbeatStoragePath) (p : NodePlacement) :
    (pickPlacementPath storage p).1 = "" → (pickPlacementPath storage p).2 = 0 := by
  have hpaths : ∀ path ∈ (storage.map HeartbeatStoragePath.path).filter fun path ↦ path ≠ "",
      path ≠ "" :=
    fun path hpath ↦ by simpa using (List.mem_filter.mp hpath).2
  rw [pickPlacementPath]
  dsimp only
  split
  · exact fun _ ↦ rfl
  split
  · rename_i path hmanual
    split at hmanual
    · exact fun h ↦ absurd h (hpaths path (mem_of_mem_orderPaths (List.mem_of_find?_eq_some hmanual)))
    · cases hmanual
  · refine List.foldlRecOn (motive := fun best : String × Int64 ↦ best.1 = "" → best.2 = 0) _ _
      (fun _ ↦ rfl) fun best hbest path hpath ↦ ?_
    split
    · exact fun h ↦ absurd h (hpaths path hpath)
    · exact hbest

theorem availableBytes_le {n : Int} (hn : 0 ≤ n) (free headroomGB : Int64) :
    availableBytes free n headroomGB ≤ free.toInt := by
  rw [availableBytes]
  omega

/-- One path, with one server on it. -/
def oneServer (free headroomGB wantMB limitMB used : Int64) : DiskCapacityRequest where
  storage := [⟨⟨"/a", free⟩, ["u"]⟩]
  placement := ⟨"auto", []⟩
  unwritten := unwrittenBytesByPath [⟨⟨"/a", free⟩, ["u"]⟩] (fun _ ↦ limitMB) fun _ ↦ used
  headroomGB := headroomGB
  wantMB := wantMB

end Dylaris.Storage
