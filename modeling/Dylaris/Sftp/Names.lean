import Dylaris.Archive.Contained
import Dylaris.RedisAcl.Rules
import Mathlib.Data.List.Perm.Subperm

/-!
# The names of the servers in an SFTP session

`newServerSet` and `resolve` of `node/sftp_server.go`.  A session lists the servers of an account under
names, and a path begins with one.  A name that several servers have is shown with the first eight bytes
of the server's id.  The panel's ids begin with the owner's, so two servers of one owner that share a name
have one name in the session too, and the later hides the earlier (`not_sftp_names_apart`).

What is on the disk enters through two parameters: the storage path of a server, and `linkStaysWithin`.
-/

set_option autoImplicit false

namespace Dylaris.Sftp

open List Text Fields Disk Archive RedisAcl

structure ServerRef where
  uuid : Text
  name : Text
deriving DecidableEq, Repr

/-- `validate.ServerName`: `^[a-zA-Z0-9][a-zA-Z0-9 \-+_]{0,49}$`. -/
def isServerName : Text → Bool
  | [] => false
  | b :: t => isAlnum b && t.length ≤ 49 && t.all fun c ↦ isAlnum c || [0x20, 0x2D, 0x2B, 0x5F].contains c

/-- The name a server is listed under. -/
def listedName (servers : List ServerRef) (s : ServerRef) : Text :=
  if 1 < servers.countP (·.name = s.name) ∨ s.name = [] ∨ 0x2F ∈ s.name ∨ 0x5C ∈ s.name then
    (s.name.map fun b ↦ if b = 0x2F ∨ b = 0x5C then 0x5F else b) ++ lit " (" ++ s.uuid.take 8 ++ lit ")"
  else s.name

def newServerSet (servers : List ServerRef) : List ServerRef :=
  servers.map fun s ↦ { s with name := listedName servers s }

/-- `nameToRef`: the last one of a name stays. -/
def nameToRef (set : List ServerRef) (name : Text) : Option ServerRef := set.reverse.find? (·.name = name)

inductive SftpError
  | notExist
  | permission
deriving DecidableEq, Repr

variable (base : Text → List Text)

/-- `GetServerDir`, with the storage path that `GetServerPath` gives. -/
def getServerDir (uuid : Text) : List Text := cleanComps (base uuid ++ [uuid])

/-- `resolve`; the root is no server's. -/
def resolve (linkStaysWithin : List Text → List Text → Bool) (set : List ServerRef) (path : Text) :
    Except SftpError (Option (List Text × List Text × ServerRef)) :=
  match cleanComps (splitPath path) with
  | [] => .ok none
  | serverName :: rel =>
    match nameToRef set serverName with
    | none => .error .notExist
    | some ref =>
      let dir := getServerDir base ref.uuid
      let full := cleanComps (dir ++ rel)
      if rel = [] then .ok (some (dir, [], ref))
      else if linkStaysWithin dir full then .ok (some (full, rel, ref))
      else .error .permission

/-- Servers of one name have ids that begin differently. -/
def Apart (servers : List ServerRef) : Prop :=
  servers.Pairwise fun a b ↦ a.name = b.name → a.uuid.take 8 ≠ b.uuid.take 8

instance (servers : List ServerRef) : Decidable (Apart servers) :=
  inferInstanceAs (Decidable (Pairwise _ _))

/-! ## Names -/

variable {base} {servers : List ServerRef} {a b : ServerRef}

theorem notMem_of_isServerName {t : Text} (h : isServerName t = true) :
    t ≠ [] ∧ 0x28 ∉ t ∧ 0x2F ∉ t ∧ 0x5C ∉ t := by
  cases t with
  | nil => cases h
  | cons b t =>
    simp only [isServerName, Bool.and_eq_true, all_eq_true] at h
    have hbytes : ∀ c ∈ b :: t, (isAlnum c || [0x20, 0x2D, 0x2B, 0x5F].contains c) = true := by
      intro c hc
      rcases mem_cons.mp hc with rfl | hc
      · simp [h.1.1]
      · exact h.2 c hc
    refine ⟨cons_ne_nil _ _, fun hc ↦ ?_, fun hc ↦ ?_, fun hc ↦ ?_⟩
    all_goals exact absurd (hbytes _ hc) (by decide)

/-- A name that is valid is listed as it is, or with the beginning of the id. -/
theorem listedName_eq (h : isServerName a.name = true) : listedName servers a =
    if 1 < servers.countP (·.name = a.name) then a.name ++ lit " (" ++ a.uuid.take 8 ++ lit ")"
    else a.name := by
  obtain ⟨hne, -, hslash, hback⟩ := notMem_of_isServerName h
  have hmap : a.name.map (fun b ↦ if b = 0x2F ∨ b = 0x5C then 0x5F else b) = a.name := by
    refine (map_congr_left fun b hb ↦ if_neg ?_).trans (map_id' _)
    rintro (rfl | rfl)
    · exact hslash hb
    · exact hback hb
  simp only [listedName, hmap, hne, hslash, hback, or_false]

theorem one_lt_countP (ha : a ∈ servers) (hb : b ∈ servers) (hne : a ≠ b) (hname : a.name = b.name) :
    1 < servers.countP (·.name = a.name) := by
  have hsub : [a, b] ⊆ servers.filter (·.name = a.name) := by simp [ha, hb, hname]
  rw [countP_eq_length_filter]
  exact (Nodup.subperm (by simpa using hne) hsub).length_le

theorem listedName_ne (ha : isServerName a.name = true) (hb : isServerName b.name = true)
    (hma : a ∈ servers) (hmb : b ∈ servers) (hne : a ≠ b)
    (h : a.name = b.name → a.uuid.take 8 ≠ b.uuid.take 8) :
    listedName servers a ≠ listedName servers b := by
  have hopen : lit " (" = [0x20, 0x28] := by decide +kernel
  obtain ⟨-, hpa, -⟩ := notMem_of_isServerName ha
  obtain ⟨-, hpb, -⟩ := notMem_of_isServerName hb
  intro heq
  rw [listedName_eq ha, listedName_eq hb, hopen] at heq
  split at heq
  · split at heq
    · -- Up to the bracket are the names, behind it the ids.
      have heq : (a.name ++ [0x20]) ++ 0x28 :: (a.uuid.take 8 ++ lit ")") =
          (b.name ++ [0x20]) ++ 0x28 :: (b.uuid.take 8 ++ lit ")") := by simpa using heq
      have hname := (eq_of_append_sep (by simpa using hpa) (by simpa using hpb)
        ⟨[], (append_nil _).trans heq⟩ (.inr ⟨_, rfl⟩)).1
      rw [hname, append_cancel_left_eq, cons_inj_right, append_cancel_right_eq] at heq
      exact h (append_cancel_right hname) heq
    · exact hpb (heq ▸ by simp)
  · rename_i hone
    split at heq
    · exact hpa (heq ▸ by simp)
    · exact hone (one_lt_countP hma hmb hne heq)

/-! ## Paths -/

theorem cleanComps_of_plain {l : List Text} (h : ∀ c ∈ l, Plain c) : cleanComps l = l := by
  induction l using List.reverseRecOn with
  | nil => rfl
  | append_singleton l c ih =>
    obtain ⟨hnil, hdot, hdots⟩ := h c (by simp)
    have hrest := ih fun d hd ↦ h d (mem_append_left _ hd)
    rw [cleanComps] at hrest ⊢
    rw [foldl_append, hrest, foldl_cons, foldl_nil, if_neg (by simp [hnil, hdot]), if_neg hdots]

/-- The directory of a server is in its storage path. -/
theorem getServerDir_eq {u : Text} (h : isServerUUID u = true) :
    getServerDir base u = cleanComps (base u) ++ [u] := by
  simp only [isServerUUID, Bool.and_eq_true, decide_eq_true_eq] at h
  have hshort : ∀ t : Text, t.length < 8 → u ≠ t := by
    rintro t ht rfl
    omega
  rw [getServerDir, cleanComps, foldl_append, foldl_cons, foldl_nil,
    if_neg (by simp [hshort [] (by simp), hshort (lit ".") (by decide +kernel)]),
    if_neg (hshort (lit "..") (by decide +kernel))]
  rfl

/-- Two directories, none of which has the other's storage path in it, have nothing in common. -/
theorem not_prefix_of_ne {p q rest : List Text} {u v : Text} (hne : v ≠ u) (hq : ¬ p ++ [u] <+: q)
    (hp : ¬ q ++ [v] <+: p) : ¬ q ++ [v] <+: p ++ [u] ++ rest := by
  intro hv
  have hcomp := prefix_or_prefix_of_prefix hv (prefix_append (p ++ [u]) rest)
  rcases hcomp with h | h
  · rcases prefix_concat_iff.mp h with h | h
    · exact hne (by simpa using (append_inj' h rfl).2)
    · exact hp h
  · rcases prefix_concat_iff.mp h with h | h
    · exact hne (by simpa using (append_inj' h rfl).2.symm)
    · exact hq h

theorem nameToRef_of_mem {set : List ServerRef} (hnames : (set.map ServerRef.name).Nodup) (ha : a ∈ set) :
    nameToRef set a.name = some a := by
  cases hfind : nameToRef set a.name with
  | none => exact absurd (find?_eq_none.mp hfind a (mem_reverse.mpr ha)) (by simp)
  | some b =>
    have hb := mem_reverse.mp (mem_of_find?_eq_some hfind)
    rw [inj_on_of_nodup_map hnames hb ha (by simpa using find?_some hfind)]

theorem nodup_names_iff (hids : (servers.map ServerRef.uuid).Nodup)
    (hvalid : ∀ s ∈ servers, isServerName s.name = true) :
    ((newServerSet servers).map ServerRef.name).Nodup ↔ Apart servers := by
  rw [newServerSet, map_map, Nodup, pairwise_map]
  constructor
  · -- The listed name is made of the name and the first eight bytes of the id.
    refine Pairwise.imp fun hne hname htake ↦ hne ?_
    simp only [Function.comp_apply, listedName, hname, htake]
  · intro hapart
    refine Pairwise.imp_of_mem ?_ ((pairwise_map.mp hids).and hapart)
    rintro a b ha hb ⟨hne, h⟩
    exact listedName_ne (hvalid a ha) (hvalid b hb) ha hb (fun heq ↦ hne (congrArg _ heq)) h

/-- **Every server has its own name**, exactly where those of one name have ids that begin differently:
the names of a session are different, and a path under one is in the directory of its server, and in that
of no other, unless one of the two has its storage path inside the other's directory. -/
theorem sftp_names_apart {servers : List ServerRef} (hids : (servers.map ServerRef.uuid).Nodup)
    (hvalid : ∀ s ∈ servers, isServerName s.name = true ∧ isServerUUID s.uuid = true) :
    (((newServerSet servers).map ServerRef.name).Nodup ∧
    ∀ linkStaysWithin, ∀ ref ∈ newServerSet servers, ∀ path rel,
      cleanComps (splitPath path) = ref.name :: rel →
      (resolve base linkStaysWithin (newServerSet servers) path =
          .ok (some (getServerDir base ref.uuid ++ rel, rel, ref)) ∨
        resolve base linkStaysWithin (newServerSet servers) path = .error .permission ∧
          linkStaysWithin (getServerDir base ref.uuid) (getServerDir base ref.uuid ++ rel) = false) ∧
      ∀ other ∈ newServerSet servers, other ≠ ref →
        ¬ getServerDir base ref.uuid <+: cleanComps (base other.uuid) →
        ¬ getServerDir base other.uuid <+: cleanComps (base ref.uuid) →
        ¬ getServerDir base other.uuid <+: getServerDir base ref.uuid ++ rel) ↔ Apart servers := by
  rw [← nodup_names_iff hids fun s hs ↦ (hvalid s hs).1, and_iff_left_iff_imp]
  intro hnames
  have huuids : ((newServerSet servers).map ServerRef.uuid).Nodup := by rwa [newServerSet, map_map]
  have hdir : ∀ s ∈ newServerSet servers,
      getServerDir base s.uuid = cleanComps (base s.uuid) ++ [s.uuid] := by
    intro s hs
    obtain ⟨t, ht, rfl⟩ := mem_map.mp hs
    exact getServerDir_eq (hvalid t ht).2
  refine fun linkStaysWithin ref href path rel hpath ↦ ⟨?_, fun other hother hne hin hin' ↦ ?_⟩
  · have hfull : cleanComps (getServerDir base ref.uuid ++ rel) = getServerDir base ref.uuid ++ rel := by
      refine cleanComps_of_plain fun c hc ↦ ?_
      rcases mem_append.mp hc with hc | hc
      · exact (plain_of_mem_cleanComps hc).1
      · exact (plain_of_mem_cleanComps (hpath ▸ mem_cons_of_mem _ hc)).1
    rw [resolve, hpath]
    simp only [nameToRef_of_mem hnames href, hfull]
    split
    · rename_i hrel
      exact .inl (by rw [hrel, append_nil])
    split
    · exact .inl rfl
    · rename_i hlink
      exact .inr ⟨rfl, Bool.eq_false_iff.mpr hlink⟩
  · have huuid : other.uuid ≠ ref.uuid := fun heq ↦ hne (inj_on_of_nodup_map huuids hother href heq)
    rw [hdir ref href] at hin ⊢
    rw [hdir other hother] at hin' ⊢
    exact not_prefix_of_ne huuid hin hin'

/-- Two servers of one name, of two owners. -/
def sameName : List ServerRef :=
  [⟨lit "11111111_a", lit "smp"⟩, ⟨lit "22222222_b", lit "smp"⟩, ⟨lit "22222222_c", lit "lobby"⟩]

theorem sftp_names_apart_sameName : ((newServerSet sameName).map ServerRef.name).Nodup :=
  ((@sftp_names_apart (fun _ ↦ []) _ (by decide +kernel) (by decide +kernel)).mpr
    (by decide +kernel)).1

/-- Two servers of one owner with one name are listed under one name, which leads to the second. -/
theorem not_sftp_names_apart :
    newServerSet [⟨lit "11111111_a", lit "smp"⟩, ⟨lit "11111111_b", lit "smp"⟩] =
      [⟨lit "11111111_a", lit "smp (11111111)"⟩, ⟨lit "11111111_b", lit "smp (11111111)"⟩] ∧
    (resolve (fun _ ↦ [lit "data"]) (fun _ _ ↦ true)
      [⟨lit "11111111_a", lit "smp (11111111)"⟩, ⟨lit "11111111_b", lit "smp (11111111)"⟩]
      (lit "smp (11111111)/world")).toOption.map (·.map Prod.fst) =
        some (some [lit "data", lit "11111111_b", lit "world"]) := by
  decide +kernel

end Dylaris.Sftp
