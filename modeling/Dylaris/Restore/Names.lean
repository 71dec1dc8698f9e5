import Dylaris.Library.Calendar
import Mathlib.Data.List.Basic

/-!
# The names a restore leaves in a storage root

A whole-server restore works beside the server's directory, under names made from its own: the
*stage* it unpacks into, the *stash* the old directory is moved aside to, and the name a stash that
must survive is *kept* under.  The cleanup has nothing but these names, and the age of a directory,
to go by: `cleanupRemoves` is its whole judgement.

The cleanup recognises every stage (`restoreStage_stageName`) and every stash
(`preRestoreStash_stashName`), and it never recognises a server or a kept stash:
a pattern begins with a dot, a server's name has none, and the only dot of a kept name is its first
character.
-/

set_option autoImplicit false

namespace Dylaris.Restore

open List Option

/-- `validate.IsServerUUID`: `^[a-zA-Z0-9_-]{8,80}$`. -/
def isServerUUID (s : String) : Bool :=
  8 ≤ s.toList.length && s.toList.length ≤ 80 &&
    s.toList.all fun c ↦ c.isAlphanum || c = '_' || c = '-'

/-! ## Stages -/

def stageDirInfix : String := ".restore-"

def stageDirSuffix : String := ".stage"

/-- The name `os.MkdirTemp` gives a stage, its random number being `k`. -/
def stageName (uuid : String) (k : Nat) : String :=
  uuid ++ stageDirInfix ++ k.repr ++ stageDirSuffix

/-- The pattern `\.restore-\d+\.stage$`, read from the end of the name. -/
def restoreStage (name : String) : Bool :=
  let rest := name.toList.reverse.drop stageDirSuffix.toList.length
  stageDirSuffix.toList.reverse.isPrefixOf name.toList.reverse &&
    !(rest.takeWhile Char.isDigit).isEmpty &&
    stageDirInfix.toList.reverse.isPrefixOf (rest.dropWhile Char.isDigit)

/-! ## Stashes -/

def stashInfix : String := ".pre-restore-"

/-- The last `w` decimal digits of a number. -/
def digits : Nat → Nat → List Char
  | 0, _ => []
  | w + 1, n => digits w (n / 10) ++ [Nat.digitChar (n % 10)]

/-- The format `20060102`, of a day in a year of four digits. -/
def stampDate (day : Int) : List Char :=
  digits 4 (Calendar.year day).toNat ++ digits 2 (Calendar.month day) ++
    digits 2 (Calendar.dayOfMonth day)

/-- The format `150405`. -/
def stampTime (second : Nat) : List Char :=
  digits 2 (second / 3600) ++ digits 2 (second / 60 % 60) ++ digits 2 (second % 60)

/-- `time.UTC().Format("20060102-150405")` of a time in seconds. -/
def stamp (t : Int) : List Char :=
  stampDate (t / 86400) ++ '-' :: stampTime (t % 86400).toNat

/-- The name a restore that swaps at time `t` moves the old directory aside to. -/
def stashName (uuid : String) (t : Int) : String := uuid ++ stashInfix ++ String.ofList (stamp t)

/-- `\d{8}-\d{6}`. -/
def isStamp (cs : List Char) : Bool :=
  cs.length = 15 && (cs.take 8).all Char.isDigit && (cs.drop 8).head? = some '-' &&
    (cs.drop 9).all Char.isDigit

/-- The pattern `\.pre-restore-\d{8}-\d{6}$`, which matches 28 characters. -/
def preRestoreStash (name : String) : Bool :=
  let tail := name.toList.drop (name.toList.length - 28)
  stashInfix.toList.isPrefixOf tail && isStamp (tail.drop stashInfix.toList.length)

/-- `strings.Replace(s, old, new, 1)`. -/
def replaceFirst (old new : List Char) : List Char → List Char
  | [] => []
  | c :: cs => if old.isPrefixOf (c :: cs) then new ++ (c :: cs).drop old.length
      else c :: replaceFirst old new cs

/-- The name `keepStash` gives a stash. -/
def keptName (stash : String) : String :=
  ".restore-kept-" ++ String.ofList (replaceFirst stashInfix.toList ['-'] stash.toList)

/-! ## The judgement of the cleanup -/

def preRestoreTTL : Int := 24 * 3600

def pendingDeleteTTL : Int := 10 * 60

/-- A tombstone of `delete_sub_server`. -/
def isPending (name : String) : Bool := ".pending-delete-".toList.isPrefixOf name.toList

/-- The names the cleanup looks at, one or two levels below the storage root. -/
def cleanupMatches (name : String) : Bool :=
  preRestoreStash name || restoreStage name || isPending name

/-- Whether `runRestoreCleanup` removes a directory of this name and modification time, the stages
in `own` being those of restores that run in this process.  `shared` says that another node uses the
storage too. -/
def cleanupRemoves (own : List String) (shared : Bool) (now mtime : Int) (name : String) : Bool :=
  if isPending name then mtime < now - pendingDeleteTTL
  else if restoreStage name then
    !own.contains name && mtime < (if shared then now - preRestoreTTL else now)
  else preRestoreStash name && mtime < now - preRestoreTTL

variable {name : String}

theorem cleanupMatches_of_removes {own : List String} {shared : Bool} {now mtime : Int}
    (h : cleanupRemoves own shared now mtime name = true) :
    cleanupMatches name = true := by
  rw [cleanupRemoves] at h
  rw [cleanupMatches]
  split at h
  · rename_i hp
    simp [hp]
  split at h
  · rename_i hs
    simp [hs]
  · rw [Bool.and_eq_true] at h
    simp [h.1]

/-- The stage of a restore that is running here is never removed. -/
theorem cleanupRemoves_own {own : List String} {shared : Bool} {now mtime : Int}
    (hstage : restoreStage name = true) (hpending : isPending name = false) (h : name ∈ own) :
    cleanupRemoves own shared now mtime name = false := by
  rw [cleanupRemoves, if_neg (by simp [hpending]), if_pos hstage]
  simp [h]

/-! ## What the names look like -/

variable {uuid : String}

theorem dot_not_mem_uuid (h : isServerUUID uuid = true) : '.' ∉ uuid.toList := by
  intro hdot
  rw [isServerUUID, Bool.and_eq_true] at h
  have hc := all_eq_true.mp h.2 '.' hdot
  revert hc
  decide

theorem isDigit_of_mem_digits {w n : Nat} {c : Char} (h : c ∈ digits w n) : c.isDigit = true := by
  induction w generalizing n with
  | zero => simp [digits] at h
  | succ w ih =>
    rw [digits, mem_append, mem_singleton] at h
    rcases h with h | rfl
    · exact ih h
    · have hdigit : ∀ d < 10, (Nat.digitChar d).isDigit = true := by decide
      exact hdigit _ (Nat.mod_lt n (by omega))

@[simp]
theorem length_digits (w n : Nat) : (digits w n).length = w := by
  induction w generalizing n with
  | zero => rfl
  | succ w ih => simp [digits, ih]

theorem all_isDigit_digits (w n : Nat) : (digits w n).all Char.isDigit = true :=
  all_eq_true.mpr fun _ hc ↦ isDigit_of_mem_digits hc

/-- A stamp is eight digits, a dash and six digits. -/
theorem stamp_eq (t : Int) : ∃ date time : List Char, stamp t = date ++ '-' :: time ∧
    date.length = 8 ∧ time.length = 6 ∧ date.all Char.isDigit = true ∧
    time.all Char.isDigit = true := by
  refine ⟨_, _, rfl, ?_⟩
  simp [stampDate, stampTime, all_isDigit_digits]

theorem dot_not_mem_stamp (t : Int) : '.' ∉ stamp t := by
  obtain ⟨date, time, heq, -, -, hdate, htime⟩ := stamp_eq t
  rw [heq, mem_append, mem_cons]
  rintro (h | h | h)
  · exact absurd (all_eq_true.mp hdate _ h) (by decide)
  · cases h
  · exact absurd (all_eq_true.mp htime _ h) (by decide)

theorem isStamp_stamp (t : Int) : isStamp (stamp t) = true := by
  obtain ⟨date, time, heq, hdl, htl, hdate, htime⟩ := stamp_eq t
  have hdrop : (date ++ '-' :: time).drop 9 = time := by
    rw [← singleton_append, ← append_assoc]
    exact drop_left' (by simp [hdl])
  rw [isStamp, heq, take_left' hdl, drop_left' hdl, hdrop]
  simp [hdl, htl, hdate, htime]

theorem toList_stashName (uuid : String) (t : Int) :
    (stashName uuid t).toList = uuid.toList ++ (stashInfix.toList ++ stamp t) := by
  simp [stashName, String.toList_append]

theorem toList_stageName (uuid : String) (k : Nat) : (stageName uuid k).toList
    = uuid.toList ++ (stageDirInfix.toList ++ (k.repr.toList ++ stageDirSuffix.toList)) := by
  simp [stageName, String.toList_append]

theorem toList_keptName (stash : String) : (keptName stash).toList
    = ".restore-kept-".toList ++ replaceFirst stashInfix.toList ['-'] stash.toList :=
  String.toList_append.trans (congrArg _ String.toList_ofList)

/-- **The cleanup recognises a stash.** -/
theorem preRestoreStash_stashName (uuid : String) (t : Int) :
    preRestoreStash (stashName uuid t) = true := by
  have hlen : (stamp t).length = 15 := by
    obtain ⟨date, time, heq, hdl, htl, -⟩ := stamp_eq t
    simp [heq, hdl, htl]
  have htail : (stashName uuid t).toList.drop ((stashName uuid t).toList.length - 28)
      = stashInfix.toList ++ stamp t := by
    rw [toList_stashName]
    refine drop_left' ?_
    have hinfix : stashInfix.toList.length = 13 := rfl
    rw [length_append, length_append, hlen, hinfix]
    omega
  simp only [preRestoreStash, htail, Bool.and_eq_true]
  exact ⟨List.isPrefixOf_iff_prefix.mpr ⟨_, rfl⟩,
    by rw [drop_left' rfl]; exact isStamp_stamp t⟩

/-- **The cleanup recognises a stage.** -/
theorem restoreStage_stageName (uuid : String) (k : Nat) :
    restoreStage (stageName uuid k) = true := by
  have hname : (stageName uuid k).toList.reverse
      = stageDirSuffix.toList.reverse ++
        (k.repr.toList.reverse ++ (stageDirInfix.toList.reverse ++ uuid.toList.reverse)) := by
    rw [toList_stageName]
    simp
  have hdigit : ∀ c ∈ k.repr.toList.reverse, c.isDigit = true := by
    intro c hc
    rw [mem_reverse, Nat.toList_repr] at hc
    exact Nat.isDigit_of_mem_toDigits (by omega) (by omega) hc
  have hne : k.repr.toList.reverse ≠ [] := by
    rw [Ne, reverse_eq_nil_iff, Nat.toList_repr]
    exact Nat.toDigits_ne_nil
  have hinfix : ∀ l : List Char, (stageDirInfix.toList.reverse ++ l).dropWhile Char.isDigit
      = stageDirInfix.toList.reverse ++ l := fun _ ↦ rfl
  simp only [restoreStage, hname, drop_left' length_reverse, Bool.and_eq_true]
  refine ⟨⟨List.isPrefixOf_iff_prefix.mpr ⟨_, rfl⟩, ?_⟩, ?_⟩
  · rw [takeWhile_append_of_pos hdigit, Bool.not_eq_true', isEmpty_eq_false_iff]
    exact append_ne_nil_of_left_ne_nil hne _
  · rw [dropWhile_append_of_pos hdigit, hinfix]
    exact isPrefixOf_iff_prefix.mpr ⟨_, rfl⟩

/-- A pattern begins with a dot and is matched at the end of a name. -/
theorem dot_suffix_of_matches (h : cleanupMatches name = true) :
    (∃ w, (stashInfix.toList ++ w) <:+ name.toList) ∨
    (∃ w, (stageDirInfix.toList ++ w ++ stageDirSuffix.toList) <:+ name.toList) ∨
    ".pending-delete-".toList <+: name.toList := by
  rw [cleanupMatches, Bool.or_eq_true, Bool.or_eq_true] at h
  rcases h with (h | h) | h
  · left
    simp only [preRestoreStash, Bool.and_eq_true] at h
    obtain ⟨w, hw⟩ := isPrefixOf_iff_prefix.mp h.1
    exact ⟨w, hw ▸ drop_suffix _ _⟩
  · right; left
    simp only [restoreStage, Bool.and_eq_true] at h
    obtain ⟨⟨hsuf, -⟩, hinf⟩ := h
    obtain ⟨r, hr⟩ := isPrefixOf_iff_prefix.mp hsuf
    rw [← hr, ← length_reverse, drop_left' rfl] at hinf
    obtain ⟨u, hu⟩ := isPrefixOf_iff_prefix.mp hinf
    refine ⟨(r.takeWhile Char.isDigit).reverse, u.reverse, ?_⟩
    have hsplit : r = r.takeWhile Char.isDigit ++ (stageDirInfix.toList.reverse ++ u) := by
      rw [hu, takeWhile_append_dropWhile]
    have hname : name.toList = (stageDirSuffix.toList.reverse ++ r).reverse := by
      rw [hr, reverse_reverse]
    rw [hname]
    conv_rhs => rw [hsplit]
    simp
  · exact .inr (.inr (List.isPrefixOf_iff_prefix.mp h))

/-- **The cleanup never takes a server for a leftover.** -/
theorem cleanupMatches_uuid (h : isServerUUID uuid = true) : cleanupMatches uuid = false := by
  by_contra hm
  rw [Bool.not_eq_false] at hm
  refine dot_not_mem_uuid h ?_
  rcases dot_suffix_of_matches hm with ⟨w, hw⟩ | ⟨w, hw⟩ | hw
  · exact hw.subset (by simp [stashInfix])
  · exact hw.subset (by simp [stageDirInfix])
  · exact hw.subset (by simp)

/-- A suffix that begins with a dot, of a name whose only dot is the first character, is the name. -/
theorem eq_of_dot_suffix {v w : List Char} (hw : '.' ∉ w) (h : ('.' :: v) <:+ ('.' :: w)) :
    v = w := by
  rcases suffix_cons_iff.mp h with heq | hsuf
  · exact (List.cons.inj heq).2
  · exact absurd (hsuf.subset mem_cons_self) hw

/-- The first occurrence of a pattern is found past a text without the pattern's first character. -/
theorem replaceFirst_append {c : Char} {l : List Char} (hc : c ∉ l) (old new r : List Char) :
    replaceFirst (c :: old) new (l ++ (c :: old ++ r)) = l ++ (new ++ r) := by
  induction l with
  | nil =>
    have hp : (c :: old).isPrefixOf (c :: (old ++ r)) = true :=
      isPrefixOf_iff_prefix.mpr ⟨r, rfl⟩
    rw [nil_append, nil_append, cons_append, replaceFirst, if_pos hp]
    exact congrArg _ drop_left
  | cons d l ih =>
    rw [mem_cons, not_or] at hc
    have hp : ¬ (c :: old).isPrefixOf (d :: (l ++ (c :: old ++ r))) = true := by
      rw [List.isPrefixOf_iff_prefix]
      rintro ⟨w, hw⟩
      exact hc.1 (List.cons.inj hw).1
    rw [cons_append, replaceFirst, if_neg hp, ih hc.2, cons_append]

section

variable (h : isServerUUID uuid = true)

include h

/-- The stash of a server is kept under the server's name and its stamp. -/
theorem keptName_stashName (t : Int) :
    (keptName (stashName uuid t)).toList
      = ".restore-kept-".toList ++ (uuid.toList ++ '-' :: stamp t) := by
  have hinfix : stashInfix.toList = '.' :: "pre-restore-".toList := rfl
  rw [toList_keptName, toList_stashName, hinfix, replaceFirst_append (dot_not_mem_uuid h)]
  rfl

/-- **The cleanup never takes a kept stash.** -/
theorem cleanupMatches_keptName (t : Int) :
    cleanupMatches (keptName (stashName uuid t)) = false := by
  by_contra hm
  rw [Bool.not_eq_false] at hm
  have hcons : (keptName (stashName uuid t)).toList
      = '.' :: ("restore-kept-".toList ++ (uuid.toList ++ '-' :: stamp t)) := keptName_stashName h t
  have hdot : '.' ∉ "restore-kept-".toList ++ (uuid.toList ++ '-' :: stamp t) := by
    simp [dot_not_mem_uuid h, dot_not_mem_stamp t]
  rcases dot_suffix_of_matches hm with ⟨w, hw⟩ | ⟨w, hw⟩ | hw
  · rw [hcons] at hw
    exact absurd (List.cons.inj (eq_of_dot_suffix hdot hw)).1 (by decide)
  · rw [hcons] at hw
    have htail := eq_of_dot_suffix hdot hw
    exact hdot (htail ▸ by simp [stageDirSuffix])
  · rw [hcons] at hw
    obtain ⟨r, hr⟩ := hw
    exact absurd (List.cons.inj (List.cons.inj hr).2).1 (by decide)

/-- A stage begins with its server's name, a tombstone with a dot. -/
theorem isPending_stageName (k : Nat) :
    isPending (stageName uuid k) = false := by
  by_contra hp
  rw [Bool.not_eq_false, isPending, isPrefixOf_iff_prefix] at hp
  obtain ⟨w, hw⟩ := hp
  rw [toList_stageName] at hw
  cases hu : uuid.toList with
  | nil =>
    rw [isServerUUID, hu] at h
    cases h
  | cons c cs =>
    rw [hu] at hw
    refine dot_not_mem_uuid h ?_
    rw [hu, ← (List.cons.inj hw).1]
    exact mem_cons_self

/-! ## Names that differ -/

theorem uuid_ne_of_matches
    (hm : cleanupMatches name = true) : name ≠ uuid := by
  rintro rfl
  rw [cleanupMatches_uuid h] at hm
  cases hm

end

theorem cleanupMatches_stageName (uuid : String) (k : Nat) :
    cleanupMatches (stageName uuid k) = true := by
  simp [cleanupMatches, restoreStage_stageName]

theorem cleanupMatches_stashName (uuid : String) (t : Int) :
    cleanupMatches (stashName uuid t) = true := by
  simp [cleanupMatches, preRestoreStash_stashName]

/-- A stage ends in a letter, a stash in a digit. -/
theorem stageName_ne_stashName (uuid : String) (k : Nat) (t : Int) :
    stageName uuid k ≠ stashName uuid t := by
  intro h
  have hstage : (stageName uuid k).toList.getLast? = some 'e' := by
    simp [toList_stageName, stageDirSuffix]
  obtain ⟨date, time, heq, -, htl, -, htime⟩ := stamp_eq t
  have hne : time ≠ [] := by
    rintro rfl
    cases htl
  have hstash : (stashName uuid t).toList.getLast? = time.getLast? := by
    rw [toList_stashName, heq]
    cases time with
    | nil => exact absurd rfl hne
    | cons c cs => simp [getLast?_eq_some_getLast]
  rw [h, hstash] at hstage
  have he := all_eq_true.mp htime 'e' (mem_of_getLast? hstage)
  revert he
  decide

theorem keptName_ne_uuid (h : isServerUUID uuid = true) (t : Int) :
    keptName (stashName uuid t) ≠ uuid := by
  intro heq
  refine dot_not_mem_uuid h ?_
  rw [← heq, keptName_stashName h t]
  simp

end Dylaris.Restore
