import Dylaris.Library.Fields
import Mathlib.Data.List.AList

/-!
# Merging settings into `server.properties`

`MergeServerProperties` of `core/services/voicecfg`: the lines of the old text go through once, a line
whose key is still to be set gets the new value, and what is left at the end is appended.  `read` is how
Minecraft reads the result, which is `java.util.Properties`: a key ends at a separator or a blank, and a
later line of the same key wins.  Backslashes, which escape and continue lines there, are left out.

The two agree exactly where keys and values can be written on a line and a key of the map with several
lines in the text has the map's value on the last already: only the first line of a key is replaced, and
Minecraft takes the last.
-/

set_option autoImplicit false

open Text

namespace Dylaris.Voicecfg

open List Option AList

abbrev Settings := AList fun _ : Text ↦ Text

/-! ## The text -/

/-- `strings.ReplaceAll(s, "\r\n", "\n")`. -/
def unixBreaks : Text → Text
  | 0x0D :: 0x0A :: t => 0x0A :: unixBreaks t
  | b :: t => b :: unixBreaks t
  | [] => []

/-- The lines of a text; a final line break does not begin one. -/
def lines (t : Text) : List Text :=
  let ls := (unixBreaks t).splitOn 0x0A
  if ls.getLast? = some [] then ls.dropLast else ls

/-- The key of a line that may be replaced; `none` for comments, blank lines and those without `=`. -/
def lineKey (line : Text) : Option Text :=
  let trimmed := trimSpace line
  if trimmed = [] ∨ trimmed.head? = some 0x23 ∨ trimmed.head? = some 0x21 then none
  else if 0x3D ∈ line then some (trimSpace (line.takeWhile (· ≠ 0x3D)))
  else none

/-- The line of a setting. -/
def pair (key value : Text) : Text := key ++ 0x3D :: value

/-- The loop over the lines: the lines written, and the settings that remain. -/
def mergeLines : List Text → Settings → List Text × Settings
  | [], remaining => ([], remaining)
  | line :: rest, remaining =>
    match (lineKey line).bind fun key ↦ (remaining.lookup key).map fun value ↦ (key, value) with
    | some (key, value) =>
      let r := mergeLines rest (remaining.erase key)
      (pair key value :: r.1, r.2)
    | none =>
      let r := mergeLines rest remaining
      (line :: r.1, r.2)

/-- The lines of the settings no line had, in the order of their keys. -/
def appended (remaining : Settings) : List Text :=
  (remaining.keys.insertionSort (· ≤ ·)).map fun key ↦ pair key ((remaining.lookup key).getD [])

def mergeServerProperties (existing : Text) (kv : Settings) : Text :=
  let r := mergeLines (lines existing) kv
  [0x0A].intercalate (r.1 ++ appended r.2) ++ [0x0A]

/-! ## How Minecraft reads it -/

def isBlank (b : UInt8) : Bool := b = 0x20 || b = 0x09 || b = 0x0C

/-- A byte inside a key. -/
def isKeyByte (b : UInt8) : Bool := !isBlank b && b ≠ 0x3D && b ≠ 0x3A

/-- The key and the value of a line without backslashes. -/
def readLine (line : Text) : Option (Text × Text) :=
  match line.dropWhile isBlank with
  | [] => none
  | b :: t =>
    if b = 0x23 ∨ b = 0x21 then none
    else
      some ((b :: t).takeWhile isKeyByte,
        match ((b :: t).dropWhile isKeyByte).dropWhile isBlank with
        | [] => []
        | c :: v => if c = 0x3D ∨ c = 0x3A then v.dropWhile isBlank else c :: v)

/-- The value a line gives to a key. -/
def lineValue (key line : Text) : Option Text :=
  (readLine line).bind fun p ↦ if p.1 = key then some p.2 else none

def read (t key : Text) : Option Text := ((lines t).filterMap (lineValue key)).getLast?

/-! ## Settings and lines -/

/-- The setting can be written on a line of its own. -/
structure Writable (key value : Text) : Prop where
  trimmed : Trimmed key
  bytes : ∀ b ∈ key, isKeyByte b = true
  first : key.head? ≠ some 0x23 ∧ key.head? ≠ some 0x21
  begins : ∀ b ∈ value.head?, isBlank b = false

/-- Neither line breaks nor backslashes, which would escape, are in the keys and values. -/
def Plain (kv : Settings) : Prop :=
  ∀ e ∈ kv.entries, ∀ b ∈ e.1 ++ e.2, b ≠ 0x0A ∧ b ≠ 0x0D ∧ b ≠ 0x5C

/-- A line shows a key of the map to both readers or to neither. -/
def ReadsAlike (kv : Settings) (line : Text) : Prop :=
  ∀ key ∈ kv.keys, (readLine line).map Prod.fst = some key ↔ lineKey line = some key

section Line

variable {key value line : Text} {kv : Settings}

theorem exists_lookup (h : key ∈ kv) : ∃ value, kv.lookup key = some value :=
  isSome_iff_exists.mp (lookup_isSome.mpr h)

theorem mem_of_lookup (h : kv.lookup key = some value) : key ∈ kv :=
  lookup_isSome.mp (by rw [h]; rfl)

theorem dropWhile_eq_self {p : UInt8 → Bool} {t : Text} (h : ∀ b ∈ t.head?, p b = false) :
    t.dropWhile p = t := by
  cases t with
  | nil => rfl
  | cons b t => rw [dropWhile_cons_of_neg (by simpa using h b rfl)]

section

variable (h : Writable key value)

include h

/-- What begins a line that is a setting is neither blank nor the mark of a comment. -/
theorem Writable.head {b : UInt8} (hb : b ∈ (pair key value).head?) :
    isBlank b = false ∧ b ≠ 0x23 ∧ b ≠ 0x21 := by
  cases key with
  | nil =>
    obtain rfl : b = 0x3D := by simpa [pair, eq_comm] using hb
    decide
  | cons a key =>
    obtain rfl : b = a := by simpa [pair, eq_comm] using hb
    have hkey := h.bytes b mem_cons_self
    exact ⟨by simp_all [isKeyByte], by simpa using h.first.1, by simpa using h.first.2⟩

theorem readLine_pair : readLine (pair key value) = some (key, value) := by
  have htake : (pair key value).takeWhile isKeyByte = key := by
    rw [pair, takeWhile_append_of_pos h.bytes]
    simp [isKeyByte]
  have hdrop : (pair key value).dropWhile isKeyByte = 0x3D :: value := by
    rw [pair, dropWhile_append_of_pos h.bytes]
    exact dropWhile_cons_of_neg (by decide)
  obtain ⟨b, t, hline⟩ : ∃ b t, pair key value = b :: t := exists_cons_of_ne_nil (by simp [pair])
  have hhead := h.head (b := b) (by simp [hline])
  rw [readLine, dropWhile_eq_self fun b hb ↦ (h.head hb).1, hline]
  dsimp only
  rw [if_neg (by simp [hhead]), ← hline, htake, hdrop, dropWhile_eq_self (by simp [isBlank])]
  simp [dropWhile_eq_self h.begins]

theorem lineKey_pair : lineKey (pair key value) = some key := by
  have hspaces : ∀ p ∈ spaces, (0x3D : UInt8) ∉ p := by decide +kernel
  have hleft : trimLeft (pair key value) = pair key value := by
    refine strip_eq_self fun p hp hpre ↦ ?_
    by_cases hlen : p.length ≤ key.length
    · exact (h.trimmed p hp).1 (prefix_of_prefix_length_le hpre (prefix_append ..) hlen)
    · have hsub : key ++ [0x3D] <+: p := prefix_of_prefix_length_le ⟨value, by simp [pair]⟩ hpre
        (by simpa [Nat.succ_le_iff] using hlen)
      exact hspaces p hp (hsub.subset (by simp))
  -- What is trimmed on the right leaves the key and the sign.
  have hreverse : ∀ p ∈ spaces.map List.reverse, (0x3D : UInt8) ∉ p := by
    intro p hp
    obtain ⟨q, hq, rfl⟩ := mem_map.mp hp
    simpa using hspaces q hq
  obtain ⟨s, hs⟩ := exists_strip hreverse key.reverse value.reverse 0 (Nat.zero_le _)
  have htrim : trimSpace (pair key value) = pair key s.reverse := by
    have hrev : (pair key value).reverse = value.reverse ++ 0x3D :: key.reverse := by simp [pair]
    rw [trimSpace, hleft, trimRight, hrev, hs]
    simp [pair]
  have hhead : (pair key s.reverse).head? = (pair key value).head? := by
    cases key <;> rfl
  have hfirst (b : UInt8) (hb : b = 0x23 ∨ b = 0x21) : (pair key value).head? ≠ some b := by
    intro hmem
    have := h.head hmem
    rcases hb with rfl | rfl <;> simp at this
  have hkey : (pair key value).takeWhile (· ≠ 0x3D) = key := by
    rw [pair, takeWhile_append_of_pos]
    · simp
    · intro b hb
      have := h.bytes b hb
      simp_all [isKeyByte]
  rw [lineKey, htrim, if_neg, if_pos (by simp [pair]), hkey, trimSpace_of_trimmed h.trimmed]
  rw [hhead]
  rintro (hnil | hmark | hmark)
  · simp [pair] at hnil
  · exact hfirst _ (.inl rfl) hmark
  · exact hfirst _ (.inr rfl) hmark

end

/-- What is read from a line can be written on one, but for white space at the ends of the key. -/
theorem of_readLine (h : readLine line = some (key, value)) : (∀ b ∈ key, isKeyByte b = true) ∧
    (key.head? ≠ some 0x23 ∧ key.head? ≠ some 0x21) ∧ ∀ b ∈ value.head?, isBlank b = false := by
  have hdrop (t : Text) : ∀ b ∈ (t.dropWhile isBlank).head?, isBlank b = false := by
    intro b hb
    have := head?_dropWhile_not isBlank t
    rw [mem_def.mp hb] at this
    simpa using this
  rw [readLine] at h
  split at h
  · cases h
  rename_i b t _
  split at h
  · cases h
  rename_i hmark
  obtain ⟨rfl, rfl⟩ := Prod.mk.inj (some_inj.mp h)
  refine ⟨fun a ha ↦ all_eq_true.mp all_takeWhile a ha, ?_, ?_⟩
  · by_cases hb : isKeyByte b = true
    · simpa [hb, not_or] using hmark
    · simp [hb]
  · split
    · simp
    · rename_i c v hrest
      split
      · exact hdrop v
      · have := hdrop ((b :: t).dropWhile isKeyByte)
        rwa [hrest] at this

theorem trimmed_of_lineKey (h : lineKey line = some key) : Trimmed key := by
  rw [lineKey] at h
  split_ifs at h
  obtain rfl := some_inj.mp h
  exact trimmed_trimSpace _

theorem line_cases (kv : Settings) (line : Text) :
    (∃ key value, lineKey line = some key ∧ kv.lookup key = some value) ∨
      ∀ key ∈ lineKey line, key ∉ kv := by
  by_cases hnone : ∀ key ∈ lineKey line, key ∉ kv
  · exact .inr hnone
  · push Not at hnone
    obtain ⟨key, hkey, hmem⟩ := hnone
    obtain ⟨value, hvalue⟩ := exists_lookup hmem
    exact .inl ⟨key, value, hkey, hvalue⟩

end Line

/-! ## The loop -/

section Loop

variable {kv : Settings} {ls : List Text} {key : Text}

/-- The keys of the lines, in order. -/
def keysOf (ls : List Text) : List Text := ls.filterMap lineKey

section

variable {line value : Text}

theorem mergeLines_cons_of_lookup (hkey : lineKey line = some key) (hvalue : kv.lookup key = some value) :
    mergeLines (line :: ls) kv =
      (pair key value :: (mergeLines ls (kv.erase key)).1, (mergeLines ls (kv.erase key)).2) := by
  simp [mergeLines, hkey, hvalue]

theorem mergeLines_cons_of_notMem (h : ∀ key ∈ lineKey line, key ∉ kv) :
    mergeLines (line :: ls) kv = (line :: (mergeLines ls kv).1, (mergeLines ls kv).2) := by
  cases hkey : lineKey line with
  | none => simp [mergeLines, hkey]
  | some key => simp [mergeLines, hkey, lookup_eq_none.mpr (h key hkey)]

theorem lookup_of_erase (h : (kv.erase key).lookup line = some value) : kv.lookup line = some value := by
  rwa [lookup_erase_ne (mem_erase.mp (mem_of_lookup h)).1] at h

end

theorem lookup_mergeLines (ls : List Text) (kv : Settings) (key : Text) :
    (mergeLines ls kv).2.lookup key = if key ∈ keysOf ls then none else kv.lookup key := by
  induction ls generalizing kv with
  | nil => simp [mergeLines, keysOf]
  | cons line ls ih =>
    rcases line_cases kv line with ⟨k, value, hk, hvalue⟩ | hnone
    · rw [mergeLines_cons_of_lookup hk hvalue, ih]
      have hkeys : keysOf (line :: ls) = k :: keysOf ls := by simp [keysOf, hk]
      by_cases hkey : key = k
      · subst hkey
        simp [hkeys, lookup_erase]
      · simp [hkeys, hkey, lookup_erase_ne hkey]
    · rw [mergeLines_cons_of_notMem hnone, ih]
      cases hk : lineKey line with
      | none => simp [keysOf, hk]
      | some k =>
        by_cases hkey : key = k
        · subst hkey
          simp [keysOf, hk, lookup_eq_none.mpr (hnone key hk)]
        · simp [keysOf, hk, hkey]

theorem length_mergeLines (ls : List Text) (kv : Settings) : (mergeLines ls kv).1.length = ls.length := by
  induction ls generalizing kv with
  | nil => rfl
  | cons line ls ih =>
    rcases line_cases kv line with ⟨key, value, hkey, hvalue⟩ | hnone
    · rw [mergeLines_cons_of_lookup hkey hvalue, length_cons, ih, length_cons]
    · rw [mergeLines_cons_of_notMem hnone, length_cons, ih, length_cons]

theorem mergeLines_forall {P : Text → Prop} (hls : ∀ line ∈ ls, P line)
    (hpair : ∀ key value, kv.lookup key = some value → P (pair key value)) :
    ∀ line ∈ (mergeLines ls kv).1, P line := by
  induction ls generalizing kv with
  | nil => simp [mergeLines]
  | cons line ls ih =>
    rw [forall_mem_cons] at hls
    rcases line_cases kv line with ⟨key, value, hkey, hvalue⟩ | hnone
    · rw [mergeLines_cons_of_lookup hkey hvalue, forall_mem_cons]
      exact ⟨hpair key value hvalue, ih hls.2 fun k v hv ↦ hpair k v (lookup_of_erase hv)⟩
    · rw [mergeLines_cons_of_notMem hnone, forall_mem_cons]
      exact ⟨hls.1, ih hls.2 hpair⟩

theorem filterMap_mergeLines {α : Type} {f : Text → Option α}
    (hf : ∀ line ∈ ls, ∀ key ∈ lineKey line, key ∈ kv → f line = none)
    (hpair : ∀ key value, kv.lookup key = some value → f (pair key value) = none) :
    (mergeLines ls kv).1.filterMap f = ls.filterMap f := by
  induction ls generalizing kv with
  | nil => rfl
  | cons line ls ih =>
    rw [forall_mem_cons] at hf
    rcases line_cases kv line with ⟨key, value, hkey, hvalue⟩ | hnone
    · rw [mergeLines_cons_of_lookup hkey hvalue, filterMap_cons_none (hpair key value hvalue),
        filterMap_cons_none (hf.1 key hkey (mem_of_lookup hvalue))]
      exact ih (fun l hl k hk hmem ↦ hf.2 l hl k hk (mem_erase.mp hmem).2)
        fun k v hv ↦ hpair k v (lookup_of_erase hv)
    · rw [mergeLines_cons_of_notMem hnone, filterMap_cons, ih hf.2 hpair, filterMap_cons]

/-- The keys of what is appended. -/
theorem appended_eq (kv : Settings) : ∃ keys : List Text, keys.Nodup ∧
    (∀ key, key ∈ keys ↔ key ∈ kv) ∧
    appended kv = keys.map fun key ↦ pair key ((kv.lookup key).getD []) :=
  ⟨kv.keys.insertionSort (· ≤ ·), (perm_insertionSort _ _).nodup_iff.mpr kv.keys_nodup,
    fun key ↦ by rw [mem_insertionSort, AList.mem_keys], rfl⟩

theorem appended_forall {P : Text → Prop}
    (hpair : ∀ key value, kv.lookup key = some value → P (pair key value)) :
    ∀ line ∈ appended kv, P line := by
  obtain ⟨keys, -, hmem, heq⟩ := appended_eq kv
  rw [heq, List.forall_mem_map]
  intro key hkey
  obtain ⟨value, hvalue⟩ := exists_lookup ((hmem key).mp hkey)
  rw [hvalue]
  exact hpair key value hvalue

theorem appended_eq_nil (h : ∀ key, kv.lookup key = none) : appended kv = [] := by
  obtain ⟨keys, -, hmem, heq⟩ := appended_eq kv
  have hnil : keys = [] :=
    eq_nil_iff_forall_not_mem.mpr fun key hkey ↦ lookup_eq_none.mp (h key) ((hmem key).mp hkey)
  rw [heq, hnil, map_nil]

theorem pair_mem_appended {value : Text} (h : kv.lookup key = some value) :
    pair key value ∈ appended kv := by
  obtain ⟨keys, -, hmem, heq⟩ := appended_eq kv
  rw [heq, List.mem_map]
  exact ⟨key, (hmem key).mpr (mem_of_lookup h), by rw [h, getD_some]⟩

/-- What the merge writes, line by line. -/
def merged (ls : List Text) (kv : Settings) : List Text :=
  (mergeLines ls kv).1 ++ appended (mergeLines ls kv).2

theorem lookup_remaining {value : Text} (h : (mergeLines ls kv).2.lookup key = some value) :
    key ∉ keysOf ls ∧ kv.lookup key = some value := by
  rw [lookup_mergeLines] at h
  split_ifs at h with hkey
  exact ⟨hkey, h⟩

theorem merged_forall {P : Text → Prop} (hls : ∀ line ∈ ls, P line)
    (hpair : ∀ key value, kv.lookup key = some value → P (pair key value)) :
    ∀ line ∈ merged ls kv, P line :=
  forall_mem_append.mpr ⟨mergeLines_forall hls hpair,
    appended_forall fun key value h ↦ hpair key value (lookup_remaining h).2⟩

/-- What looks at no line of the map's keys sees the old text. -/
theorem filterMap_merged {α : Type} {f : Text → Option α}
    (hf : ∀ line ∈ ls, ∀ key ∈ lineKey line, key ∈ kv → f line = none)
    (hpair : ∀ key value, kv.lookup key = some value → f (pair key value) = none) :
    (merged ls kv).filterMap f = ls.filterMap f := by
  have hnone : (appended (mergeLines ls kv).2).filterMap f = [] :=
    filterMap_eq_nil_iff.mpr (appended_forall fun key value h ↦ hpair key value (lookup_remaining h).2)
  rw [merged, filterMap_append, filterMap_mergeLines hf hpair, hnone, append_nil]

section Values

variable {value : Text} (halike : ∀ line ∈ ls, ReadsAlike kv line)

include halike

theorem lineValue_isSome_iff (hkey : key ∈ kv) {line : Text} (hline : line ∈ ls) :
    (lineValue key line).isSome = true ↔ lineKey line = some key := by
  rw [← halike line hline key hkey, lineValue]
  cases readLine line with
  | none => simp
  | some p =>
    by_cases hp : p.1 = key
    · simp [hp]
    · simp [hp]

theorem lineValue_eq_none {k : Text} (hk : k ∈ kv) (hne : k ≠ key) {line : Text} (hline : line ∈ ls)
    (hline' : lineKey line = some k) : lineValue key line = none := by
  have hread := (halike line hline k hk).mpr hline'
  obtain ⟨p, hp, rfl⟩ := map_eq_some_iff.mp hread
  simp [lineValue, hp, hne]

theorem length_values (hkey : key ∈ kv) :
    (ls.filterMap (lineValue key)).length = (keysOf ls).count key := by
  induction ls with
  | nil => rfl
  | cons line ls ih =>
    have hhead := lineValue_isSome_iff halike hkey mem_cons_self
    have hrest := ih fun l hl ↦ halike l (mem_cons_of_mem line hl)
    rw [filterMap_cons, keysOf, filterMap_cons]
    cases hv : lineValue key line with
    | none =>
      have hne : lineKey line ≠ some key := by simpa [hv] using hhead
      cases hk : lineKey line with
      | none => exact hrest
      | some k => exact hrest.trans (count_cons_of_ne (by simpa [hk] using hne)).symm
    | some v =>
      have hk : lineKey line = some key := by simpa [hv] using hhead
      rw [hk, length_cons, count_cons_self, hrest, keysOf]

end Values

variable (hw : ∀ key value, kv.lookup key = some value → Writable key value)

include hw

theorem lineValue_pair {k v : Text} (hv : kv.lookup k = some v) (key : Text) :
    lineValue key (pair k v) = if k = key then some v else none := by
  rw [lineValue, readLine_pair (hw k v hv), bind_some]

/-- The first of the values a key of the map has is replaced, and no other. -/
theorem values_mergeLines (halike : ∀ line ∈ ls, ReadsAlike kv line) {value : Text}
    (hvalue : kv.lookup key = some value) :
    (mergeLines ls kv).1.filterMap (lineValue key) = (ls.filterMap (lineValue key)).set 0 value := by
  induction ls generalizing kv with
  | nil => rfl
  | cons line ls ih =>
    have hrest : ∀ l ∈ ls, ReadsAlike kv l := fun l hl ↦ halike l (mem_cons_of_mem line hl)
    have hmem := mem_of_lookup hvalue
    rcases line_cases kv line with ⟨k, v, hk, hv⟩ | hnone
    · rw [mergeLines_cons_of_lookup hk hv, filterMap_cons, lineValue_pair hw hv, filterMap_cons]
      by_cases hkey : k = key
      · subst hkey
        obtain ⟨w, hold⟩ :=
          isSome_iff_exists.mp ((lineValue_isSome_iff halike hmem mem_cons_self).mpr hk)
        obtain rfl := some_inj.mp (hv.symm.trans hvalue)
        rw [if_pos rfl, hold]
        refine congrArg (v :: ·) (filterMap_mergeLines (fun l hl k' hk' hin ↦ ?_) fun k' v' hv' ↦ ?_)
        · exact lineValue_eq_none hrest (mem_erase.mp hin).2 (mem_erase.mp hin).1 hl hk'
        · rw [lineValue_pair hw (lookup_of_erase hv'), if_neg (mem_erase.mp (mem_of_lookup hv')).1]
      · rw [if_neg hkey, lineValue_eq_none halike (mem_of_lookup hv) hkey mem_cons_self hk]
        refine ih (fun k' v' hv' ↦ hw k' v' (lookup_of_erase hv')) (fun l hl k' hk' ↦ ?_)
          ((lookup_erase_ne (Ne.symm hkey)).trans hvalue)
        exact hrest l hl k' (mem_erase.mp hk').2
    · have hold : lineValue key line = none := by
        rw [← not_isSome_iff_eq_none, lineValue_isSome_iff halike hmem mem_cons_self]
        exact fun hk ↦ hnone key hk hmem
      rw [mergeLines_cons_of_notMem hnone, filterMap_cons, filterMap_cons, hold]
      exact ih hw hrest hvalue

theorem getLast?_appended {value : Text} (hvalue : kv.lookup key = some value) :
    ((appended kv).filterMap (lineValue key)).getLast? = some value := by
  have hall : ∀ v ∈ (appended kv).filterMap (lineValue key), v = value := by
    refine fun v hv ↦ ?_
    obtain ⟨line, hline, hread⟩ := mem_filterMap.mp hv
    refine appended_forall (P := fun line ↦ lineValue key line = some v → v = value) ?_ line hline hread
    intro k w hw' hread
    rw [lineValue_pair hw hw'] at hread
    obtain ⟨rfl, hvw⟩ := ite_none_right_eq_some.mp hread
    rw [← some_inj.mp hvw, ← some_inj, ← hw', hvalue]
  have hone : value ∈ (appended kv).filterMap (lineValue key) := by
    refine mem_filterMap.mpr ⟨_, pair_mem_appended hvalue, ?_⟩
    rw [lineValue_pair hw hvalue, if_pos rfl]
  obtain ⟨v, hlast⟩ := ne_none_iff_exists'.mp (mt getLast?_eq_none_iff.mp (ne_nil_of_mem hone))
  rw [hlast, hall v (mem_of_getLast? hlast)]

/-- Minecraft reads the map's value for a key with one line at most, and otherwise the last line's. -/
theorem getLast?_merged (halike : ∀ line ∈ ls, ReadsAlike kv line) {value : Text}
    (hvalue : kv.lookup key = some value) :
    ((merged ls kv).filterMap (lineValue key)).getLast? = some value ↔
      (keysOf ls).count key ≤ 1 ∨ (ls.filterMap (lineValue key)).getLast? = some value := by
  have hlength := length_values halike (mem_of_lookup hvalue)
  have hw' : ∀ k v, (mergeLines ls kv).2.lookup k = some v → Writable k v :=
    fun k v hv ↦ hw k v (lookup_remaining hv).2
  rw [merged, filterMap_append, values_mergeLines hw halike hvalue]
  by_cases hkey : key ∈ keysOf ls
  · have hnone : (appended (mergeLines ls kv).2).filterMap (lineValue key) = [] := by
      refine filterMap_eq_nil_iff.mpr (appended_forall fun k v hv ↦ ?_)
      rw [lineValue_pair hw' hv, if_neg]
      rintro rfl
      exact (lookup_remaining hv).1 hkey
    rw [hnone, append_nil]
    have hcount := count_pos_iff.mpr hkey
    rcases hvalues : ls.filterMap (lineValue key) with _ | ⟨w, _ | ⟨w', rest⟩⟩
    · rw [hvalues, length_nil] at hlength
      omega
    · rw [hvalues] at hlength
      exact iff_of_true rfl (.inl hlength.ge)
    · rw [hvalues, length_cons, length_cons] at hlength
      rw [set_cons_zero, getLast?_cons_cons, getLast?_cons_cons, or_iff_right (by omega)]
  · have hcount := count_eq_zero.mpr hkey
    have hnil : ls.filterMap (lineValue key) = [] := length_eq_zero_iff.mp (hlength.trans hcount)
    rw [hnil]
    refine iff_of_true (getLast?_appended hw' ?_) (.inl (by omega))
    rw [lookup_mergeLines, if_neg hkey, hvalue]

theorem mergeLines_append (rest : List Text) : mergeLines ((mergeLines ls kv).1 ++ rest) kv =
    ((mergeLines ls kv).1 ++ (mergeLines rest (mergeLines ls kv).2).1,
      (mergeLines rest (mergeLines ls kv).2).2) := by
  induction ls generalizing kv with
  | nil => rfl
  | cons line ls ih =>
    rcases line_cases kv line with ⟨key, value, hkey, hvalue⟩ | hnone
    · rw [mergeLines_cons_of_lookup hkey hvalue, cons_append,
        mergeLines_cons_of_lookup (lineKey_pair (hw key value hvalue)) hvalue,
        ih fun k v hv ↦ hw k v (lookup_of_erase hv)]
      rfl
    · rw [mergeLines_cons_of_notMem hnone, cons_append, mergeLines_cons_of_notMem hnone, ih hw]
      rfl

theorem mergeLines_pairs {keys : List Text} {f : Text → Text} (hnodup : keys.Nodup)
    (hkeys : ∀ key ∈ keys, kv.lookup key = some (f key)) :
    (mergeLines (keys.map fun key ↦ pair key (f key)) kv).1 = keys.map fun key ↦ pair key (f key) := by
  induction keys generalizing kv with
  | nil => rfl
  | cons key keys ih =>
    rw [forall_mem_cons] at hkeys
    obtain ⟨hnew, hnodup⟩ := nodup_cons.mp hnodup
    rw [map_cons, mergeLines_cons_of_lookup (lineKey_pair (hw _ _ hkeys.1)) hkeys.1]
    refine congrArg _ (ih (fun k v hv ↦ hw k v (lookup_of_erase hv)) hnodup fun k hk ↦ ?_)
    have hne : k ≠ key := fun h ↦ hnew (h ▸ hk)
    rw [lookup_erase_ne hne, hkeys.2 k hk]

theorem mergeLines_appended : (mergeLines (appended kv) kv).1 = appended kv ∧
    appended (mergeLines (appended kv) kv).2 = [] := by
  refine ⟨?_, appended_eq_nil fun key ↦ ?_⟩
  · obtain ⟨keys, hnodup, hmem, heq⟩ := appended_eq kv
    rw [heq]
    refine mergeLines_pairs hw hnodup fun key hkey ↦ ?_
    obtain ⟨value, hvalue⟩ := exists_lookup ((hmem key).mp hkey)
    rw [hvalue, getD_some]
  · rw [lookup_mergeLines]
    split
    · rfl
    rename_i hkey
    by_contra hne
    obtain ⟨value, hvalue⟩ := ne_none_iff_exists'.mp hne
    exact hkey (mem_filterMap.mpr ⟨_, pair_mem_appended hvalue, lineKey_pair (hw key value hvalue)⟩)

/-- Merging the result once more leaves every line and has nothing to append. -/
theorem merged_merged : merged (merged ls kv) kv = merged ls kv := by
  have hw' : ∀ k v, (mergeLines ls kv).2.lookup k = some v → Writable k v :=
    fun k v hv ↦ hw k v (lookup_remaining hv).2
  obtain ⟨hsame, hnil⟩ := mergeLines_appended hw'
  rw [merged, merged, mergeLines_append hw, hsame, hnil, append_nil]

end Loop

/-! ## The text -/

section

variable {t : Text} {kv : Settings}

theorem unixBreaks_eq_self (h : 0x0D ∉ t) : unixBreaks t = t := by
  induction t with
  | nil => rfl
  | cons b t ih =>
    have hb : b ≠ 0x0D := fun hb ↦ h (by simp [hb])
    rw [unixBreaks.eq_2 _ _ (fun _ hcr ↦ absurd hcr hb), ih fun ht ↦ h (by simp [ht])]

theorem mem_lines (hcr : 0x0D ∉ unixBreaks t) {line : Text} (h : line ∈ lines t)
    {b : UInt8} (hb : b ∈ line) : b ≠ 0x0A ∧ b ≠ 0x0D := by
  have hmem : line ∈ (unixBreaks t).splitOn 0x0A := by
    rw [lines] at h
    split at h
    · exact mem_of_mem_dropLast h
    · exact h
  refine ⟨?_, ?_⟩
  · rintro rfl
    exact Fields.notMem_of_mem_splitOn hmem hb
  rintro rfl
  have hjoin : [0x0A].intercalate ((unixBreaks t).splitOn 0x0A) = unixBreaks t :=
    intercalate_splitOn _
  rw [← hjoin, Fields.mem_intercalate (by decide)] at hcr
  exact hcr ⟨line, hmem, hb⟩

theorem notMem_join {out : List Text} (h : ∀ line ∈ out, ∀ b ∈ line, b ≠ 0x0A ∧ b ≠ 0x0D) :
    (0x0D : UInt8) ∉ [0x0A].intercalate out ++ [0x0A] := by
  rw [mem_append, Fields.mem_intercalate (by decide)]
  rintro (⟨line, hline, hb⟩ | hb)
  · exact (h line hline _ hb).2 rfl
  · simp at hb

/-- The lines of a text that was joined from lines; from none there is an empty one. -/
theorem lines_join {out : List Text} (h : ∀ line ∈ out, ∀ b ∈ line, b ≠ 0x0A ∧ b ≠ 0x0D) :
    lines ([0x0A].intercalate out ++ [0x0A]) = if out = [] then [[]] else out := by
  rw [lines, unixBreaks_eq_self (notMem_join h)]
  by_cases hne : out = []
  · subst hne
    decide +kernel
  rw [if_neg hne, ← Fields.intercalate_append_nil hne, splitOn_intercalate _ _ (by simp)]
  · simp
  · intro line hline hb
    rcases mem_append.mp hline with hline | hline
    · exact (h line hline _ hb).1 rfl
    · simp [mem_singleton.mp hline] at hb

section

variable (hplain : Plain kv) (hcr : 0x0D ∉ unixBreaks t)

include hplain hcr

theorem merged_noBreaks : ∀ line ∈ merged (lines t) kv, ∀ b ∈ line, b ≠ 0x0A ∧ b ≠ 0x0D := by
  refine merged_forall (fun line hline b ↦ mem_lines hcr hline) fun key value hvalue b hb ↦ ?_
  have hbytes := hplain ⟨key, value⟩ (mem_lookup_iff.mp hvalue)
  rcases mem_append.mp hb with hb | hb
  · exact ⟨(hbytes b (mem_append_left _ hb)).1, (hbytes b (mem_append_left _ hb)).2.1⟩
  · rcases mem_cons.mp hb with rfl | hb
    · decide
    · exact ⟨(hbytes b (mem_append_right _ hb)).1, (hbytes b (mem_append_right _ hb)).2.1⟩

/-- The lines of the merged text. -/
theorem lines_merge : lines (mergeServerProperties t kv) =
    if merged (lines t) kv = [] then [[]] else merged (lines t) kv :=
  lines_join (merged_noBreaks hplain hcr)

theorem merge_noReturn : 0x0D ∉ unixBreaks (mergeServerProperties t kv) := by
  have hcr' : 0x0D ∉ mergeServerProperties t kv := notMem_join (merged_noBreaks hplain hcr)
  rwa [unixBreaks_eq_self hcr']

theorem filterMap_lines_merge {α : Type} {f : Text → Option α} (hnil : f [] = none) :
    (lines (mergeServerProperties t kv)).filterMap f = (merged (lines t) kv).filterMap f := by
  rw [lines_merge hplain hcr]
  split
  · rename_i hnone
    simp [hnone, hnil]
  · rfl

/-- A key with white space at its ends is never found again, and appended each time. -/
theorem trimmed_of_merge_merge
    (hsame : mergeServerProperties (mergeServerProperties t kv) kv = mergeServerProperties t kv)
    {key value : Text} (hvalue : kv.lookup key = some value) : Trimmed key := by
  by_contra hnot
  have happended : appended (mergeLines (lines (mergeServerProperties t kv)) kv).2 ≠ [] := by
    refine ne_nil_of_mem (a := pair key value) (pair_mem_appended ?_)
    rw [lookup_mergeLines, if_neg, hvalue]
    intro hkey
    obtain ⟨line, -, hline⟩ := mem_filterMap.mp hkey
    exact hnot (trimmed_of_lineKey hline)
  have hlines := lines_merge hplain (merge_noReturn hplain hcr)
  rw [hsame, if_neg (by simp [merged, happended])] at hlines
  have hlength := congrArg length hlines
  rw [merged, length_append, length_mergeLines] at hlength
  exact happended (length_eq_zero_iff.mp (by omega))

end

theorem merge_merge (hplain : Plain kv) (hcr : 0x0D ∉ unixBreaks t)
    (hw : ∀ key value, kv.lookup key = some value → Writable key value) :
    mergeServerProperties (mergeServerProperties t kv) kv = mergeServerProperties t kv := by
  have hagain : [0x0A].intercalate (merged (lines (mergeServerProperties t kv)) kv) =
      [0x0A].intercalate (merged (lines t) kv) := by
    rw [lines_merge hplain hcr]
    split
    · -- Nothing was written: there were neither lines nor settings.
      rename_i hnone
      obtain ⟨hout, hleft⟩ := append_eq_nil_iff.mp hnone
      have hls : lines t = [] := length_eq_zero_iff.mp (by rw [← length_mergeLines _ kv, hout, length_nil])
      rw [hls] at hleft
      have hstep : mergeLines [[]] kv = ([[]], kv) := rfl
      rw [hnone, merged, hstep, show appended kv = [] from hleft]
      rfl
    · rw [merged_merged hw]
  rw [mergeServerProperties, ← merged, hagain]
  rfl

end

/-- A line that holds something other than a setting of the map. -/
def isOther (kv : Settings) (line : Text) : Bool :=
  line ≠ [] && (lineKey line).all fun key ↦ !(kv.lookup key).isSome

/-- A key of the map that has several lines in the text has the map's value on the last already. -/
def Settled (t : Text) (kv : Settings) : Prop :=
  ∀ key value, kv.lookup key = some value → (keysOf (lines t)).count key ≤ 1 ∨ read t key = some value

/-- **Merged settings are the ones the server reads**, exactly where they can be written on a line and no
later line of one of their keys has another value: Minecraft reads the map's value for each of its keys
and the old value for every other one, the other lines are kept in their order, and merging once more
changes nothing. -/
theorem merged_settings_read {t : Text} {kv : Settings} (hplain : Plain kv) (hcr : 0x0D ∉ unixBreaks t)
    (halike : ∀ line ∈ lines t, ReadsAlike kv line) :
    ((∀ key value, kv.lookup key = some value → read (mergeServerProperties t kv) key = some value) ∧
    (∀ key, key ∉ kv → read (mergeServerProperties t kv) key = read t key) ∧
    (lines (mergeServerProperties t kv)).filter (isOther kv) = (lines t).filter (isOther kv) ∧
    mergeServerProperties (mergeServerProperties t kv) kv = mergeServerProperties t kv) ↔
    (∀ e ∈ kv.entries, Writable e.1 e.2) ∧ Settled t kv := by
  have hread {key value : Text} (hw : ∀ key value, kv.lookup key = some value → Writable key value)
      (hvalue : kv.lookup key = some value) : read (mergeServerProperties t kv) key = some value ↔
        (keysOf (lines t)).count key ≤ 1 ∨ read t key = some value := by
    rw [read, filterMap_lines_merge hplain hcr rfl]
    exact getLast?_merged hw halike hvalue
  constructor
  · rintro ⟨hset, -, -, hsame⟩
    have hw : ∀ key value, kv.lookup key = some value → Writable key value := by
      intro key value hvalue
      obtain ⟨line, -, hline⟩ := mem_filterMap.mp (mem_of_getLast? (hset key value hvalue))
      obtain ⟨⟨k, v⟩, hp, hif⟩ := bind_eq_some_iff.mp hline
      obtain ⟨rfl, heq⟩ := ite_none_right_eq_some.mp hif
      obtain rfl := some_inj.mp heq
      obtain ⟨hbytes, hfirst, hbegins⟩ := of_readLine hp
      exact ⟨trimmed_of_merge_merge hplain hcr hsame hvalue, hbytes, hfirst, hbegins⟩
    exact ⟨fun e he ↦ hw e.1 e.2 (mem_lookup_iff.mpr he),
      fun key value hvalue ↦ (hread hw hvalue).mp (hset key value hvalue)⟩
  · rintro ⟨hentries, hsettled⟩
    have hw : ∀ key value, kv.lookup key = some value → Writable key value :=
      fun key value hvalue ↦ hentries ⟨key, value⟩ (mem_lookup_iff.mp hvalue)
    refine ⟨fun key value hvalue ↦ (hread hw hvalue).mpr (hsettled key value hvalue),
      fun key hkey ↦ ?_, ?_, merge_merge hplain hcr hw⟩
    · rw [read, filterMap_lines_merge hplain hcr rfl, read, filterMap_merged]
      · intro line hline k hk hin
        have hne : k ≠ key := fun h ↦ hkey (h ▸ hin)
        exact lineValue_eq_none halike hin hne hline hk
      · intro k v hv
        rw [lineValue_pair hw hv, if_neg]
        rintro rfl
        exact hkey (mem_of_lookup hv)
    · rw [← filterMap_eq_filter, filterMap_lines_merge hplain hcr (by simp [isOther]), filterMap_merged]
      · intro line _ k hk hin
        simp [isOther, mem_def.mp hk, lookup_isSome.mpr hin]
      · intro k v hv
        simp [isOther, lineKey_pair (hw k v hv), hv]

/-- A text with a comment and Windows line breaks. -/
def sample : Text := lit "# Minecraft\r\nmotd=x\r\n\r\nrcon.port = 1\r\n"

def rconPort : Settings := AList.singleton (lit "rcon.port") (lit "25575")

theorem merged_settings_read_sample :
    mergeServerProperties sample rconPort = lit "# Minecraft\nmotd=x\n\nrcon.port=25575\n" ∧
      read (mergeServerProperties sample rconPort) (lit "rcon.port") = some (lit "25575") := by
  have hplain : Plain rconPort := by
    unfold Plain
    decide +kernel
  have halike : ∀ line ∈ lines sample, ReadsAlike rconPort line := by
    unfold ReadsAlike
    decide +kernel
  refine ⟨by decide +kernel, ((merged_settings_read hplain (by decide +kernel) halike).mpr
    ⟨fun e he ↦ ?_, fun key value hvalue ↦ .inl ?_⟩).1 _ _ (by decide +kernel)⟩
  · obtain rfl := mem_singleton.mp he
    exact ⟨by decide +kernel, by decide +kernel, by decide +kernel, by decide +kernel⟩
  · have hkey : key ∈ rconPort.keys := mem_of_lookup hvalue
    obtain rfl : key = lit "rcon.port" := mem_singleton.mp hkey
    decide +kernel

/-- Of two lines of a key the first is replaced, and the second is read.  A key that begins a comment is
not read at all, a value loses the blanks before it, and a no-break space before a key is taken for no
part of it. -/
theorem not_merged_settings_read :
    (let merge text key value := mergeServerProperties (lit text) (AList.singleton (lit key) (lit value))
    read (merge "a=1\na=2\n" "a" "3") (lit "a") = some (lit "2") ∧
      read (merge "" "#a" "3") (lit "#a") = none ∧ read (merge "" "a" " 3") (lit "a") = some (lit "3") ∧
      read (lit "\u00a0a=1\n") (lit "\u00a0a") = some (lit "1") ∧
      read (merge "\u00a0a=1\n" "a" "3") (lit "\u00a0a") = none) := by
  decide +kernel

end Dylaris.Voicecfg
