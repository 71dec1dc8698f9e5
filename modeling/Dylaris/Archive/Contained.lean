import Dylaris.Archive.Extract
import Dylaris.Library.Fields

/-!
# What an extraction can do

Two checks keep an entry inside the destination: one on the text of the path, one on the disk.  The
first says that the path is the destination's with names behind it (`prefix_of_guard`); the second
that no link stands at any of these names (`linkFreeFrom_ok`), so that the path as it is written is
where the kernel goes.  The second check trusts the directories of `verified`, and it stops at the
first name that does not exist.  Both are sound because nothing is removed and no link is made
(`Adds`), and because nothing is below a path at which there is nothing (`WellFormed`).

`Inv` is what the loop of `Extract` keeps, `Ends` what is left of it when an entry fails.
-/

set_option autoImplicit false

open Text Disk

namespace Dylaris.Archive

open List Option

/-! ## Names inside -/

theorem plain_of_mem_cleanComps {comps : List Text} {s : Text} (h : s ∈ cleanComps comps) :
    Plain s ∧ s ∈ comps := by
  have hfold : ∀ (comps acc : List Text), s ∈ comps.foldl (fun acc c ↦
      if c = [] ∨ c = lit "." then acc else if c = lit ".." then acc.dropLast else acc ++ [c]) acc →
      s ∈ acc ∨ (Plain s ∧ s ∈ comps) := by
    intro comps
    induction comps with
    | nil => exact fun acc h ↦ .inl h
    | cons c rest ih =>
      intro acc h
      rw [foldl_cons] at h
      rcases ih _ h with hacc | ⟨hp, hmem⟩
      · split at hacc
        · exact .inl hacc
        rename_i hc
        split at hacc
        · exact .inl (mem_of_mem_dropLast hacc)
        rename_i hc'
        rcases mem_append.mp hacc with hacc | hacc
        · exact .inl hacc
        · rw [mem_singleton.mp hacc]
          exact .inr ⟨⟨fun h ↦ hc (.inl h), fun h ↦ hc (.inr h), hc'⟩, mem_cons_self⟩
      · exact .inr ⟨hp, mem_cons_of_mem _ hmem⟩
  exact (hfold comps [] h).resolve_left (by simp)

/-- A path that passes the zip-slip guard is the destination or a path in it. -/
theorem prefix_of_guard {dest target : List Text} (hdest : ∀ s ∈ dest, Plain s ∧ sep ∉ s)
    (htarget : ∀ s ∈ target, sep ∉ s)
    (h : ¬ (pathText target ≠ pathText dest ∧
      (pathText dest ++ [sep]).isPrefixOf (pathText target) = false)) : dest <+: target := by
  cases dest with
  | nil => exact nil_prefix
  | cons s dest =>
    have hlong : 2 ≤ (pathText (s :: dest)).length := by
      have hs := length_pos_iff.mpr (hdest s mem_cons_self).1.1
      simp only [pathText, reduceCtorEq, if_false, flatMap_cons, cons_append,
        length_cons, length_append]
      omega
    have htne : pathText target = pathText (s :: dest) ∨
        pathText (s :: dest) ++ [sep] <+: pathText target := by
      rw [not_and_or, not_not, Bool.not_eq_false] at h
      exact h.imp id isPrefixOf_iff_prefix.mp
    have hne : target ≠ [] := by
      rintro rfl
      rcases htne with heq | hpre
      · rw [← heq] at hlong
        exact absurd hlong (by decide)
      · have := hpre.length_le
        rw [length_append] at this
        simp only [pathText, if_true, length_singleton] at this hlong
        omega
    rw [pathText, if_neg hne, pathText, if_neg (by simp)] at htne
    rcases htne with heq | hpre
    · rw [Fields.flatMap_inj htarget (fun s hs ↦ (hdest s hs).2) heq]
    · exact Fields.prefix_of_flatMap_prefix (fun s hs ↦ (hdest s hs).2) htarget hpre

/-! ## The check on the disk -/

section Check

variable {d d' : Disk} {dest R rel done segs : List Text} {verified verified' : List (List Text)}
  {m : Nat}

/-- The directories that were cleared: there are directories all the way to them. -/
def Sound (d : Disk) (dest R : List Text) (verified : List (List Text)) : Prop :=
  ∀ v ∈ verified, ∃ q, v = dest ++ q ∧ Dirs d R q

section

variable (h : Sound d dest R verified)

include h

theorem Sound.kept
    (hkept : ∀ p n, d.tree p = some n → d'.tree p = some n) : Sound d' dest R verified := by
  intro v hv
  obtain ⟨q, hq, hdirs⟩ := h v hv
  exact ⟨q, hq, fun pre hpre ↦ hkept _ _ (hdirs pre hpre)⟩

theorem Sound.cons (hdirs : Dirs d R done) :
    Sound d dest R ((dest ++ done) :: verified) := by
  intro v hv
  rcases mem_cons.mp hv with rfl | hv
  · exact ⟨done, rfl, hdirs⟩
  · exact h v hv

theorem Sound.dirs (hv : verified.contains (dest ++ done) = true) :
    Dirs d R done := by
  obtain ⟨q, hq, hdirs⟩ := h _ (contains_iff_mem.mp hv)
  rw [append_cancel_left hq]
  exact hdirs

end

theorem dirs_snoc {s : Text} (h : Dirs d R done) (hs : d.tree (R ++ (done ++ [s])) = some .dir) :
    Dirs d R (done ++ [s]) := by
  intro pre hpre
  rcases prefix_concat_iff.mp hpre with rfl | hpre
  · exact hs
  · exact h pre hpre

/-- A check that goes on behind a file fails, unless it is at its end. -/
theorem linkFreeFrom_file {ino : Nat} {s : Text} (hR : Leads d dest R) (hdone : Dirs d R done)
    (hplain : ∀ s ∈ done, Plain s) (hs : Plain s) (hsegs : ∀ s ∈ segs, Plain s)
    (hfile : d.tree (R ++ (done ++ [s])) = some (.file ino)) (hv : Sound d dest R verified)
    (h : linkFreeFrom d rel (dest ++ (done ++ [s])) segs verified = .ok (m, verified')) :
    segs = [] ∧ m = 0 ∧ verified' = verified := by
  cases segs with
  | nil =>
    obtain ⟨rfl, rfl⟩ := Prod.mk.inj (Except.ok.inj h)
    exact ⟨rfl, rfl, rfl⟩
  | cons c rest =>
    obtain ⟨h1, h2, -⟩ := hsegs c mem_cons_self
    rw [linkFreeFrom, if_neg (by simp [h1, h2])] at h
    split at h
    · rename_i hmem
      rw [append_assoc] at hmem
      have hdir := hv.dirs hmem (done ++ [s]) (prefix_append _ _)
      rw [hfile] at hdir
      cases hdir
    · have hlstat := (hR.append hplain hdone).lstat_file hs (by rw [append_assoc]; exact hfile)
        (cons_ne_nil c [])
      have hpath : dest ++ (done ++ [s]) ++ [c] = dest ++ done ++ s :: [c] := by simp
      rw [hpath, hlstat] at h
      cases h

/-- **What the check on the disk finds out**: there is no link on the way, not more is missing than it
counts, and what it remembers are directories. -/
theorem linkFreeFrom_ok (hd : d.WellFormed) (hR : Leads d dest R) (hdone : Dirs d R done)
    (hplain : ∀ s ∈ done, Plain s) (hsegs : ∀ s ∈ segs, Plain s) (hv : Sound d dest R verified)
    (h : linkFreeFrom d rel (dest ++ done) segs verified = .ok (m, verified')) :
    NoLinks d (R ++ done) segs ∧ (d.missing (R ++ done) segs).length ≤ m ∧
      Sound d dest R verified' := by
  induction segs generalizing done verified with
  | nil =>
    obtain ⟨rfl, rfl⟩ := Prod.mk.inj (Except.ok.inj h)
    refine ⟨?_, le_refl _, hv⟩
    intro pre hpre a t
    rw [prefix_nil.mp hpre, append_nil, hdone done prefix_rfl]
    simp
  | cons c rest ih =>
    have hc := hsegs c mem_cons_self
    have hrest := fun s hs ↦ hsegs s (mem_cons_of_mem c hs)
    have hplain' : ∀ s ∈ done ++ [c], Plain s := by
      intro s hs
      rcases mem_append.mp hs with hs | hs
      · exact hplain s hs
      · exact mem_singleton.mp hs ▸ hc
    have hcur : ∀ a t, d.tree (R ++ done) ≠ some (.link a t) := by
      simp [hdone done prefix_rfl]
    -- The rest is the same check from one name further on.
    have hgo : ∀ {v}, Dirs d R (done ++ [c]) → Sound d dest R v →
        linkFreeFrom d rel (dest ++ (done ++ [c])) rest v = .ok (m, verified') →
        NoLinks d (R ++ done) (c :: rest) ∧ (d.missing (R ++ done) (c :: rest)).length ≤ m ∧
          Sound d dest R verified' := by
      intro v hdirs hv h
      obtain ⟨hno, hlen, hv'⟩ := ih hdirs hplain' hrest hv h
      have hdir : d.tree (R ++ done ++ [c]) = some .dir := by
        rw [append_assoc]
        exact hdirs _ prefix_rfl
      rw [← append_assoc] at hno hlen
      refine ⟨noLinks_cons hcur hno, ?_, hv'⟩
      rw [missing, if_neg (by rw [hdir]; simp), nil_append]
      exact hlen
    rw [linkFreeFrom, if_neg (by simp [hc.1, hc.2.1])] at h
    rw [append_assoc] at h
    split at h
    · rename_i hmem
      exact hgo (hv.dirs hmem) hv h
    have hlstat := (hR.append hplain hdone).lstat hc
    rw [append_assoc, append_assoc] at hlstat
    rw [hlstat] at h
    cases htree : d.tree (R ++ (done ++ [c])) with
    | none =>
      rw [htree] at h
      obtain ⟨rfl, rfl⟩ := Prod.mk.inj (Except.ok.inj h)
      refine ⟨noLinks_cons hcur ?_, length_missing_le _ _ _, hv⟩
      intro pre _ a t
      rw [append_assoc R, hd.eq_none htree]
      simp
    | some node =>
      rw [htree] at h
      cases node with
      | dir =>
        have hdirs := dirs_snoc hdone htree
        exact hgo hdirs (hv.cons hdirs) h
      | file ino =>
        obtain ⟨rfl, rfl, rfl⟩ := linkFreeFrom_file hR hdone hplain hc hrest htree hv h
        refine ⟨noLinks_cons hcur ?_, ?_, hv⟩
        · intro pre hpre a t
          rw [prefix_nil.mp hpre, append_nil, append_assoc, htree]
          simp
        · rw [missing, if_neg (by rw [append_assoc, htree]; simp)]
          exact le_refl _
      | link a t => cases h

end Check

/-! ## Making an entry -/

section Place

variable {d d' : Disk} {new : List (List Text)} {inos : Nat → Prop} {dest R rel : List Text}
  {faults : Faults} {f : Entry} {st : St} {budget : Int} {k i : Nat}

/-- An inode that is new, or that of a file in the destination. -/
def Inside (d : Disk) (R : List Text) (i : Nat) : Prop :=
  d.nextIno ≤ i ∨ ∃ rel, rel ≠ [] ∧ d.tree (R ++ rel) = some (.file i)

/-- What is inside later was inside before, or is new. -/
theorem Inside.of_adds (h : Adds d d' new inos) (hi : Inside d' R i) : Inside d R i := by
  rcases hi with hi | ⟨rel, hrel, hi⟩
  · exact .inl (h.nextIno.trans hi)
  · rcases h.newFile _ i hi with hi | hi
    · exact .inr ⟨rel, hrel, hi⟩
    · exact .inl hi

theorem limitOf_le (budget : Int) : limitOf budget ≤ budget + 1 := by
  rw [limitOf]
  split
  · exact le_refl _
  · omega

/-- An entry writes at most one byte past the budget, and it succeeds only within it. -/
theorem extractOne_written (faults : Faults) (d : Disk) (k : Nat) (f : Entry) (target : List Text)
    (budget : Int) :
    ((extractOne faults d k f target budget).2.1 : Int) ≤ max 0 (budget + 1) ∧
      ((extractOne faults d k f target budget).2.2 = none →
        ((extractOne faults d k f target budget).2.1 : Int) ≤ budget) := by
  have hle : ((f.content.take (limitOf budget).toNat).length : Int) ≤ max 0 (budget + 1) := by
    have := limitOf_le budget
    rw [length_take]
    omega
  unfold extractOne
  split
  · exact ⟨by simp, by simp⟩
  split
  · exact ⟨by simp, by simp⟩
  dsimp only
  split
  · rename_i m _
    refine ⟨?_, by simp⟩
    have hshort := length_take_le' m (f.content.take (limitOf budget).toNat)
    dsimp only
    omega
  · refine ⟨hle, ?_⟩
    intro hnone
    split at hnone
    · cases hnone
    · split at hnone
      · cases hnone
      · rename_i hfits
        exact not_lt.mp hfits

/-- An entry inside is written to its own file. -/
theorem extractOne_adds (hd : d.WellFormed) (hR : Leads d dest R) (hrel : rel ≠ [])
    (hplain : ∀ s ∈ rel, Plain s) (hno : NoLinks d R rel) :
    (extractOne faults d k f (dest ++ rel) budget).1.WellFormed ∧
      Adds d (extractOne faults d k f (dest ++ rel) budget).1 (d.missing R rel) (Inside d R) := by
  unfold extractOne
  split
  · exact ⟨hd, Adds.refl d⟩
  split
  · exact ⟨hd, Adds.refl d⟩
  rename_i d' ino ho
  have hinos : ∀ i, d.nextIno ≤ i ∨ d.tree (R ++ rel) = some (.file i) → Inside d R i :=
    fun i hi ↦ hi.imp id fun hfile ↦ ⟨rel, hrel, hfile⟩
  obtain ⟨hadds, hino⟩ := adds_openTrunc hR hrel hplain hno hinos ho
  have hd' := hd.openTrunc ho
  dsimp only
  split
  · exact ⟨hd'.write _ _, hadds.trans (adds_write _ hino)⟩
  · exact ⟨hd'.write _ _, hadds.trans (adds_write _ hino)⟩

/-- An entry with the name of the destination itself is not written. -/
theorem extractOne_dest (hR : Leads d dest R) :
    (extractOne faults d k f dest budget).1 = d := by
  unfold extractOne openTrunc
  rw [hR.walk]
  simp only [hR.dir]
  split
  · rfl
  split
  · rfl
  · rename_i h
    split at h
    · cases h
    · cases h

/-- The directories an entry is made in. -/
theorem mkdirAll_adds (hd : d.WellFormed) (hR : Leads d dest R) (hplain : ∀ s ∈ rel, Plain s)
    (hno : NoLinks d R rel) :
    (mkdirAll faults.mkdir (dest ++ rel).reverse k d).1.WellFormed ∧
      Adds d (mkdirAll faults.mkdir (dest ++ rel).reverse k d).1 (d.missing R rel) (Inside d R) := by
  refine ⟨hd.mkdirAll, ?_⟩
  have hadds : Adds d (mkdirAll faults.mkdir (rel.reverse ++ dest.reverse) k d).1
      (d.missing R rel.reverse.reverse) (Inside d R) :=
    adds_mkdirAll hR (fun s hs ↦ hplain s (mem_reverse.mp hs))
      (by rw [reverse_reverse]; exact hno)
  rw [reverse_reverse] at hadds
  rw [reverse_append]
  exact hadds

/-- Where the path of the destination leads to a directory, so does the path above it. -/
theorem mkdirAll_dropLast (hd : d.WellFormed) (hR : Leads d dest R) :
    mkdirAll faults.mkdir dest.dropLast.reverse k d = (d, k, none) := by
  rcases eq_nil_or_concat dest with rfl | ⟨above, s, rfl⟩
  · rfl
  · rw [concat_eq_append] at hR ⊢
    rw [dropLast_concat]
    obtain ⟨r, hw, hr⟩ := hd.walk_left hd.root (cons_ne_nil s []) hR.walk
    exact mkdirAll_of_leads ⟨hw, hr⟩

/-- **What making an entry does to the disk**: it adds along the entry's own path, and it writes to
files in the destination. -/
theorem place_adds (faults : Faults) (f : Entry) (hd : st.disk.WellFormed) (hR : Leads st.disk dest R)
    (hplain : ∀ s ∈ rel, Plain s) (hno : NoLinks st.disk R rel) :
    (place faults st f (dest ++ rel)).1.disk.WellFormed ∧
      Adds st.disk (place faults st f (dest ++ rel)).1.disk (st.disk.missing R rel)
        (Inside st.disk R) := by
  unfold place
  split
  · exact mkdirAll_adds hd hR hplain hno
  by_cases hrel : rel = []
  · subst hrel
    rw [append_nil, mkdirAll_dropLast hd hR]
    dsimp only
    rw [extractOne_dest hR]
    exact ⟨hd, Adds.refl _⟩
  · have hpre : rel.dropLast <+: rel := dropLast_prefix rel
    obtain ⟨hd', hadds⟩ := mkdirAll_adds (k := st.ops) hd hR
      (fun s hs ↦ hplain s (hpre.subset hs)) (hno.of_prefix hpre)
    rw [dropLast_append_of_ne_nil hrel]
    have hadds := hadds.mono (fun _ ↦ missing_prefix_subset hpre) fun _ hi ↦ hi
    split
    · rename_i d' k' e heq
      rw [heq] at hd' hadds
      exact ⟨hd', hadds⟩
    rename_i d' k' heq
    rw [heq] at hd' hadds
    obtain ⟨hd'', hadds'⟩ := extractOne_adds hd' (hadds.leads hR) hrel hplain
      (hadds.noLinks hno)
    exact ⟨hd'', hadds.trans (hadds'.mono (fun _ ↦ hadds.missing_subset)
      fun _ hi ↦ hi.of_adds hadds)⟩

end Place

/-! ## The loop -/

section Loop

variable {d d' d₁ : Disk} {dest R rel : List Text} {faults : Faults} {f : Entry} {st st' : St}
  {cap n m : Nat} {b : Int}

/-- Since the disk was `d₁`, at most `n` files and directories were made, all in the destination, and
only files in the destination were written. -/
def Made (d₁ : Disk) (R : List Text) (n : Nat) (d : Disk) : Prop :=
  ∃ made, Adds d₁ d made (Inside d₁ R) ∧ (∀ p ∈ made, ∃ rel, rel ≠ [] ∧ p = R ++ rel) ∧
    made.length ≤ n

theorem Made.start (d₁ : Disk) (R : List Text) : Made d₁ R 0 d₁ :=
  ⟨[], Adds.refl d₁, fun _ hp ↦ absurd hp not_mem_nil, le_refl _⟩

theorem Made.mono (h : Made d₁ R n d) (hle : n ≤ m) : Made d₁ R m d := by
  obtain ⟨made, hadds, hin, hlen⟩ := h
  exact ⟨made, hadds, hin, hlen.trans hle⟩

theorem Made.add (h : Made d₁ R n d) (hadds : Adds d d' (d.missing R rel) (Inside d R))
    (hlen : (d.missing R rel).length ≤ m) : Made d₁ R (n + m) d' := by
  obtain ⟨made, hadds₁, hin, hlen₁⟩ := h
  refine ⟨made ++ d.missing R rel, ?_, ?_, ?_⟩
  · exact (hadds₁.mono (fun p hp ↦ mem_append_left _ hp) fun _ hi ↦ hi).trans
      (hadds.mono (fun p hp ↦ mem_append_right _ hp) fun _ hi ↦ hi.of_adds hadds₁)
  · intro p hp
    rcases mem_append.mp hp with hp | hp
    · exact hin p hp
    · obtain ⟨pre, hne, -, hpre, -⟩ := of_mem_missing hp
      exact ⟨pre, hne, hpre⟩
  · rw [length_append]
    exact Nat.add_le_add hlen₁ hlen

/-- What was written and what may still be written. -/
structure Spent (b : Int) (st : St) : Prop where
  sum : (st.written.sum : Int) + st.budget = b
  fits : st.written.sum = 0 ∨ 0 ≤ st.budget

/-- What holds between two entries. -/
structure Inv (d₁ : Disk) (dest R : List Text) (cap : Nat) (b : Int) (st : St) : Prop where
  wellFormed : st.disk.WellFormed
  made : Made d₁ R st.created st.disk
  created : st.created ≤ cap
  sound : Sound st.disk dest R st.verified
  spent : Spent b st

/-- What holds when an entry fails, too. -/
structure Ends (d₁ : Disk) (R : List Text) (cap : Nat) (b : Int) (st : St) : Prop where
  made : Made d₁ R cap st.disk
  written : (st.written.sum : Int) ≤ max 0 (b + 1)

theorem Spent.written_le (h : Spent b st) : (st.written.sum : Int) ≤ max 0 b := by
  have := h.sum
  rcases h.fits with hzero | hpos
  · omega
  · omega

theorem Inv.ends (h : Inv d₁ dest R cap b st) : Ends d₁ R cap b st :=
  ⟨h.made.mono h.created, h.spent.written_le.trans (by omega)⟩

theorem Inv.leads (h : Inv d₁ dest R cap b st) (hR : Leads d₁ dest R) : Leads st.disk dest R := by
  obtain ⟨made, hadds, -⟩ := h.made
  exact hadds.leads hR

/-- The bytes of an entry. -/
theorem Spent.place (h : Spent b st) (faults : Faults) (f : Entry) (target : List Text) :
    ((place faults st f target).1.written.sum : Int) ≤ max 0 (b + 1) ∧
      ((place faults st f target).2 = none → Spent b (place faults st f target).1) := by
  have hnow : (st.written.sum : Int) ≤ max 0 (b + 1) := h.written_le.trans (by omega)
  unfold Archive.place
  split
  · exact ⟨hnow, fun _ ↦ ⟨h.sum, h.fits⟩⟩
  split
  · exact ⟨hnow, by simp⟩
  rename_i d k _
  obtain ⟨hle, hok⟩ := extractOne_written faults d k f target st.budget
  have hsum := h.sum
  have hfits := h.fits
  dsimp only
  generalize extractOne faults d k f target st.budget = r at hle hok ⊢
  obtain ⟨d', n, err⟩ := r
  dsimp only at hle hok ⊢
  rw [sum_append, sum_singleton]
  refine ⟨by omega, ?_⟩
  rintro rfl
  have hn := hok rfl
  constructor
  · dsimp only
    rw [sum_append, sum_singleton, if_pos rfl]
    omega
  · dsimp only
    rw [if_pos rfl]
    omega

theorem place_created (faults : Faults) (st : St) (f : Entry) (target : List Text) :
    (place faults st f target).1.created = st.created ∧
      (place faults st f target).1.verified = st.verified := by
  unfold place
  split
  · exact ⟨rfl, rfl⟩
  · split
    · exact ⟨rfl, rfl⟩
    · exact ⟨rfl, rfl⟩

/-- The check goes along the names behind the destination. -/
theorem linkFreeUnder_eq (d : Disk) (dest rel : List Text) (verified : List (List Text)) :
    linkFreeUnder d dest (dest ++ rel) verified
      = linkFreeFrom d (relSegs dest (dest ++ rel)) dest rel verified := by
  rw [linkFreeUnder]
  by_cases hrel : rel = []
  · subst hrel
    rw [append_nil, relSegs, if_pos rfl]
    unfold linkFreeFrom
    rw [if_pos (.inr rfl)]
    rfl
  · have hsegs : relSegs dest (dest ++ rel) = rel := by
      rw [relSegs, if_neg (by simp [hrel]), drop_left]
    rw [hsegs]

theorem linkFreeUnder_ok (hd : d.WellFormed) (hR : Leads d dest R) (hplain : ∀ s ∈ rel, Plain s)
    {verified verified' : List (List Text)} (hv : Sound d dest R verified)
    (h : linkFreeUnder d dest (dest ++ rel) verified = .ok (m, verified')) :
    NoLinks d R rel ∧ (d.missing R rel).length ≤ m ∧ Sound d dest R verified' := by
  have hstart : Dirs d R [] := by
    intro pre hpre
    rw [prefix_nil.mp hpre, append_nil, hR.dir]
  rw [linkFreeUnder_eq] at h
  have hnil : linkFreeFrom d (relSegs dest (dest ++ rel)) (dest ++ []) rel verified
      = .ok (m, verified') := by
    rw [append_nil, h]
  have hok := linkFreeFrom_ok hd hR hstart (fun s hs ↦ absurd hs not_mem_nil) hplain hv hnil
  rw [append_nil] at hok
  exact hok

theorem notMem_of_mem_splitPath (t : Text) : ∀ s ∈ splitPath t, sep ∉ s :=
  fun _ hs ↦ Fields.notMem_of_mem_splitOn hs

/-- The path of an entry that passes the zip-slip guard: the destination and plain names. -/
theorem target_eq {comps : List Text} (hdest : ∀ s ∈ dest, Plain s ∧ sep ∉ s)
    (hcomps : ∀ s ∈ comps, sep ∉ s)
    (h : ¬ (pathText (cleanComps (dest ++ comps)) ≠ pathText dest ∧
      (pathText dest ++ [sep]).isPrefixOf (pathText (cleanComps (dest ++ comps))) = false)) :
    ∃ rel, cleanComps (dest ++ comps) = dest ++ rel ∧ ∀ s ∈ rel, Plain s := by
  have hmem : ∀ s ∈ cleanComps (dest ++ comps), Plain s ∧ sep ∉ s := by
    intro s hs
    obtain ⟨hplain, hs⟩ := plain_of_mem_cleanComps hs
    refine ⟨hplain, ?_⟩
    rcases mem_append.mp hs with hs | hs
    · exact (hdest s hs).2
    · exact hcomps s hs
  obtain ⟨rel, hrel⟩ := prefix_of_guard hdest (fun s hs ↦ (hmem s hs).2) h
  exact ⟨rel, hrel.symm, fun s hs ↦ (hmem s (hrel ▸ mem_append_right dest hs)).1⟩

/-- The entry is made in a state that already counts what it will make. -/
theorem Inv.place (hd : st.disk.WellFormed) (hmade : Made d₁ R n st.disk) (hR : Leads st.disk dest R)
    (hplain : ∀ s ∈ rel, Plain s) (hno : NoLinks st.disk R rel)
    (hlen : n + (st.disk.missing R rel).length ≤ st.created) (hcap : st.created ≤ cap)
    (hsound : Sound st.disk dest R st.verified) (hspent : Spent b st) :
    Ends d₁ R cap b (place faults st f (dest ++ rel)).1 ∧
      ((place faults st f (dest ++ rel)).2 = none →
        Inv d₁ dest R cap b (place faults st f (dest ++ rel)).1) := by
  obtain ⟨hd', hadds⟩ := place_adds faults f hd hR hplain hno
  obtain ⟨hcreated, hverified⟩ := place_created faults st f (dest ++ rel)
  obtain ⟨hwritten, hspent'⟩ := hspent.place faults f (dest ++ rel)
  have hmade' := (hmade.add hadds (le_refl _)).mono hlen
  refine ⟨⟨hmade'.mono hcap, hwritten⟩, fun hnone ↦ ⟨hd', ?_, ?_, ?_, hspent' hnone⟩⟩
  · rw [hcreated]
    exact hmade'
  · rw [hcreated]
    exact hcap
  · rw [hverified]
    exact hsound.kept hadds.kept

/-- **One entry** keeps the invariant, or fails with nothing done that is not allowed. -/
theorem Inv.extractEntry (h : Inv d₁ dest R cap b st) (faults : Faults) (f : Entry)
    (hR : Leads d₁ dest R) (hdest : ∀ s ∈ dest, Plain s ∧ sep ∉ s) :
    Ends d₁ R cap b (extractEntry faults cap dest st f).1 ∧
      ((extractEntry faults cap dest st f).2 = none →
        Inv d₁ dest R cap b (extractEntry faults cap dest st f).1) := by
  unfold Archive.extractEntry
  dsimp only
  split
  · exact ⟨h.ends, by simp⟩
  rename_i hguard
  obtain ⟨rel, htarget, hplain⟩ :=
    target_eq hdest (notMem_of_mem_splitPath f.name) hguard
  rw [htarget]
  split
  · exact ⟨h.ends, by simp⟩
  rename_i m verified hfree
  obtain ⟨hno, hlen, hsound⟩ :=
    linkFreeUnder_ok h.wellFormed (h.leads hR) hplain h.sound hfree
  split
  · exact ⟨⟨h.ends.made, h.ends.written⟩, by simp⟩
  · rename_i hcap
    exact Inv.place (n := st.created) h.wellFormed h.made (h.leads hR) hplain hno
      (Nat.add_le_add_left hlen _) (not_lt.mp hcap) hsound ⟨h.spent.sum, h.spent.fits⟩

/-- **The loop** of `Extract`. -/
theorem Inv.extractAll (h : Inv d₁ dest R cap b st) (faults : Faults) (entries : List Entry)
    (hR : Leads d₁ dest R) (hdest : ∀ s ∈ dest, Plain s ∧ sep ∉ s) :
    Ends d₁ R cap b (extractAll faults cap dest entries st).1 ∧
      ((extractAll faults cap dest entries st).2 = none →
        Inv d₁ dest R cap b (extractAll faults cap dest entries st).1) := by
  induction entries generalizing st with
  | nil => exact ⟨h.ends, fun _ ↦ h⟩
  | cons f fs ih =>
    obtain ⟨hends, hinv⟩ := h.extractEntry faults f hR hdest
    unfold Archive.extractAll
    split
    · rename_i st' e heq
      rw [heq] at hends
      exact ⟨hends, by simp⟩
    · rename_i st' heq
      rw [heq] at hinv
      exact ih (hinv rfl)

end Loop

/-! ## The extraction -/

section Extraction

variable {d d₁ d' : Disk} {R : List Text} {cap : Nat}

def destPath (destDir : Text) : List Text := cleanComps (splitPath destDir)

/-- The disk on which the destination was made. -/
def destMade (faults : Faults) (d : Disk) (destDir : Text) : Disk :=
  (mkdirAll faults.mkdir (destPath destDir).reverse 0 d).1

/-- From one disk to another, everything happened in the directory `R`: something was made only
strictly in it and where there was nothing, at `cap` paths at most, and the bytes changed only of new
files and of files that had a name in it. -/
structure Contained (R : List Text) (cap : Nat) (d₁ d' : Disk) : Prop where
  tree : ∀ p, d'.tree p ≠ d₁.tree p → d₁.tree p = none ∧ ∃ rel, rel ≠ [] ∧ p = R ++ rel
  data : ∀ i, d'.data i ≠ d₁.data i →
    (∀ p, d₁.tree p ≠ some (.file i)) ∨ ∃ rel, rel ≠ [] ∧ d₁.tree (R ++ rel) = some (.file i)
  created : ∃ made : List (List Text), made.length ≤ cap ∧ ∀ p, d'.tree p ≠ d₁.tree p →
    p ∈ made

theorem Made.contained (hd : d₁.WellFormed) (h : Made d₁ R cap d') : Contained R cap d₁ d' := by
  obtain ⟨made, hadds, hin, hlen⟩ := h
  refine ⟨fun p hp ↦ ⟨hadds.eq_none hp, hin p (hadds.added p hp)⟩, fun i hi ↦ ?_,
    made, hlen, hadds.added⟩
  rcases hadds.data i hi with hnew | hold
  · exact .inl fun p hp ↦ absurd (hd.fresh p i hp) (not_lt.mpr hnew)
  · exact .inr hold

theorem plain_destPath (destDir : Text) : ∀ s ∈ destPath destDir, Plain s ∧ sep ∉ s := by
  intro s hs
  obtain ⟨hplain, hs⟩ := plain_of_mem_cleanComps hs
  exact ⟨hplain, notMem_of_mem_splitPath destDir s hs⟩

/-- Before anything was written. -/
theorem Ends.start (d₁ : Disk) (R : List Text) (cap : Nat) (b : Int) (k : Nat)
    (verified : List (List Text)) : Ends d₁ R cap b ⟨d₁, k, verified, 0, b, []⟩ :=
  ⟨(Made.start d₁ R).mono (Nat.zero_le cap), le_max_left _ _⟩

theorem Inv.start {dest : List Text} (hd : d₁.WellFormed) (hR : Leads d₁ dest R) (cap : Nat) (b : Int)
    (k : Nat) : Inv d₁ dest R cap b ⟨d₁, k, [dest], 0, b, []⟩ where
  wellFormed := hd
  made := Made.start d₁ R
  created := Nat.zero_le cap
  sound v hv := by
    refine ⟨[], by rw [append_nil, mem_singleton.mp hv], fun pre hpre ↦ ?_⟩
    rw [prefix_nil.mp hpre, append_nil, hR.dir]
  spent := ⟨by simp, .inl rfl⟩

/-- The loop starts on the disk on which the destination was made, unless the archive is refused
before. -/
theorem extract_ends (faults : Faults) (cap : Nat) (hd : d.WellFormed) {destDir : Text}
    (hR : Leads (destMade faults d destDir) (destPath destDir) R) (entries : List Entry)
    (budget : Int) :
    ∃ d₁, (d₁ = d ∨ d₁ = destMade faults d destDir) ∧ d₁.WellFormed ∧
      Ends d₁ R cap budget (extract faults cap d destDir entries budget).1 ∧
      ((extract faults cap d destDir entries budget).2 = none →
        Spent budget (extract faults cap d destDir entries budget).1) := by
  have hd₁ : (destMade faults d destDir).WellFormed := hd.mkdirAll
  unfold extract
  split
  · exact ⟨d, .inl rfl, hd, Ends.start d R cap budget 0 [], by simp⟩
  refine ⟨destMade faults d destDir, .inr rfl, hd₁, ?_⟩
  dsimp only
  split
  · rename_i d₁ k e heq
    have hmade : destMade faults d destDir = d₁ := by rw [destMade, destPath, heq]
    rw [hmade]
    exact ⟨Ends.start d₁ R cap budget k [], by simp⟩
  · rename_i d₁ k heq
    have hmade : destMade faults d destDir = d₁ := by rw [destMade, destPath, heq]
    rw [hmade] at hR hd₁ ⊢
    obtain ⟨hends, hinv⟩ := (Inv.start hd₁ hR cap budget k).extractAll faults entries hR
      (plain_destPath destDir)
    exact ⟨hends, fun hnone ↦ (hinv hnone).spent⟩

/-- **An archive cannot write outside its directory or past its limits.**  Whatever is on the disk and
however it fails: when the path of the destination leads to the directory `R`, nothing is made or changed
outside `R`, at most `MaxArchiveEntries` files and directories are made, at most one byte more than the
budget is written, and the extraction succeeds only if what was written fits the budget.  A destination
that does not exist is made first. -/
theorem extract_contained (faults : Faults) (maxArchiveEntries : Nat) (hd : d.WellFormed)
    (destDir : Text) (hR : Leads (destMade faults d destDir) (destPath destDir) R)
    (entries : List Entry) (budget : Int) :
    (∃ d₁, (d₁ = d ∨ d₁ = destMade faults d destDir) ∧
      Contained R maxArchiveEntries d₁
        (extract faults maxArchiveEntries d destDir entries budget).1.disk) ∧
    (Leads d (destPath destDir) R → destMade faults d destDir = d) ∧
    ((extract faults maxArchiveEntries d destDir entries budget).1.written.sum : Int)
      ≤ max 0 (budget + 1) ∧
    ((extract faults maxArchiveEntries d destDir entries budget).2 = none →
      ((extract faults maxArchiveEntries d destDir entries budget).1.written.sum : Int)
        ≤ max 0 budget) := by
  obtain ⟨d₁, hfrom, hd₁, hends, hspent⟩ :=
    extract_ends faults maxArchiveEntries hd hR entries budget
  refine ⟨⟨d₁, hfrom, hends.made.contained hd₁⟩, fun h ↦ ?_, hends.written,
    fun hnone ↦ (hspent hnone).written_le⟩
  rw [destMade, mkdirAll_of_leads h]

/-- A disk with a server's old directory on it: the path to it goes over a link, and its owner left a
link to `/etc` in it. -/
def oldCopy : Disk :=
  ((((((⟨fun p ↦ if p = [] then some .dir else none, fun _ ↦ [], 1⟩ : Disk).put [lit "etc"] .dir).put
    [lit "etc", lit "passwd"] (.file 0)).put [lit "disk"] .dir).put [lit "disk", lit "s"] .dir).put
    [lit "data"] (.link false [lit "disk"])).put [lit "disk", lit "s", lit "world"]
      (.link true [lit "etc"])

theorem oldCopy_wellFormed : oldCopy.WellFormed := by
  have hroot : (⟨fun p ↦ if p = [] then some .dir else none, fun _ ↦ [], 1⟩ : Disk).WellFormed := by
    refine ⟨rfl, fun p s h ↦ absurd (if_neg (by simp)) h, fun p i h ↦ ?_⟩
    dsimp only at h
    split at h
    · cases h
    · cases h
  have h1 := hroot.put (r := []) (s := lit "etc") (m := .dir) rfl (by decide +kernel) (by simp)
  have h2 := h1.put (r := [lit "etc"]) (s := lit "passwd") (m := .file 0) (by decide +kernel)
    (by decide +kernel) (by simp [Disk.put])
  have h3 := h2.put (r := []) (s := lit "disk") (m := .dir) (by decide +kernel) (by decide +kernel)
    (by simp)
  have h4 := h3.put (r := [lit "disk"]) (s := lit "s") (m := .dir) (by decide +kernel)
    (by decide +kernel) (by simp)
  have h5 := h4.put (r := []) (s := lit "data") (m := .link false [lit "disk"]) (by decide +kernel)
    (by decide +kernel) (by simp)
  exact h5.put (r := [lit "disk", lit "s"]) (s := lit "world") (m := .link true [lit "etc"])
    (by decide +kernel) (by decide +kernel) (by simp)

theorem oldCopy_leads : Leads oldCopy (destPath (lit "/data/s")) [lit "disk", lit "s"] :=
  ⟨by decide +kernel, by decide +kernel⟩

def noFaults : Faults := ⟨fun _ ↦ false, fun _ ↦ false, fun _ ↦ none, fun _ ↦ false⟩

/-- A mod, and a file behind the owner's link. -/
def moved : List Entry :=
  [⟨lit "mods/a.jar", false, true, [1, 2, 3], true⟩, ⟨lit "world/passwd", false, true, [4], true⟩]

/-- The mod is unpacked to where the path of the destination leads, and the link is refused. -/
theorem extract_contained_moved :
    ((extract noFaults 5 oldCopy (lit "/data/s") moved 10).1.disk.tree
        [lit "disk", lit "s", lit "mods", lit "a.jar"] = some (.file 1) ∧
      (extract noFaults 5 oldCopy (lit "/data/s") moved 10).1.written = [3] ∧
      (extract noFaults 5 oldCopy (lit "/data/s") moved 10).2
        = some (.symlink [lit "world", lit "passwd"])) ∧
    ∃ d₁, (d₁ = oldCopy ∨ d₁ = destMade noFaults oldCopy (lit "/data/s")) ∧
      Contained [lit "disk", lit "s"] 5 d₁
        (extract noFaults 5 oldCopy (lit "/data/s") moved 10).1.disk := by
  have hsame : destMade noFaults oldCopy (lit "/data/s") = oldCopy := by
    rw [destMade, mkdirAll_of_leads oldCopy_leads]
  exact ⟨by decide +kernel, (extract_contained noFaults 5 oldCopy_wellFormed (lit "/data/s")
    (hsame.symm ▸ oldCopy_leads) moved 10).1⟩

end Extraction

end Dylaris.Archive
