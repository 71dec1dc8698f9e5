import Dylaris.Migration.Job

/-!
# Copying again after a run that failed

`CopyAll` on its own: the source and the target as the data sets they are behind `DataSet`, each a
content under every key that it has, and one run after another over the same manifest.  What the
backends answer about an entry is an `Io`; every call may fail, and a `Write` that fails leaves
anything under its key.  Progress calls and log lines are left out.
-/

set_option autoImplicit false

namespace Dylaris.Migration

open Function

/-- `DataSet`: the content of every object, and whether `Delete` removes what is below a key too. -/
structure Objects (C : Type) where
  get : Key → Option C
  deletesTree : Bool

/-- The text of a key. -/
def Key.text (k : Key) : String := "/".intercalate k

namespace Objects

variable {C : Type} (d : Objects C)

/-- What is under one key changes. -/
def set (k : Key) (c : Option C) : Objects C := { d with get := update d.get k c }

/-- `Delete`; one that fails leaves what it has not come to. -/
def delete (k : Key) (left : List Key) : Objects C :=
  { d with get := fun k' ↦
      if (k' = k ∨ d.deletesTree ∧ k <+: k') ∧ k' ∉ left then none else d.get k' }

end Objects

/-- What happens at an entry: whether the run is cancelled there, and the errors of the calls. -/
structure Io (C : Type) where
  cancelled : Bool := false
  ctxErr : Option String := none
  /-- `Open` of the target's object, unless it is not there, and reading it. -/
  probeErr : Option String := none
  hashErr : Option String := none
  readErr : Option String := none
  /-- The error of `Write`, and what it leaves under the key. -/
  writeErr : Option (String × Option C) := none
  /-- The keys that a `Delete` which fails has left. -/
  deleteErr : Option (List Key) := none

/-- `CopyResult`. -/
structure CopyResult where
  objectsCopied : Nat
  objectsSkipped : Nat
  bytesCopied : Nat
  bytesTotal : Nat
deriving DecidableEq, Repr

/-- `ErrCopyCancelled`. -/
def errCopyCancelled : String := "storagemigrate: copy cancelled"

structure CopySets (C : Type) where
  src : Objects C
  target : Objects C

section CopyAll

variable {C : Type} (hash : C → String) (size : C → Nat)

/-- `targetAlreadyMatches`. -/
def Objects.alreadyMatches (target : Objects C) (e : Entry String) (io : Io C) : Except String Bool :=
  match io.probeErr, target.get e.key, io.hashErr with
  | some err, _, _ => .error ("copy: probe target " ++ e.key.text ++ ": " ++ err)
  | none, none, _ => .ok false
  | none, some _, some err => .error ("copy: hash target " ++ e.key.text ++ ": " ++ err)
  | none, some c, none => .ok (hash c = e.sum ∧ size c = e.size)

/-- `copyOne`: how many bytes were copied, and the data sets afterwards. -/
def copyOne (w : CopySets C) (e : Entry String) (io : Io C) : Except String Nat × CopySets C :=
  match io.readErr, w.src.get e.key with
  | some err, _ => (.error ("copy: read source " ++ e.key.text ++ ": " ++ err), w)
  | none, none => (.error ("copy: read source " ++ e.key.text ++ ": file does not exist"), w)
  | none, some c =>
    match io.writeErr with
    | some (err, left) =>
      (.error ("copy: write target " ++ e.key.text ++ ": " ++ err),
        { w with target := w.target.set e.key left })
    | none =>
      let written := w.target.set e.key (some c)
      if hash c = e.sum then (.ok (size c), { w with target := written })
      else
        (.error ("copy: " ++ e.key.text ++ " checksum mismatch after write (manifest checksum " ++ e.sum ++
          ", computed " ++ hash c ++ " from " ++ toString (size c) ++
          " bytes read); the target object was removed"),
          { w with target := written.delete e.key (io.deleteErr.getD []) })

/-- The loop of `CopyAll`: its result, its error and the data sets afterwards. -/
def copyLoop (io : Key → Io C) (res : CopyResult) (w : CopySets C) :
    List (Entry String) → CopyResult × Option String × CopySets C
  | [] => (res, none, w)
  | e :: todo =>
    if (io e.key).cancelled then (res, some errCopyCancelled, w)
    else match (io e.key).ctxErr with
      | some err => (res, some err, w)
      | none =>
        match w.target.alreadyMatches hash size e (io e.key) with
        | .error err => (res, some err, w)
        | .ok true => copyLoop io { res with objectsSkipped := res.objectsSkipped + 1 } w todo
        | .ok false =>
          match copyOne hash size w e (io e.key) with
          | (.error err, w') => (res, some err, w')
          | (.ok n, w') =>
            copyLoop io { res with
              objectsCopied := res.objectsCopied + 1
              bytesCopied := res.bytesCopied + n } w' todo

/-- `CopyAll`. -/
def copyAll (entries : List (Entry String)) (io : Key → Io C) (w : CopySets C) :
    CopyResult × Option String × CopySets C :=
  copyLoop hash size io ⟨0, 0, 0, (entries.map (·.size)).sum⟩ w (byKey entries)

/-- One `CopyAll` after the other. -/
def copyAgain (entries : List (Entry String)) (runs : List (Key → Io C)) (w : CopySets C) :
    CopySets C :=
  runs.foldl (fun w io ↦ (copyAll hash size entries io w).2.2) w

end CopyAll

/-! ## What a run leaves -/

section Runs

variable {C : Type} {hash : C → String} (size : C → Nat) {w w' : CopySets C} {e : Entry String}
  {entries todo : List (Entry String)} {io : Key → Io C}

/-- The entry is as it was captured from the source. -/
def Captured (hash : C → String) (src : Objects C) (e : Entry String) : Prop :=
  ∀ c, src.get e.key = some c → hash c = e.sum

/-- The target has a content of the entry's checksum. -/
def Copied (hash : C → String) (target : Objects C) (e : Entry String) : Prop :=
  ∃ c, target.get e.key = some c ∧ hash c = e.sum

/-- From `w` on, only what is under the keys of the manifest has changed. -/
structure Touched (entries : List (Entry String)) (w w' : CopySets C) : Prop where
  src : w'.src = w.src
  other : ∀ k, k ∉ entries.map (·.key) → w'.target.get k = w.target.get k

theorem Touched.refl : Touched entries w w := ⟨rfl, fun _ _ ↦ rfl⟩

theorem Touched.trans {w'' : CopySets C} (h : Touched entries w w') (h' : Touched entries w' w'') :
    Touched entries w w'' :=
  ⟨h'.src.trans h.src, fun k hk ↦ (h'.other k hk).trans (h.other k hk)⟩

theorem touched_set (he : e ∈ entries) (c : Option C) :
    Touched entries w { w with target := w.target.set e.key c } := by
  refine ⟨rfl, fun k hk ↦ update_of_ne ?_ ..⟩
  rintro rfl
  exact hk (List.mem_map_of_mem he)

theorem copied_set {c : C} (h : hash c = e.sum) : Copied hash (w.target.set e.key (some c)) e :=
  ⟨c, update_self .., h⟩

/-- **One entry** of an unchanged source: whatever fails, no other key is touched, and an entry that was
copied is there. -/
theorem copyOne_spec (he : e ∈ entries) (hsrc : Captured hash w.src e) (a : Io C) :
    Touched entries w (copyOne hash size w e a).2 ∧
      ∀ n, (copyOne hash size w e a).1 = .ok n → Copied hash (copyOne hash size w e a).2.target e ∧
        ∀ e', Captured hash w.src e' → Copied hash w.target e' →
          Copied hash (copyOne hash size w e a).2.target e' := by
  fun_cases copyOne hash size w e a
  next => exact ⟨.refl, nofun⟩
  next => exact ⟨.refl, nofun⟩
  next => exact ⟨touched_set he _, nofun⟩
  next c hc _ _ _ heq =>
    refine ⟨touched_set he _, fun _ _ ↦ ⟨copied_set heq, fun e' hsrc' hcopied ↦ ?_⟩⟩
    by_cases hkey : e'.key = e.key
    · exact ⟨c, by rw [hkey]; exact update_self .., hsrc' c (hkey ▸ hc)⟩
    · obtain ⟨c', hget, hsum⟩ := hcopied
      exact ⟨c', (update_of_ne hkey ..).trans hget, hsum⟩
  next hc _ _ _ hne => exact absurd (hsrc _ hc) hne

theorem copied_of_alreadyMatches {a : Io C} (h : w.target.alreadyMatches hash size e a = .ok true) :
    Copied hash w.target e := by
  revert h
  fun_cases Objects.alreadyMatches hash size w.target e a <;> intro h
  · cases h
  · cases h
  · cases h
  next c _ hc _ => exact ⟨c, hc, (of_decide_eq_true (Except.ok.inj h)).1⟩

/-- **A run** over what is left of the manifest. -/
theorem copyLoop_spec (htodo : ∀ e ∈ todo, e ∈ entries)
    (hsrc : ∀ e ∈ entries, Captured hash w.src e) (res : CopyResult) :
    Touched entries w (copyLoop hash size io res w todo).2.2 ∧
      ((copyLoop hash size io res w todo).2.1 = none →
        ∀ e ∈ entries, e ∈ todo ∨ Copied hash w.target e →
          Copied hash (copyLoop hash size io res w todo).2.2.target e) := by
  -- An entry that is done stays done while the others are copied.
  induction todo generalizing w res with
  | nil => exact ⟨.refl, fun _ e _ he ↦ he.resolve_left List.not_mem_nil⟩
  | cons e todo ih =>
    obtain ⟨he, htodo⟩ := List.forall_mem_cons.mp htodo
    unfold copyLoop
    split
    · exact ⟨.refl, nofun⟩
    split
    · exact ⟨.refl, nofun⟩
    split
    · exact ⟨.refl, nofun⟩
    · rename_i hmatch
      obtain ⟨htouched, hdone⟩ := ih htodo hsrc { res with objectsSkipped := res.objectsSkipped + 1 }
      refine ⟨htouched, fun hnone e' he' hor ↦ hdone hnone e' he' ?_⟩
      rcases hor with hmem | hcopied
      · exact (List.mem_cons.mp hmem).elim
          (fun heq ↦ .inr (heq ▸ copied_of_alreadyMatches size hmatch)) .inl
      · exact .inr hcopied
    · have hone := copyOne_spec size he (hsrc e he) (io e.key)
      split
      · rename_i hcopy
        rw [hcopy] at hone
        exact ⟨hone.1, nofun⟩
      rename_i n w' hcopy
      rw [hcopy] at hone
      obtain ⟨htouched, hnew, hold⟩ := And.intro hone.1 (hone.2 n rfl)
      have hsrc' : ∀ e ∈ entries, Captured hash w'.src e := htouched.src ▸ hsrc
      obtain ⟨htouched', hdone⟩ := ih htodo hsrc' { res with
        objectsCopied := res.objectsCopied + 1, bytesCopied := res.bytesCopied + n }
      refine ⟨htouched.trans htouched', fun hnone e' he' hor ↦ hdone hnone e' he' ?_⟩
      rcases hor with hmem | hcopied
      · exact (List.mem_cons.mp hmem).elim (fun heq ↦ .inr (heq ▸ hnew)) .inl
      · exact .inr (hold e' (hsrc e' he') hcopied)

theorem copyAll_spec (hsrc : ∀ e ∈ entries, Captured hash w.src e) (io : Key → Io C) :
    Touched entries w (copyAll hash size entries io w).2.2 ∧
      ((copyAll hash size entries io w).2.1 = none →
        ∀ e ∈ entries, Copied hash (copyAll hash size entries io w).2.2.target e) := by
  have hmem : ∀ e, e ∈ byKey entries ↔ e ∈ entries := fun e ↦ (List.perm_insertionSort _ _).mem_iff
  obtain ⟨htouched, hdone⟩ := copyLoop_spec size (fun e he ↦ (hmem e).mp he) hsrc
    ⟨0, 0, 0, (entries.map (·.size)).sum⟩
  exact ⟨htouched, fun hnone e he ↦ hdone hnone e he (.inl ((hmem e).mpr he))⟩

theorem touched_copyAgain (hsrc : ∀ e ∈ entries, Captured hash w.src e)
    (runs : List (Key → Io C)) : Touched entries w (copyAgain hash size entries runs w) := by
  induction runs generalizing w with
  | nil => exact .refl
  | cons io runs ih =>
    have hone := (copyAll_spec size hsrc io).1
    exact hone.trans (ih (hone.src ▸ hsrc))

/-- **Copying is resumable.**  The manifest is of an unchanged source, and the target has any content.  After
any runs of `CopyAll`, each failing wherever it may, and one that returns no error, the target has under
every key of the manifest a content of the manifest's checksum, every other key as it was at first, and
the source is as it was. -/
theorem copy_resumes (hash : C → String) (size : C → Nat) (entries : List (Entry String))
    (w : CopySets C)
    (hsrc : ∀ e ∈ entries, ∃ c, w.src.get e.key = some c ∧ hash c = e.sum)
    (runs : List (Key → Io C)) (last : Key → Io C)
    (hok : (copyAll hash size entries last (copyAgain hash size entries runs w)).2.1 = none) :
    let w' := (copyAll hash size entries last (copyAgain hash size entries runs w)).2.2
    (∀ e ∈ entries, ∃ c, w'.target.get e.key = some c ∧ hash c = e.sum) ∧
      (∀ k, k ∉ entries.map (·.key) → w'.target.get k = w.target.get k) ∧ w'.src = w.src := by
  have hcaptured : ∀ e ∈ entries, Captured hash w.src e := by
    intro e he c hc
    obtain ⟨c', hc', hsum⟩ := hsrc e he
    exact Option.some_inj.mp (hc.symm.trans hc') ▸ hsum
  have hbefore := touched_copyAgain size hcaptured runs
  obtain ⟨htouched, hdone⟩ :=
    copyAll_spec size (w := copyAgain hash size entries runs w) (hbefore.src ▸ hcaptured) last
  have hall := hbefore.trans htouched
  exact ⟨hdone hok, hall.other, hall.src⟩

/-- One object that the target has not, and one that only the target has. -/
def freshObject : CopySets String :=
  ⟨⟨fun k ↦ if k = ["a"] then some "new" else none, true⟩,
    ⟨fun k ↦ if k = ["b"] then some "old" else none, true⟩⟩

/-- A `Write` has failed in the middle. -/
def halfWritten : CopySets String :=
  copyAgain id String.length [⟨["a"], 3, "new"⟩] [fun _ ↦ { writeErr := some ("timeout", some "ne") }]
    freshObject

theorem copy_resumes_halfWritten :
    halfWritten.target.get ["a"] = some "ne" ∧
      ((copyAll id String.length [⟨["a"], 3, "new"⟩] (fun _ ↦ {}) halfWritten).2.2.target.get ["a"] =
        some "new") := by
  refine ⟨by decide +kernel, ?_⟩
  obtain ⟨hcopied, -⟩ := copy_resumes id String.length [⟨["a"], 3, "new"⟩] freshObject
    (by simp [freshObject])
    [fun _ ↦ { writeErr := some ("timeout", some "ne") }] (fun _ ↦ {}) (by decide +kernel)
  obtain ⟨c, hc, rfl : c = "new"⟩ := hcopied _ List.mem_cons_self
  exact hc

end Runs

end Dylaris.Migration
