import Dylaris.Library.Text

/-!
# Downloading a moved server's archive

`pkg/migration/pull.go`.  `pull` downloads the archive of a move to a path, in a number of attempts, and
compares the SHA-256 of each download with the one the source announced.  An attempt, `pullOnce`, writes
to a temporary file in the same directory and takes it away again, whatever happens.

It also renames it: the download gets the name of the destination before `pull` has compared its hash, and
one with other contents stays there (`not_pull_verified`).

The directory is its files' contents by name.  An attempt is what its operations answer; the temporary
file can be removed.  SHA-256, in hexadecimal, is a parameter.
-/

set_option autoImplicit false

open Text

namespace Dylaris.Archive

open Function

/-- What the source answers: a transport error, a status other than 200, or a body, with the error its
stream breaks off with. -/
inductive Response
  | fails (err : String)
  | status (code : Nat)
  | body (bytes : List UInt8) (broken : Option String)
deriving DecidableEq, Repr

inductive PullError
  /-- Of the transport, or of an operation on the disk. -/
  | failed (err : String)
  /-- `migration: pull http status %d` -/
  | status (code : Nat)
  /-- `migration: response exceeds the announced %d bytes` -/
  | tooLong (maxBytes : Int64)
  /-- `migration: sha256 mismatch (got %s want %s)` -/
  | mismatch (got want : Text)
deriving DecidableEq, Repr

/-- One attempt: the name `os.CreateTemp` found, the answer of the source, the errors of writing, closing
and renaming the file, and whether the context has been cancelled by its end. -/
structure Attempt where
  temp : Except String String
  response : Response
  write : Option String := none
  close : Option String := none
  rename : Option String := none
  cancelled : Bool := false

/-- The files of the destination's directory. -/
abbrev Files := String → Option (List UInt8)

/-- What `io.LimitReader(body, maxBytes+1)` hands on.  In 64 bits the sum may be negative, and then
nothing is read. -/
def limited (maxBytes : Int64) (bytes : List UInt8) (broken : Option String) :
    List UInt8 × Option String :=
  if 0 < maxBytes then
    let limit := (maxBytes + 1).toInt.toNat
    if bytes.length < limit then (bytes, broken) else (bytes.take limit, none)
  else (bytes, broken)

/-- `io.Copy`, and the checks and the `Close` after it: what is in the temporary file when it is renamed. -/
def Attempt.received (a : Attempt) (maxBytes : Int64) : Except PullError (List UInt8) :=
  match a.response with
  | .fails err => .error (.failed err)
  | .status code => .error (.status code)
  | .body bytes broken =>
    match limited maxBytes bytes broken, a.write, a.close with
    | (_, some err), _, _ => .error (.failed err)
    | _, some err, _ => .error (.failed err)
    | (copied, none), none, close =>
      if 0 < maxBytes ∧ maxBytes.toInt < copied.length then
        .error (.tooLong maxBytes)
      else match close with
        | some err => .error (.failed err)
        | none => .ok copied

section

variable (sum : List UInt8 → Text) (destPath : String) (maxBytes : Int64)

/-- `pullOnce`, with the deferred removal of the temporary file. -/
def pullOnce (a : Attempt) (files : Files) : Except PullError Text × Files :=
  match a.temp with
  | .error err => (.error (.failed err), files)
  | .ok tmp =>
    let created := update files tmp (some [])
    match a.received maxBytes, a.rename with
    | .error err, _ => (.error err, update created tmp none)
    | .ok _, some err => (.error (.failed err), update created tmp none)
    | .ok copied, none =>
      let renamed := update (update created tmp none) destPath (some copied)
      (.ok (sum copied), update renamed tmp none)

/-- The loop of `pull`, from the `k`-th attempt on, with `n` left.  The result is its error. -/
def pullFrom (want : Text) (attempts : Nat → Attempt) :
    Nat → Nat → Option PullError → Files → Option PullError × Files
  | 0, _, lastErr, files => (lastErr, files)
  | n + 1, k, _, files =>
    match pullOnce sum destPath maxBytes (attempts k) files with
    | (.error err, files) =>
      if (attempts k).cancelled then (some err, files) else pullFrom want attempts n (k + 1) (some err) files
    | (.ok got, files) =>
      if got = want then (none, files)
      else pullFrom want attempts n (k + 1) (some (.mismatch got want)) files

/-- `strings.ToLower(strings.TrimSpace(expectedSha256))`.  Only ASCII has lower-case letters that a
hexadecimal number is made of. -/
def wanted (expectedSha256 : Text) : Text :=
  (trimSpace expectedSha256).map fun b ↦ if 0x41 ≤ b ∧ b ≤ 0x5A then b + 0x20 else b

/-- `pull`. -/
def pull (expectedSha256 : Text) (maxRetries : Int) (attempts : Nat → Attempt) (files : Files) :
    Option PullError × Files :=
  pullFrom sum destPath maxBytes (wanted expectedSha256) attempts (maxRetries.toNat + 1) 0 none files

end

variable {sum : List UInt8 → Text} {destPath : String} {maxBytes : Int64} {files : Files} {want : Text}
  {attempts : Nat → Attempt}

/-- The names of the temporary files are new ones, and none is the destination's. -/
def Temporary (destPath : String) (files : Files) (attempts : Nat → Attempt) : Prop :=
  ∀ k tmp, (attempts k).temp = .ok tmp → files tmp = none ∧ tmp ≠ destPath

/-- The bytes that an attempt gives the destination's name. -/
def Attempt.delivers (a : Attempt) (maxBytes : Int64) (bytes : List UInt8) : Prop :=
  (∃ tmp, a.temp = .ok tmp) ∧ a.received maxBytes = .ok bytes ∧ a.rename = none

/-- An attempt delivers a download, and changes only the destination; or it fails, and changes nothing. -/
theorem pullOnce_cases (sum : List UInt8 → Text) (maxBytes : Int64) {a : Attempt}
    (htemp : ∀ tmp, a.temp = .ok tmp → files tmp = none ∧ tmp ≠ destPath) :
    (∃ bytes, a.delivers maxBytes bytes ∧ pullOnce sum destPath maxBytes a files =
      (.ok (sum bytes), update files destPath (some bytes))) ∨
    (∃ err, (∀ bytes, ¬ a.delivers maxBytes bytes) ∧
      pullOnce sum destPath maxBytes a files = (.error err, files)) := by
  have hback : ∀ {tmp}, a.temp = .ok tmp → update (update files tmp (some [])) tmp none = files := by
    intro tmp htmp
    rw [update_idem, ← (htemp tmp htmp).1, update_eq_self]
  fun_cases pullOnce sum destPath maxBytes a files
  next hfails => exact .inr ⟨_, by simp [Attempt.delivers, hfails], rfl⟩
  next htmp _ _ hfails =>
    exact .inr ⟨_, by simp [Attempt.delivers, hfails], congrArg _ (hback htmp)⟩
  next htmp _ _ _ hfails _ =>
    exact .inr ⟨_, by simp [Attempt.delivers, hfails], congrArg _ (hback htmp)⟩
  next tmp htmp created bytes hrename hbytes renamed =>
    refine .inl ⟨bytes, ⟨⟨tmp, htmp⟩, hbytes, hrename⟩, congrArg _ ?_⟩
    have hrenamed : renamed = update files destPath (some bytes) :=
      congrArg (update · destPath (some bytes)) (hback htmp)
    obtain ⟨hnew, hne⟩ := htemp tmp htmp
    rw [hrenamed, update_eq_self_iff, update_of_ne hne, hnew]

/-- No attempt is made after this one: it got the announced bytes, or it failed and the context has been
cancelled. -/
def Attempt.Stops (a : Attempt) (sum : List UInt8 → Text) (maxBytes : Int64) (want : Text) : Prop :=
  (∃ bytes, a.delivers maxBytes bytes ∧ sum bytes = want) ∨
    (∀ bytes, ¬ a.delivers maxBytes bytes) ∧ a.cancelled = true

/-- From the `k`-th attempt on, the `j`-th one is made, if the number of attempts allows it. -/
def Tried (sum : List UInt8 → Text) (maxBytes : Int64) (want : Text) (attempts : Nat → Attempt)
    (k j : Nat) : Prop :=
  k ≤ j ∧ ∀ i, k ≤ i → i < j → ¬ (attempts i).Stops sum maxBytes want

/-- The `j`-th of `n` attempts, counted from the `k`-th, is the last one made that delivers. -/
def LastDelivery (sum : List UInt8 → Text) (maxBytes : Int64) (want : Text) (attempts : Nat → Attempt)
    (k n j : Nat) (bytes : List UInt8) : Prop :=
  Tried sum maxBytes want attempts k j ∧ j < k + n ∧ (attempts j).delivers maxBytes bytes ∧
    ∀ i bytes', j < i → i < k + n → Tried sum maxBytes want attempts k i →
      ¬ (attempts i).delivers maxBytes bytes'

theorem delivers_inj {a : Attempt} {bytes bytes' : List UInt8} (h : a.delivers maxBytes bytes)
    (h' : a.delivers maxBytes bytes') : bytes = bytes' :=
  Except.ok.inj (h.2.1.symm.trans h'.2.1)

theorem tried_self (k : Nat) : Tried sum maxBytes want attempts k k := ⟨le_rfl, fun i hi hlt ↦ by omega⟩

theorem tried_iff {k j : Nat} (hj : k < j) : Tried sum maxBytes want attempts k j ↔
    ¬ (attempts k).Stops sum maxBytes want ∧ Tried sum maxBytes want attempts (k + 1) j := by
  refine ⟨fun h ↦ ⟨h.2 k le_rfl hj, hj, fun i hi ↦ h.2 i (by omega)⟩,
    fun h ↦ ⟨hj.le, fun i hi hlt ↦ ?_⟩⟩
  rcases hi.eq_or_lt with rfl | hi
  · exact h.1
  · exact h.2.2 i hi hlt

theorem LastDelivery.succ {k n j : Nat} {bytes : List UInt8}
    (h : LastDelivery sum maxBytes want attempts (k + 1) n j bytes)
    (hgo : ¬ (attempts k).Stops sum maxBytes want) :
    LastDelivery sum maxBytes want attempts k (n + 1) j bytes := by
  obtain ⟨htried, hlt, hdelivers, hlast⟩ := h
  have hj : k < j := htried.1
  refine ⟨(tried_iff hj).mpr ⟨hgo, htried⟩, by omega, hdelivers, fun i bytes' hi hin htried' ↦ ?_⟩
  exact hlast i bytes' hi (by omega) ((tried_iff (by omega)).mp htried').2

theorem LastDelivery.unique {k n j j' : Nat} {bytes bytes' : List UInt8}
    (h : LastDelivery sum maxBytes want attempts k n j bytes)
    (h' : LastDelivery sum maxBytes want attempts k n j' bytes') : bytes = bytes' := by
  obtain ⟨htried, hlt, hdelivers, hlast⟩ := h
  obtain ⟨htried', hlt', hdelivers', hlast'⟩ := h'
  rcases lt_trichotomy j j' with hj | rfl | hj
  · exact absurd hdelivers' (hlast j' bytes' hj hlt' htried')
  · exact delivers_inj hdelivers hdelivers'
  · exact absurd hdelivers (hlast' j bytes hj hlt htried)

theorem temporary_update (htemp : Temporary destPath files attempts) (bytes : Option (List UInt8)) :
    Temporary destPath (update files destPath bytes) attempts := by
  intro k tmp htmp
  obtain ⟨hnew, hne⟩ := htemp k tmp htmp
  exact ⟨(update_of_ne hne ..).trans hnew, hne⟩

/-- The attempts leave the last download that was delivered whole at the destination, whatever it is, and
end without an error if it is the announced one. -/
theorem pullFrom_spec {n k : Nat} (lastErr : Option PullError) (htemp : Temporary destPath files attempts)
    (hlast : n = 0 → lastErr ≠ none) :
    (∃ j bytes, LastDelivery sum maxBytes want attempts k n j bytes ∧ ∃ err,
      pullFrom sum destPath maxBytes want attempts n k lastErr files =
        (err, update files destPath (some bytes)) ∧ (err = none ↔ sum bytes = want)) ∨
    (∀ j bytes, j < k + n → Tried sum maxBytes want attempts k j →
      ¬ (attempts j).delivers maxBytes bytes) ∧
      ∃ err, pullFrom sum destPath maxBytes want attempts n k lastErr files = (some err, files) := by
  induction n generalizing k lastErr files with
  | zero =>
    obtain ⟨err, herr⟩ := Option.ne_none_iff_exists'.mp (hlast rfl)
    refine .inr ⟨fun j _ hlt htried ↦ ?_, err, by rw [pullFrom, herr]⟩
    have := htried.1
    omega
  | succ n ih =>
    rcases pullOnce_cases sum maxBytes (htemp k) with
      ⟨bytes, hdelivers, hpull⟩ | ⟨err, hnone, hpull⟩ <;> rw [pullFrom, hpull] <;> dsimp only
    · by_cases hright : sum bytes = want
      · refine .inl ⟨k, bytes, ⟨tried_self k, by omega, hdelivers, ?_⟩, none, if_pos hright,
          by simp [hright]⟩
        intro i bytes' hi hin htried
        exact absurd (.inl ⟨bytes, hdelivers, hright⟩) ((tried_iff hi).mp htried).1
      -- Another download is overwritten by the next one that arrives whole.
      have hgo : ¬ (attempts k).Stops sum maxBytes want := by
        rintro (⟨bytes', h, hright'⟩ | ⟨hnone, -⟩)
        · exact hright (delivers_inj hdelivers h ▸ hright')
        · exact hnone bytes hdelivers
      rw [if_neg hright]
      rcases @ih _ (k + 1) (some (.mismatch (sum bytes) want)) (temporary_update htemp (some bytes))
        (fun _ ↦ by simp) with ⟨j, bytes', hj, err, hres, herr⟩ | ⟨hall, err, hres⟩
      · exact .inl ⟨j, bytes', hj.succ hgo, err, by rw [hres, update_idem], herr⟩
      · refine .inl ⟨k, bytes, ⟨tried_self k, by omega, hdelivers, fun i bytes' hi hin htried ↦ ?_⟩,
          _, hres, ?_⟩
        · exact hall i bytes' (by omega) ((tried_iff hi).mp htried).2
        · simp [hright]
    · by_cases hcancel : (attempts k).cancelled = true
      · -- The attempts after a cancelled one are not made.
        refine .inr ⟨fun j bytes hlt htried ↦ ?_, err, if_pos hcancel⟩
        rcases htried.1.eq_or_lt with rfl | hj
        · exact hnone bytes
        · exact absurd (.inr ⟨hnone, hcancel⟩) ((tried_iff hj).mp htried).1
      have hgo : ¬ (attempts k).Stops sum maxBytes want := by
        rintro (⟨bytes, h, -⟩ | ⟨-, h⟩)
        · exact hnone bytes h
        · exact hcancel h
      rw [if_neg hcancel]
      rcases @ih _ (k + 1) (some err) htemp (fun _ ↦ by simp) with
        ⟨j, bytes, hj, err', hres, herr⟩ | ⟨hall, err', hres⟩
      · exact .inl ⟨j, bytes, hj.succ hgo, err', hres, herr⟩
      · refine .inr ⟨fun j bytes hlt htried ↦ ?_, err', hres⟩
        rcases htried.1.eq_or_lt with rfl | hj
        · exact hnone bytes
        · exact hall j bytes (by omega) ((tried_iff hj).mp htried).2

/-- **Unverified bytes do not take the destination's name**, exactly where the last download that arrives
whole, among the attempts that are made, is the announced one or what the destination has.  Then the
destination is as it was, or has bytes with the expected hash, and success is that an attempt got them
there; no other file has changed. -/
theorem pull_verified {expectedSha256 : Text} (maxRetries : Int)
    (htemp : Temporary destPath files attempts) :
    (let (err, files') := pull sum destPath maxBytes expectedSha256 maxRetries attempts files
    (files' destPath = files destPath ∨
      ∃ bytes, files' destPath = some bytes ∧ sum bytes = wanted expectedSha256) ∧
    (err = none ↔ ∃ k ≤ maxRetries.toNat, Tried sum maxBytes (wanted expectedSha256) attempts 0 k ∧
      ∃ bytes, (attempts k).delivers maxBytes bytes ∧ sum bytes = wanted expectedSha256 ∧
        files' destPath = some bytes) ∧
    ∀ name, name ≠ destPath → files' name = files name) ↔
    ∀ k bytes,
      LastDelivery sum maxBytes (wanted expectedSha256) attempts 0 (maxRetries.toNat + 1) k bytes →
      sum bytes = wanted expectedSha256 ∨ files destPath = some bytes := by
  rcases @pullFrom_spec sum _ maxBytes _ (wanted expectedSha256) _ (maxRetries.toNat + 1) 0 none htemp
    (by simp) with
    ⟨j, bytes, hj, err, hres, herr⟩ | ⟨hall, err, hres⟩
  · rw [pull, hres]
    dsimp only
    rw [update_self]
    constructor
    · rintro ⟨hdest, -, -⟩ k bytes' hk
      rw [hk.unique hj]
      rcases hdest with hdest | ⟨_, hsome, hright⟩
      · exact .inr hdest.symm
      · exact .inl (Option.some.inj hsome ▸ hright)
    · intro h
      refine ⟨?_, ?_, fun name hne ↦ update_of_ne hne ..⟩
      · exact (h j bytes hj).elim (fun hright ↦ .inr ⟨bytes, rfl, hright⟩)
          fun hsame ↦ .inl hsame.symm
      · rw [herr]
        constructor
        · intro hright
          have hlt := hj.2.1
          exact ⟨j, by omega, hj.1, bytes, hj.2.2.1, hright, rfl⟩
        · rintro ⟨k, -, -, bytes', -, hright, hsome⟩
          rw [Option.some.inj hsome, hright]
  · rw [pull, hres]
    refine iff_of_true ⟨.inl rfl, iff_of_false (by simp) ?_, fun name _ ↦ rfl⟩ ?_
    · rintro ⟨k, hk, htried, bytes, hdelivers, -⟩
      exact hall k bytes (by omega) htried hdelivers
    · rintro k bytes ⟨htried, hlt, hdelivers, -⟩
      exact absurd hdelivers (hall k bytes hlt htried)

/-- An archive from before. -/
def someFiles : Files := fun name ↦ if name = "dest" then some (lit "old") else none

/-- The first download breaks off, and the others bring these bytes. -/
def secondBrings (bytes : List UInt8) (k : Nat) : Attempt where
  temp := .ok "tmp"
  response := if k = 0 then .body [] (some "unexpected EOF") else .body bytes none

theorem temporary_secondBrings (bytes : List UInt8) : Temporary "dest" someFiles (secondBrings bytes) := by
  intro k tmp h
  cases h
  decide

theorem received_secondBrings {bytes bytes' : List UInt8} {k : Nat}
    (h : (secondBrings bytes k).delivers 0 bytes') : bytes' = bytes := by
  have h := h.2.1
  rw [Attempt.received, secondBrings] at h
  split at h
  · cases h
  · cases h
  · rename_i hbody
    split at hbody <;> cases hbody <;> cases h
    rfl

theorem pull_verified_second :
    (pull id "dest" 0 (lit " NEW ") 1 (secondBrings (lit "new")) someFiles).1 = none := by
  have hwanted : wanted (lit " NEW ") = lit "new" := by decide +kernel
  have h := (@pull_verified id _ 0 _ _ (lit " NEW ") 1
    (temporary_secondBrings (lit "new"))).mpr fun k bytes hk ↦
      .inl ((received_secondBrings hk.2.2.1).trans hwanted.symm)
  refine h.2.1.mpr ⟨1, by decide, ⟨by decide, fun i _ hi ↦ ?_⟩, lit "new", ?_, hwanted.symm, ?_⟩
  · obtain rfl : i = 0 := by omega
    rintro (⟨bytes, hbytes, -⟩ | ⟨-, hcancelled⟩)
    · cases hbytes.2.1
    · cases hcancelled
  · exact ⟨⟨"tmp", rfl⟩, by decide +kernel, rfl⟩
  · decide +kernel

/-- Other bytes arrive: the error is right, and they have the destination's name. -/
theorem not_pull_verified :
    (pull id "dest" 0 (lit "new") 1 (secondBrings (lit "other")) someFiles).1 =
      some (.mismatch (lit "other") (lit "new")) ∧
    (pull id "dest" 0 (lit "new") 1 (secondBrings (lit "other")) someFiles).2 "dest" =
      some (lit "other") := by
  decide +kernel

end Dylaris.Archive
