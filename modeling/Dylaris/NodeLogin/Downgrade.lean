import Dylaris.Library.Places
import Dylaris.NodeLogin.Model

/-!
# A login cannot be downgraded

Every login ends with `stillPaired`: the key it was let in by is read again, and the answer of a login
with the secret is checked again against the secret the row holds now.  `Fine` is what a login's own
turns establish: a caller that is let in has signed its nonce with the key that the last read of the
row found, or that read found no key.

A login with the secret alone is let in because the row had never held a key when it was read, and the
last check does not look at that again.  `Apart` leaves out a key that is stored while such a login is under
way, and a login that goes on with the secret alone because its key could not be stored, on a row that holds
a key by then.
-/

set_option autoImplicit false

open Machine Text

namespace Dylaris.NodeLogin

open List Option

universe u v

section Statement

variable {K : Type u} {S : Type v} [DecidableEq K] [DecidableEq S]

/-- The login is under way and rests on the secret alone: the row held no key when it was read, and
the caller presented none or its key was not stored. -/
def Login.alone (l : Login K S) : Bool :=
  l.secretLogin &&
    match l.stage with
    | .challenge | .answer | .proveSecret => l.presented.isNone
    | .load _ | .mint _ | .checkKey | .checkSecret | .send | .forget | .register => l.authKey.isNone
    | .hello | .keys | .admission | .store _ | .restore _ | .registered | .refused => false

/-- A row that has never held a key. -/
def Row.keyless (row : Row K S) : Prop := row.key = none ∧ row.rejected = none

instance (row : Row K S) : Decidable row.keyless :=
  inferInstanceAs (Decidable (row.key = none ∧ row.rejected = none))

/-- What a turn of a login may not do: store a key while a login with the secret alone is under way,
or go on with the secret alone on a row that has held a key. -/
def TurnApart (s : State K S) (l : Login K S) (io : Io S) : Prop :=
  match l.stage with
  | .store repair =>
    (io.outcome.applied = true → l.unchanged s.db.row = true → ∀ l' ∈ s.logins, l'.alone = false) ∧
      (repair = false → io.outcome ≠ .ok → io.outcome = .failed ∧ s.db.row.keyless)
  | .restore repair => repair = false → io.fault = true → s.db.row.keyless
  | _ => True

def Apart (s : State K S) : Act K S → Prop
  | .turn i io => ∀ l ∈ s.logins[i]?, TurnApart s l io
  | _ => True

instance (s : State K S) (l : Login K S) (io : Io S) : Decidable (TurnApart s l io) := by
  unfold TurnApart
  split <;> infer_instance

instance (s : State K S) (a : Act K S) : Decidable (Apart s a) := by
  cases a <;> unfold Apart <;> infer_instance

/-- What was sent to the caller, or registered, was so rightly: the row's key as the login last read it
was none, or the one with which the caller signed this connection's nonce; and a row was entered with
the answer of its secret alone only if it has never held a key. -/
structure Entered.Sound (site : Site K S) (e : Entered K S) : Prop where
  key : e.login.seen = none ∨ ∃ k n, e.login.seen = some k ∧ e.login.presented = some k ∧
    e.login.nonce = some n ∧ site.verifySignature k n e.login.signature = true
  secret : e.login.hmac = true → e.login.authKey = none → e.row.keyless

end Statement

/-! ## What a turn does -/

section Turns

variable {K : Type u} {S : Type v} [DecidableEq K]

/-- The turns of a login, by what they leave behind. -/
inductive Turns (site : Site K S) (db : Db K S) (l : Login K S) (io : Io S) :
    Db K S → Login K S → Prop
  | refused (seen : Option K) : Turns site db l io db { l with stage := .refused, seen := seen }
  | hello (hs : l.stage = .hello) :
      Turns site db l io db { l with hasSecret := db.row.secret.isSome, stage := .keys }
  | keys (hs : l.stage = .keys) : Turns site db l io db (l.readKeys db.row)
  | challenge (hs : l.stage = .challenge) :
      Turns site db l io db { l with nonce := some io.nonce, stage := .answer }
  | answer (hs : l.stage = .answer)
      (hsigned : Login.signed site
        { l with signature := io.signature, response := io.response } = true) :
      Turns site db l io db
        (Login.branch { l with signature := io.signature, response := io.response })
  /-- The secret answered, and a key was presented or not. -/
  | secretKey (hs : l.stage = .proveSecret) (hp : l.presented.isSome = true) :
      Turns site db l io db { l with hmac := true, stage := .store false }
  | secretAlone (hs : l.stage = .proveSecret) (hp : l.presented = none) :
      Turns site db l io db { l with hmac := true, stage := .load 0 }
  | admission (hs : l.stage = .admission) :
      Turns site db l io (l.askAdmission site db io.outcome).1 (l.askAdmission site db io.outcome).2
  | store {repair : Bool} (hs : l.stage = .store repair) :
      Turns site db l io (l.storeKey db repair io.outcome).1 (l.storeKey db repair io.outcome).2
  | restored {repair : Bool} (hs : l.stage = .restore repair) :
      Turns site db l io db { l.stored repair with seen := db.row.key }
  | notRestored {repair : Bool} (hs : l.stage = .restore repair) (hfault : io.fault = true) :
      Turns site db l io db (l.notStored repair)
  | loaded {attempt : Nat} (hs : l.stage = .load attempt) (secret : S) :
      Turns site db l io db { l with secretHex := some secret, stage := .checkKey }
  | missing {attempt : Nat} (hs : l.stage = .load attempt) :
      Turns site db l io db { l with stage := .mint attempt }
  | mint {attempt : Nat} (hs : l.stage = .mint attempt) :
      Turns site db l io (l.mintSecret db attempt io).1 (l.mintSecret db attempt io).2
  /-- The last check, of a login without a key and of one with the key that the row holds. -/
  | noKey (hs : l.stage = .checkKey) (hnone : l.authKey = none) :
      Turns site db l io db { l with stage := .checkSecret }
  | sameKey (hs : l.stage = .checkKey) (hkey : db.row.key = l.authKey) :
      Turns site db l io db { l with seen := db.row.key, stage := .checkSecret }
  | checked (hs : l.stage = .checkSecret) : Turns site db l io db { l with stage := .send }
  | sent (hs : l.stage = .send) : Turns site db l io db { l with stage := .forget }
  | forgot (hs : l.stage = .forget) (approval : Option Approval) :
      Turns site db l io { db with approval := approval } { l with stage := .register }
  | registered (hs : l.stage = .register) :
      Turns site db l io db { l with stage := .registered }

variable {site : Site K S} {db : Db K S} {l : Login K S} {io : Io S} {r : Db K S × Login K S}

/-- A login that goes on unless it is refused. -/
theorem Turns.unless {p : Prop} [Decidable p] {l' : Login K S}
    (h : ¬ p → Turns site db l io db l') :
    Turns site db l io db (if p then l.refuse else l') := by
  split
  · exact .refused l.seen
  · exact h ‹_›

theorem turns_of_turn (ht : l.turn site db io = some r) : Turns site db l io r.1 r.2 := by
  revert ht
  fun_cases Login.turn site db l io <;> rintro ⟨⟩
  next hs => exact .unless fun _ ↦ .hello hs
  next hs => exact .unless fun _ ↦ .keys hs
  next hs => exact .unless fun _ ↦ .challenge hs
  next hs _ =>
    refine .unless fun hok ↦ .answer hs ?_
    rw [not_or, Bool.not_eq_false] at hok
    exact hok.2
  next hs =>
    refine .unless fun _ ↦ ?_
    split
    · exact .secretKey hs ‹_›
    · exact .secretAlone hs (not_isSome_iff_eq_none.mp ‹_›)
  next hs => exact .admission hs
  next hs => exact .store hs
  next hs =>
    dsimp only
    split
    · exact .notRestored hs ‹_›
    · split
      · exact .restored hs
      · exact .refused db.row.key
  next hs =>
    refine .unless fun _ ↦ ?_
    split
    · exact .loaded hs _
    · exact .missing hs
  next hs => exact .mint hs
  next hs =>
    dsimp only
    split
    · exact .noKey hs ‹_›
    · refine .unless fun _ ↦ ?_
      split
      · exact .sameKey hs ‹_›
      · exact .refused db.row.key
  next hs =>
    dsimp only
    split
    · exact .checked hs
    · exact .unless fun _ ↦ .checked hs
  next hs => exact .unless fun _ ↦ .sent hs
  next hs => exact .forgot hs _
  next hs => exact .registered hs

end Turns

/-! ## A login's own turns -/

section Fine

variable {K : Type u} {S : Type v}

/-- Nothing has been proved. -/
structure Login.Fresh (l : Login K S) : Prop where
  auth : l.authKey = none
  hmac : l.hmac = false

/-- What was proved: the key that was presented has signed the nonce, the login rests on no other key,
and on the secret only if the row held no key when it was read. -/
structure Login.Proved (site : Site K S) (l : Login K S) : Prop where
  signed : l.signed site = true
  auth : l.authKey = none ∨ l.authKey = l.presented
  hmac : l.hmac = true → l.secretLogin = true

/-- What a login knows, by its stage. -/
def Fine (site : Site K S) (l : Login K S) : Prop :=
  match l.stage with
  | .hello | .keys => l.Fresh
  | .challenge | .answer => l.Fresh ∧ l.seen = l.key
  | .proveSecret => l.Fresh ∧ l.seen = l.key ∧ l.signed site = true ∧ l.secretLogin = true
  | .admission => l.Fresh ∧ l.seen = l.key ∧ l.signed site = true ∧ l.secretLogin = false
  | .store repair | .restore repair =>
    l.Proved site ∧ l.presented.isSome ∧ l.authKey = none ∧ l.seen = l.key ∧
      (repair = false → l.secretLogin = true)
  -- A login without a key goes on only if the row had none.
  | .load _ | .mint _ | .checkKey => l.Proved site ∧ (l.authKey = none → l.seen = none)
  | .checkSecret | .send | .forget | .register | .registered =>
    l.Proved site ∧ l.seen = l.authKey
  | .refused => True

variable {site : Site K S} {db db' : Db K S} {row : Row K S} {l l' : Login K S} {io : Io S}

theorem Fine.refuse (l : Login K S) : Fine site l.refuse := trivial

theorem secretLogin_key (h : l.secretLogin = true) : l.key = none := by
  simp only [Login.secretLogin, Bool.and_eq_true, isNone_iff_eq_none] at h
  exact h.1.1

theorem Fine.admitted (h : l.Fresh) (hseen : l.seen = l.key) (hsigned : l.signed site = true)
    (hkey : ¬ (l.key.isSome ∧ l.presented = none)) : Fine site l.admitted := by
  have hproved : l.Proved site := ⟨hsigned, .inl h.auth, by simp [h.hmac]⟩
  unfold Login.admitted
  split
  · rename_i hsome
    exact ⟨⟨hsigned, hproved.auth, hproved.hmac⟩, hsome, h.auth, hseen, by simp⟩
  rename_i hnone
  refine ⟨⟨hsigned, hproved.auth, hproved.hmac⟩, fun _ ↦ ?_⟩
  have hpresented : l.presented = none := by simpa using hnone
  have : l.key = none := by
    cases hk : l.key with
    | none => rfl
    | some k => exact absurd ⟨by simp [hk], hpresented⟩ hkey
  exact hseen.trans this

theorem Fine.stored (h : l.Proved site) (hpresented : l.presented.isSome) (repair : Bool) :
    Fine site (l.stored repair) := by
  refine ⟨⟨h.signed, .inr rfl, h.hmac⟩, fun hnone ↦ ?_⟩
  have : l.presented = none := hnone
  exact absurd hpresented (by simp [this])

variable {repair : Bool}

theorem Fine.notStored (h : l.Proved site) (hauth : l.authKey = none) (hseen : l.seen = l.key)
    (hs : repair = false → l.secretLogin = true) : Fine site (l.notStored repair) := by
  unfold Login.notStored
  split
  · exact Fine.refuse _
  · rename_i hrepair
    refine ⟨⟨h.signed, .inl hauth, h.hmac⟩, fun _ ↦ ?_⟩
    exact hseen.trans (secretLogin_key (hs (by simpa using hrepair)))

theorem Fine.askAdmission (h : l.Fresh) (hseen : l.seen = l.key) (hsigned : l.signed site = true)
    (o : Outcome) : Fine site (l.askAdmission site db o).2 := by
  unfold Login.askAdmission
  split
  · exact Fine.refuse _
  rename_i hkey
  split
  · exact Fine.admitted h hseen hsigned hkey
  split
  · dsimp only
    split
    · exact Fine.admitted h hseen hsigned hkey
    · exact Fine.refuse _
  · exact Fine.refuse _

theorem Fine.mintSecret (h : l.Proved site) (hseen : l.authKey = none → l.seen = none) (attempt : Nat)
    (io : Io S) : Fine site (l.mintSecret db attempt io).2 := by
  unfold Login.mintSecret
  dsimp only
  split
  · exact Fine.refuse _
  split
  · split
    · exact Fine.refuse _
    · exact ⟨⟨h.signed, h.auth, h.hmac⟩, hseen⟩
  · split
    · exact ⟨⟨h.signed, h.auth, h.hmac⟩, hseen⟩
    · exact Fine.refuse _

theorem alone_refuse (l : Login K S) : l.refuse.alone = false := by
  simp [Login.alone, Login.refuse]

theorem not_alone_of_stored (h : l.presented.isSome) (repair : Bool) :
    (l.stored repair).alone = false := by
  simp [Login.alone, Login.stored, h]

theorem not_alone_of_askAdmission (hsecret : l.secretLogin = false) (o : Outcome) :
    (l.askAdmission site db o).2.alone = false := by
  have hadmitted : l.admitted.alone = false := by
    have : l.admitted.secretLogin = false := by
      rw [← hsecret]
      unfold Login.admitted
      split <;> rfl
    rw [Login.alone, this, Bool.false_and]
  unfold Login.askAdmission
  split
  · exact alone_refuse l
  split
  · exact hadmitted
  split
  · dsimp only
    split
    · exact hadmitted
    · exact alone_refuse l
  · exact alone_refuse l

/-- The one who goes on without a key is a login with the secret. -/
theorem repair_of_notStored (h : (l.notStored repair).alone = true) : repair = false := by
  cases repair with
  | false => rfl
  | true => exact absurd h (by simp [Login.notStored, alone_refuse])

variable [DecidableEq K]

theorem Fine.readKeys (h : l.Fresh) : Fine site (l.readKeys row) := by
  unfold Login.readKeys
  dsimp only
  split
  · exact Fine.refuse _
  split
  · exact ⟨⟨h.auth, h.hmac⟩, rfl⟩
  rename_i hnone
  rw [not_or] at hnone
  have hpresented : l.presented = none := by simpa using hnone.1
  exact ⟨⟨h.auth, h.hmac⟩, rfl, by simp [Login.signed, hpresented],
    Bool.eq_false_of_not_eq_true hnone.2⟩

theorem Fine.branch (h : l.Fresh) (hseen : l.seen = l.key) (hsigned : l.signed site = true) :
    Fine site l.branch := by
  have hhmac : l.hmac = true → l.secretLogin = true := by simp [h.hmac]
  unfold Login.branch
  split
  · rename_i hkey
    refine ⟨⟨hsigned, .inr rfl, hhmac⟩, fun hnone ↦ ?_⟩
    have : l.presented = none := hnone
    rw [← hkey.2, this] at hkey
    exact absurd hkey.1 (by simp)
  · split
    · rename_i hs
      exact ⟨⟨h.auth, h.hmac⟩, hseen, hsigned, hs⟩
    · rename_i hs
      exact ⟨⟨h.auth, h.hmac⟩, hseen, hsigned, Bool.eq_false_of_not_eq_true hs⟩

theorem Fine.storeKey (h : l.Proved site) (hpresented : l.presented.isSome) (hauth : l.authKey = none)
    (hseen : l.seen = l.key) (hs : repair = false → l.secretLogin = true)
    (o : Outcome) : Fine site (l.storeKey db repair o).2 := by
  unfold Login.storeKey
  dsimp only
  split
  · exact Fine.notStored h hauth hseen hs
  · split
    · exact Fine.stored h hpresented repair
    · exact ⟨⟨h.signed, h.auth, h.hmac⟩, hpresented, hauth, hseen, hs⟩

/-- **Every turn of a login** keeps what it knows. -/
theorem Fine.turn (h : Fine site l) (ht : Turns site db l io db' l') : Fine site l' := by
  cases ht
  case refused => trivial
  all_goals simp only [Fine, ‹l.stage = _›] at h
  case hello => exact ⟨h.auth, h.hmac⟩
  case keys => exact Fine.readKeys h
  case challenge => exact ⟨⟨h.1.auth, h.1.hmac⟩, h.2⟩
  case answer hsigned => exact Fine.branch ⟨h.1.auth, h.1.hmac⟩ h.2 hsigned
  case secretKey hp =>
    obtain ⟨hfresh, hseen, hsigned, hsecret⟩ := h
    exact ⟨⟨hsigned, .inl hfresh.auth, fun _ ↦ hsecret⟩, hp, hfresh.auth, hseen, fun _ ↦ hsecret⟩
  case secretAlone =>
    obtain ⟨hfresh, hseen, hsigned, hsecret⟩ := h
    exact ⟨⟨hsigned, .inl hfresh.auth, fun _ ↦ hsecret⟩,
      fun _ ↦ hseen.trans (secretLogin_key hsecret)⟩
  case admission =>
    obtain ⟨hfresh, hseen, hsigned, -⟩ := h
    exact Fine.askAdmission hfresh hseen hsigned io.outcome
  case store =>
    obtain ⟨hproved, hsome, hauth, hseen, hsecret⟩ := h
    exact Fine.storeKey hproved hsome hauth hseen hsecret io.outcome
  case restored repair _ =>
    obtain ⟨hproved, hsome, -⟩ := h
    exact Fine.stored (l := { l with seen := db.row.key })
      ⟨hproved.signed, hproved.auth, hproved.hmac⟩ hsome repair
  case notRestored =>
    obtain ⟨hproved, -, hauth, hseen, hsecret⟩ := h
    exact Fine.notStored hproved hauth hseen hsecret
  case mint => exact Fine.mintSecret h.1 h.2 _ io
  case noKey hnone => exact ⟨⟨h.1.signed, h.1.auth, h.1.hmac⟩, (h.2 hnone).trans hnone.symm⟩
  case sameKey hkey => exact ⟨⟨h.1.signed, h.1.auth, h.1.hmac⟩, hkey⟩
  all_goals exact ⟨⟨h.1.signed, h.1.auth, h.1.hmac⟩, h.2⟩

/-- Only `SetNodeKey` changes the keys of the row, and only while the row holds the keys read. -/
theorem turn_row (ht : Turns site db l io db' l') :
    (db'.row.key = db.row.key ∧ db'.row.rejected = db.row.rejected) ∨
      ∃ repair, l.stage = .store repair ∧ io.outcome.applied = true ∧ l.unchanged db.row = true := by
  cases ht with
  | store hs =>
    unfold Login.storeKey
    dsimp only
    split
    · rename_i hlands
      exact .inr ⟨_, hs, hlands.1, hlands.2⟩
    · exact .inl ⟨rfl, rfl⟩
  | admission hs =>
    have hdb : (l.askAdmission site db io.outcome).1.row = db.row := by
      unfold Login.askAdmission
      split
      · rfl
      split
      · rfl
      · split
        · rfl
        · rfl
    exact .inl ⟨by rw [hdb], by rw [hdb]⟩
  | mint hs =>
    unfold Login.mintSecret
    dsimp only
    split
    · exact .inl ⟨rfl, rfl⟩
    · exact .inl ⟨rfl, rfl⟩
  | _ => exact .inl ⟨rfl, rfl⟩

/-- After the read of the keys, a login rests on the secret alone only if the row never held one. -/
theorem keyless_of_readKeys (h : (l.readKeys row).alone = true) : row.keyless := by
  unfold Login.readKeys at h
  dsimp only at h
  split at h
  · exact absurd h (by simp [alone_refuse])
  · split at h
    · simp only [Login.alone, Login.secretLogin, Bool.and_eq_true, isNone_iff_eq_none] at h
      exact h.1.1
    · exact absurd h (by simp [Login.alone])

theorem alone_of_branch {signature response : Text} (hs : l.stage = .answer)
    (h : (Login.branch { l with signature, response }).alone = true) : l.alone = true := by
  unfold Login.branch at h
  split at h
  · rename_i hkey
    simp only [Login.alone, Login.secretLogin, Bool.and_eq_true, isNone_iff_eq_none] at h
    exact absurd hkey.1 (by simp [h.1.1.1])
  · split at h
    · simpa [Login.alone, Login.secretLogin, hs] using h
    · exact absurd h (by simp [Login.alone])

/-- A login comes to rest on the secret alone only where the row has never held a key. -/
theorem alone_of_turn {s : State K S} (h : Fine site l) (hap : TurnApart s l io)
    (ht : Turns site s.db l io db' l') (halone : l'.alone = true) :
    l.alone = true ∨ db'.row.keyless := by
  unfold Fine at h
  unfold TurnApart at hap
  cases ht with
  | keys _ => exact .inr (keyless_of_readKeys halone)
  | answer hs _ => exact .inl (alone_of_branch hs halone)
  | secretAlone hs hp =>
    simp only [hs] at h
    exact .inl (by simp [Login.alone, hs, h.2.2.2, hp])
  | admission hs =>
    simp only [hs] at h
    exact absurd halone (by simp [not_alone_of_askAdmission h.2.2.2])
  | store hs =>
    simp only [hs] at h hap
    unfold Login.storeKey at halone ⊢
    dsimp only at halone ⊢
    split at halone
    · rename_i hfails
      obtain ⟨hfailed, hrow⟩ := hap.2 (repair_of_notStored halone) hfails
      rw [if_neg (by simp [hfailed, Outcome.applied])]
      exact .inr hrow
    · split at halone
      · exact absurd halone (by simp [not_alone_of_stored h.2.1])
      · exact absurd halone (by simp [Login.alone])
  | @restored repair hs =>
    simp only [hs] at h
    have hnot : ({ l.stored repair with seen := s.db.row.key } : Login K S).alone = false :=
      not_alone_of_stored h.2.1 repair
    exact absurd halone (by rw [hnot]; simp)
  | notRestored hs hfault =>
    simp only [hs] at hap
    exact .inr (hap (repair_of_notStored halone) hfault)
  | mint hs =>
    unfold Login.mintSecret at halone
    dsimp only at halone
    split at halone
    · exact absurd halone (by simp [alone_refuse])
    split at halone
    · split at halone
      · exact absurd halone (by simp [alone_refuse])
      · exact .inl (by simpa [Login.alone, Login.secretLogin, hs] using halone)
    · split at halone
      · exact .inl (by simpa [Login.alone, Login.secretLogin, hs] using halone)
      · exact absurd halone (by simp [alone_refuse])
  | refused | hello | secretKey | registered => exact absurd halone (by simp [Login.alone])
  | challenge hs | loaded hs _ | missing hs | noKey hs _ | sameKey hs _ | checked hs | sent hs
  | forgot hs _ =>
    exact .inl (by simpa [Login.alone, Login.secretLogin, hs] using halone)

end Fine

/-! ## All logins -/

section Run

variable {K : Type u} {S : Type v} {site : Site K S} {s s' : State K S} {l : Login K S}

/-- What holds in every state: every login knows what it should, the row has never held a key while a
login rests on the secret alone, and everyone was let in rightly. -/
structure Inv (site : Site K S) (s : State K S) : Prop where
  fine : ∀ l ∈ s.logins, Fine site l
  aloof : ∀ l ∈ s.logins, l.alone = true → s.db.row.keyless
  entered : ∀ e ∈ s.entered, e.Sound site

theorem Inv.start (db : Db K S) : Inv site (start db) :=
  ⟨fun _ h ↦ absurd h not_mem_nil, fun _ h ↦ absurd h not_mem_nil,
    fun _ h ↦ absurd h not_mem_nil⟩

/-- The signature of a key that was presented is over the nonce of this connection. -/
theorem exists_nonce_of_signed {k : K} (hpresented : l.presented = some k)
    (h : l.signed site = true) :
    ∃ n, l.nonce = some n ∧ site.verifySignature k n l.signature = true := by
  unfold Login.signed at h
  rw [hpresented] at h
  cases hn : l.nonce with
  | none =>
    rw [hn] at h
    cases h
  | some n =>
    rw [hn] at h
    exact ⟨n, rfl, h⟩

/-- What leaves Core in a turn leaves it rightly. -/
theorem sound_of_lets (h : Fine site l) {row : Row K S} (haloof : l.alone = true → row.keyless)
    {sent : Sent S} (hlets : l.lets = some sent) : Entered.Sound site ⟨sent, l, row⟩ := by
  have hstage : l.stage = .send ∨ l.stage = .register := by
    unfold Login.lets at hlets
    split at hlets
    · exact .inl ‹_›
    · exact .inr ‹_›
    · cases hlets
  have hknows : l.Proved site ∧ l.seen = l.authKey := by
    unfold Fine at h
    rcases hstage with hs | hs
    · simpa only [hs] using h
    · simpa only [hs] using h
  obtain ⟨hproved, hseen⟩ := hknows
  constructor
  · cases hauth : l.authKey with
    | none => exact .inl (hseen.trans hauth)
    | some k =>
      have hpresented : l.presented = some k := by
        rcases hproved.auth with hnone | hsame
        · rw [hauth] at hnone
          cases hnone
        · rw [← hsame, hauth]
      obtain ⟨n, hn, hverify⟩ := exists_nonce_of_signed hpresented hproved.signed
      exact .inr ⟨k, n, hseen.trans hauth, hpresented, hn, hverify⟩
  · intro hhmac hauth
    have hauth' : l.authKey = none := hauth
    refine haloof ?_
    rcases hstage with hs | hs
    · simp [Login.alone, hs, hproved.hmac hhmac, hauth']
    · simp [Login.alone, hs, hproved.hmac hhmac, hauth']

/-- A row that has never held a key has none to move aside. -/
theorem keyless_moveAside {row : Row K S} (h : row.keyless) : row.moveAside.keyless :=
  ⟨rfl, by simp [Row.moveAside, h.1, h.2]⟩

/-- A write to the row by which a row without keys stays one. -/
theorem Inv.write (h : Inv site s) {db' : Db K S} (hrow : s.db.row.keyless → db'.row.keyless) :
    Inv site { s with db := db' } :=
  ⟨h.fine, fun l hl ha ↦ hrow (h.aloof l hl ha), h.entered⟩

theorem Inv.connect (h : Inv site s) (presented : Option K) (secretProof : Bool)
    (clusterProof peerIP : Text) :
    Inv site { s with
      logins := s.logins ++ [Login.connect presented secretProof clusterProof peerIP] } := by
  refine ⟨fun l hl ↦ ?_, fun l hl ha ↦ ?_, h.entered⟩
  · rcases mem_append.mp hl with hl | hl
    · exact h.fine l hl
    · rw [mem_singleton.mp hl]
      exact ⟨rfl, rfl⟩
  · rcases mem_append.mp hl with hl | hl
    · exact h.aloof l hl ha
    · rw [mem_singleton.mp hl] at ha
      exact absurd ha (by simp [Login.alone, Login.connect])

variable [DecidableEq K]

/-- A turn of a login. -/
theorem Inv.turn (h : Inv site s) {i : Nat} {io : Io S} (hl : s.logins[i]? = some l)
    (hap : TurnApart s l io) {db' : Db K S} {l' : Login K S} (ht : Turns site s.db l io db' l') :
    Inv site { db := db', logins := s.logins.set i l',
               entered := s.entered ++ (l.lets.toList.map fun what ↦ ⟨what, l, s.db.row⟩) } := by
  have hmem : l ∈ s.logins := mem_of_getElem? hl
  have hfine := h.fine l hmem
  -- While a login rests on the secret alone, no key lands.
  have halone : ∀ k ∈ s.logins, k.alone = true → db'.row.keyless := by
    intro k hk ha
    obtain ⟨hkey, hrej⟩ := h.aloof k hk ha
    rcases turn_row ht with ⟨hkey', hrej'⟩ | ⟨repair, hs, happlied, hsame⟩
    · exact ⟨hkey'.trans hkey, hrej'.trans hrej⟩
    · unfold TurnApart at hap
      simp only [hs] at hap
      exact absurd ha (by simp [hap.1 happlied hsame k hk])
  refine ⟨fun k hk ↦ ?_, fun k hk ha ↦ ?_, fun e he ↦ ?_⟩
  · rcases mem_or_eq_of_mem_set hk with hk | rfl
    · exact h.fine k hk
    · exact hfine.turn ht
  · rcases mem_or_eq_of_mem_set hk with hk | rfl
    · exact halone k hk ha
    · rcases alone_of_turn hfine hap ht ha with hbefore | hrow
      · exact halone l hmem hbefore
      · exact hrow
  · rcases mem_append.mp he with he | he
    · exact h.entered e he
    · obtain ⟨sent, hsent, rfl⟩ := mem_map.mp he
      exact sound_of_lets hfine (h.aloof l hmem) (mem_toList.mp hsent)

/-- **One step** that meets `Apart` keeps the invariant. -/
theorem Inv.step (h : Inv site s) {a : Act K S} (hap : Apart s a)
    (hstep : step site s a = some s') : Inv site s' := by
  cases a with
  | connect presented secretProof clusterProof peerIP =>
    obtain ⟨-, hstep⟩ := ite_none_right_eq_some.mp hstep
    cases hstep
    exact h.connect presented secretProof clusterProof peerIP
  | turn i io =>
    obtain ⟨l, hl, hstep⟩ := bind_eq_some_iff.mp hstep
    obtain ⟨r, hr, rfl⟩ := map_eq_some_iff.mp hstep
    exact h.turn hl (hap l hl) (turns_of_turn hr)
  | reset =>
    cases hstep
    exact h.write keyless_moveAside
  | reject o =>
    cases hstep
    refine h.write fun hrow ↦ ?_
    unfold Db.reject
    dsimp only
    split
    · exact keyless_moveAside hrow
    · exact hrow
  | clearSecret o =>
    obtain ⟨db', hdb, rfl⟩ := map_eq_some_iff.mp hstep
    obtain ⟨-, hdb⟩ := ite_none_right_eq_some.mp hdb
    cases hdb
    refine h.write fun hrow ↦ ?_
    dsimp only
    split
    · exact hrow
    · exact hrow
  | arm a | disarm =>
    cases hstep
    exact h.write id

/-- **A login cannot be downgraded.**  In every run of any number of logins, interleaved with Reset pairing,
Roll key and admissions, whose steps keep logins with the secret alone apart: whenever a result is sent or a
stream registered, the row's key as the login last read it is none or the one with which the caller signed
this connection's nonce, and a row is entered with the answer of its secret alone only if it holds no key and
no rejected one. -/
theorem login_not_downgraded (site : Site K S) (db : Db K S) {s : State K S}
    (h : Reach (step site) Apart (start db) s) : ∀ e ∈ s.entered, e.Sound site :=
  (h.invariant (P := Inv site) (Inv.start db) fun _ _ _ hinv hap hstep ↦ hinv.step hap hstep).entered

end Run

/-! ## Two runs -/

section Runs

/-- A platform node, with keys and secrets of one byte that sign and answer by standing before the
nonce. -/
def platformNode : Site UInt8 UInt8 where
  owned := false
  platformToken := false
  joins := true
  valid _ := true
  fingerprint k := [k]
  verifySignature k n sig := sig == k :: n
  verifyResponse s n resp := resp == s :: n
  verifyClusterProof _ := false

/-- A row from before keys. -/
def oldRow : Db UInt8 UInt8 := ⟨⟨none, none, some 7⟩, none, 0⟩

/-- A turn in which nothing fails. -/
def smooth : Io UInt8 := ⟨false, .ok, [], [], [], 0⟩

/-- The turns of a login up to its challenge. -/
def toChallenge (i : Nat) (n : UInt8) : List (Act UInt8 UInt8) :=
  [.turn i smooth, .turn i smooth, .turn i { smooth with nonce := [n] }]

/-- An answer, and so many turns after it. -/
def answerAnd (i : Nat) (signature response : Text) (turns : Nat) : List (Act UInt8 UInt8) :=
  .turn i { smooth with signature := signature, response := response } ::
    List.replicate turns (.turn i smooth)

/-- A node from before keys stores its first key; its key is rolled, and it comes back with a new one
through the admission that the roll armed. -/
def rolled : List (Act UInt8 UInt8) :=
  [.connect (some 5) true [] [9]] ++ toChallenge 0 1 ++ answerAnd 0 [5, 1] [7, 1] 8 ++
  [.reject .ok, .arm ⟨[9], []⟩, .connect (some 6) true [] [9]] ++ toChallenge 1 2 ++
  answerAnd 1 [6, 2] [7, 2] 8

theorem login_not_downgraded_rolled :
    ∃ s, Reach (step platformNode) Apart (start oldRow) s ∧
      s.entered.map (fun e ↦ (e.login.seen, e.row.key)) =
        [(some 5, some 5), (some 5, some 5), (some 6, some 6), (some 6, some 6)] ∧
      ∀ e ∈ s.entered, e.Sound platformNode := by
  have hrun : (exec (step platformNode) Apart (start oldRow) rolled).map
      (fun s ↦ s.entered.map fun e ↦ (e.login.seen, e.row.key)) =
        some [(some 5, some 5), (some 5, some 5), (some 6, some 6), (some 6, some 6)] := by
    decide +kernel
  obtain ⟨s, hs, hentered⟩ := exists_reach_of_exec hrun
  exact ⟨s, hs, hentered, login_not_downgraded platformNode oldRow hs⟩

/-- An image from before keys waits with its answer until another login has stored a key. -/
def heldBack : List (Act UInt8 UInt8) :=
  [.connect none true [] [9]] ++ toChallenge 0 1 ++
  [.connect (some 5) true [] [9]] ++ toChallenge 1 2 ++ answerAnd 1 [5, 2] [7, 2] 8 ++
  answerAnd 0 [] [7, 1] 7

/-- Then it is let in with the answer of the secret alone, to a row that holds a key. -/
theorem not_login_not_downgraded :
    ¬ ∀ s, Reach (step platformNode) anyStep (start oldRow) s →
      ∀ e ∈ s.entered, e.Sound platformNode := by
  intro h
  have hrun : (exec (step platformNode) anyStep (start oldRow) heldBack).map
      (fun s ↦ s.entered.getLast?.map fun e ↦ (e.sent, e.login.hmac, e.login.authKey, e.row.key)) =
        some (some (.stream, true, none, some 5)) := by
    decide +kernel
  obtain ⟨s, hs, hlast⟩ := exists_reach_of_exec hrun
  obtain ⟨e, he, heq⟩ := map_eq_some_iff.mp hlast
  obtain ⟨-, hhmac, hauth, hkey⟩ : e.sent = .stream ∧ e.login.hmac = true ∧ e.login.authKey = none ∧
      e.row.key = some 5 := by simpa using heq
  have hkeyless := (h s hs e (mem_of_getLast? he)).secret hhmac hauth
  exact absurd (hkey.symm.trans hkeyless.1) (by simp)

end Runs

/-! ## A rejected key -/

section Rejected

variable {K : Type u} {S : Type v} [DecidableEq K] {site : Site K S} {db db' : Db K S} {l l' : Login K S}
  {io : Io S}

/-- The row's key is not the one that was rejected last. -/
def Row.Clear (row : Row K S) : Prop := ∀ k, row.key = some k → row.rejected ≠ some k

/-- A login that has read the keys does not present the one that was rejected then. -/
def Login.Clear (l : Login K S) : Prop :=
  match l.stage with
  | .hello | .keys | .refused => True
  | _ => ∀ k, l.presented = some k → l.rejected ≠ some k

omit [DecidableEq K] in
theorem Login.Clear.of (h : ∀ k, l.presented = some k → l.rejected ≠ some k)
    (hp : l'.presented = l.presented) (hr : l'.rejected = l.rejected) : l'.Clear := by
  unfold Login.Clear
  split
  · trivial
  · trivial
  · trivial
  · rwa [hp, hr]

theorem Login.Clear.turn (h : l.Clear) (ht : Turns site db l io db' l') : l'.Clear := by
  cases ht
  case refused => trivial
  case hello => trivial
  case keys =>
    unfold Login.readKeys
    dsimp only
    split
    · trivial
    · rename_i hne
      refine Login.Clear.of (l := { l with rejected := db.row.rejected }) ?_ ?_ ?_
      · intro k hk hrej
        exact hne ⟨isSome_iff_exists.mpr ⟨k, hk⟩, hk.trans hrej.symm⟩
      · split <;> rfl
      · split <;> rfl
  all_goals
    simp only [Login.Clear, ‹l.stage = _›] at h
    refine Login.Clear.of h ?_ ?_
  all_goals
    simp only [Login.branch, Login.askAdmission, Login.admitted, Login.storeKey, Login.stored,
      Login.notStored, Login.mintSecret, Login.refuse]
    repeat' split
    all_goals rfl

theorem Row.Clear.turn (hrow : db.row.Clear) (h : l.Clear) (ht : Turns site db l io db' l') :
    db'.row.Clear := by
  rcases turn_row ht with ⟨hkey, hrej⟩ | ⟨repair, hs, happlied, hsame⟩
  · unfold Row.Clear
    rwa [hkey, hrej]
  · cases ht with
    | store =>
      simp only [Login.Clear, hs] at h
      unfold Login.storeKey
      dsimp only
      rw [if_pos ⟨happlied, hsame⟩]
      simp only [Login.unchanged, Bool.decide_and, Bool.and_eq_true, decide_eq_true_eq] at hsame
      intro k hk
      exact hsame.2 ▸ h k hk
    | _ => simp_all

/-- **A rejected key does not come back.**  In every run of logins, Reset pairing, Roll key and admissions, in
any order and on any number of replicas, the key that was rejected last is not the row's key again, and no
login that presents it is registered after it has read that it was rejected. -/
theorem rejected_key_stays_out (site : Site K S) {db : Db K S} {s : State K S} (hdb : db.row.Clear)
    (h : Reach (step site) anyStep (start db) s) : s.db.row.Clear ∧ ∀ l ∈ s.logins, l.Clear := by
  refine h.invariant (P := fun s ↦ s.db.row.Clear ∧ ∀ l ∈ s.logins, l.Clear)
    ⟨hdb, by simp [start]⟩ ?_
  rintro s a s' ⟨hrow, hlogins⟩ - hstep
  have haside : s.db.row.moveAside.Clear := fun k hk ↦ by cases hk
  cases a with
  | connect =>
    obtain ⟨-, hstep⟩ := ite_none_right_eq_some.mp hstep
    cases hstep
    refine ⟨hrow, fun l hl ↦ ?_⟩
    rcases mem_append.mp hl with hl | hl
    · exact hlogins l hl
    · rw [mem_singleton.mp hl]
      trivial
  | turn i io =>
    obtain ⟨l, hl, hstep⟩ := bind_eq_some_iff.mp hstep
    obtain ⟨r, hr, rfl⟩ := map_eq_some_iff.mp hstep
    have hclear := hlogins l (mem_of_getElem? hl)
    refine ⟨hrow.turn hclear (turns_of_turn hr), fun l' hl' ↦ ?_⟩
    rcases mem_or_eq_of_mem_set hl' with hl' | rfl
    · exact hlogins l' hl'
    · exact hclear.turn (turns_of_turn hr)
  | reset =>
    cases hstep
    exact ⟨haside, hlogins⟩
  | reject o =>
    cases hstep
    refine ⟨?_, hlogins⟩
    unfold Db.reject
    dsimp only
    split
    · exact haside
    · exact hrow
  | clearSecret o =>
    obtain ⟨db', hdb, rfl⟩ := map_eq_some_iff.mp hstep
    obtain ⟨-, hdb⟩ := ite_none_right_eq_some.mp hdb
    cases hdb
    refine ⟨?_, hlogins⟩
    dsimp only
    split
    · exact hrow
    · exact hrow
  | arm | disarm =>
    cases hstep
    exact ⟨hrow, hlogins⟩

end Rejected

/-- A key is rolled, and the node comes back with another. -/
theorem rejected_key_stays_out_rolled : ∃ s, Reach (step platformNode) anyStep (start oldRow) s ∧
    s.db.row.rejected = some 5 ∧ s.db.row.key ≠ some 5 := by
  have hexec : ((exec (step platformNode) anyStep (start oldRow) rolled).map
      fun s ↦ s.db.row.rejected) = some (some 5) := by decide +kernel
  obtain ⟨s, hs, hrej⟩ := exists_reach_of_exec hexec
  refine ⟨s, hs, hrej, fun hkey ↦ ?_⟩
  exact (rejected_key_stays_out platformNode (fun k hk ↦ by cases hk) hs).1 5 hkey hrej

end Dylaris.NodeLogin
