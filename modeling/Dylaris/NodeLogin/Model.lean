import Dylaris.Library.Machine
import Dylaris.Library.Text

/-!
# The login of a known node

`NodeConnect` in `core/grpc/server.go`, from the point at which the node's row has been found.  A row
holds the node's login key, the last key an operator rejected, and the service secret.  A node that
holds a key logs in with it; a row that never had one is entered with the secret, and takes the key
that such a node presents; a row without a login is entered with a cluster proof or an admission.

The logins of one node run on any number of Core replicas, and an operator may act at any time, so the
database is shared and a login is a sequence of turns, one for each read, write or message.  A read
and a message may fail (`Io.fault`); a write may fail, or be applied and reported as failed
(`Io.outcome`).  The nonce, the answer and a minted secret are whatever the turn says they are.

* `Row`, `Approval` and `Db` are the node's row, the admission that is armed for it
  (`node_join_attempts`), and what an operator's action has still to do.
* `Login.turn` is one turn of a login, in the order of the source.
* `Db.reset`, `Db.reject` and `Db.clearSecret` are the writes of Reset pairing, Roll key and the
  approvals (`core/handlers/nodes/node_admission.go`, `core/store/postgres.go`).
* `step` puts them side by side, and keeps a record of every answer with which a caller was let in and
  of every stream that was registered.

`Site` says which signature and which answer verify.
-/

set_option autoImplicit false

open Machine Text

namespace Dylaris.NodeLogin

universe u v

/-! ## The database -/

/-- The login columns of the node's row. -/
structure Row (K : Type u) (S : Type v) where
  key : Option K
  rejected : Option K
  secret : Option S
deriving DecidableEq

/-- An admission: the address it was granted for, if any, and the fingerprint of the key, or its
beginning, if any. -/
structure Approval where
  fromIP : Text
  key : Text
deriving DecidableEq

/-- The node's row and its admission. -/
structure Db (K : Type u) (S : Type v) where
  row : Row K S
  approval : Option Approval
  /-- The revocations that found no key and have still to clear the secret. -/
  clears : Nat
deriving DecidableEq

/-- The test of `ConsumeNodeJoinApproval`. -/
def Approval.admits (a : Approval) (peerIP keyFingerprint : Text) : Bool :=
  (a.fromIP ≠ [] ∧ a.fromIP = peerIP ∧ (a.key = [] ∨ a.key = keyFingerprint)) ∨
    (a.fromIP = [] ∧ 16 ≤ a.key.length ∧ keyFingerprint.take a.key.length = a.key)

section Writes

variable {K : Type u} {S : Type v} (db : Db K S)

/-- The key is moved aside; a row without one keeps the key rejected before. -/
def Row.moveAside (row : Row K S) : Row K S :=
  { row with rejected := if row.key.isSome then row.key else row.rejected, key := none }

/-- `ResetNodeLogin`: one statement, the admission with it. -/
def Db.reset : Db K S :=
  { db with row := { db.row.moveAside with secret := none }, approval := none }

/-- `RejectNodePublicKey`; for a row that has never held a key, the secret is cleared after it, if the
answer arrives. -/
def Db.reject (o : Outcome) : Db K S :=
  { db with
    row := if o.applied then db.row.moveAside else db.row
    clears := if o = .ok ∧ db.row.moveAside.rejected.isNone then db.clears + 1 else db.clears }

/-- `SetNodeSecretEnc` with nothing. -/
def Db.clearSecret (o : Outcome) : Option (Db K S) :=
  if 0 < db.clears then
    some { db with
      row := if o.applied then { db.row with secret := none } else db.row
      clears := db.clears - 1 }
  else none

end Writes

/-! ## A login -/

/-- What is next for a login. -/
inductive Stage
  /-- `HasSecret`. -/
  | hello
  /-- `NodeKeys`. -/
  | keys
  | challenge
  | answer
  /-- `VerifyChallenge`, for a login with the secret. -/
  | proveSecret
  | admission
  /-- `SetNodeKey`; `repair` tells the re-pair from the first key of a row. -/
  | store (repair : Bool)
  /-- `NodeKeys`, after another replica's key came first. -/
  | restore (repair : Bool)
  /-- `LoadOrCreateNodeSecret`: the read of an attempt, and its write. -/
  | load (attempt : Nat)
  | mint (attempt : Nat)
  /-- `stillPaired`, of the key and of the secret. -/
  | checkKey
  | checkSecret
  | send
  /-- `ForgetJoinAttempts`. -/
  | forget
  /-- `RegisterProved`. -/
  | register
  | registered
  | refused
deriving DecidableEq, Repr

/-- A login under way. -/
structure Login (K : Type u) (S : Type v) where
  /-- What the node sent: its key, whether it has a cached secret, a cluster proof; and its address. -/
  presented : Option K
  secretProof : Bool
  clusterProof : Text
  peerIP : Text
  stage : Stage
  /-- What was read of the row at the start. -/
  hasSecret : Bool
  key : Option K
  rejected : Option K
  /-- The row's key as this login last read it. -/
  seen : Option K
  /-- This connection's nonce, and the answer to it. -/
  nonce : Option Text
  signature : Text
  response : Text
  authKey : Option K
  hmac : Bool
  rehand : Bool
  secretHex : Option S
deriving DecidableEq

/-- What a turn finds: a read or a message that fails, how a write turns out, and what is new. -/
structure Io (S : Type v) where
  fault : Bool
  outcome : Outcome
  nonce : Text
  signature : Text
  response : Text
  minted : S

/-- The node, and what is outside: which keys can be login keys, which signature of a key and which
answer of a secret verifies for a nonce, and which cluster proof is the node's. -/
structure Site (K : Type u) (S : Type v) where
  owned : Bool
  platformToken : Bool
  /-- Refusals are recorded and admissions looked up. -/
  joins : Bool
  valid : K → Bool
  fingerprint : K → Text
  verifySignature : K → Text → Text → Bool
  verifyResponse : S → Text → Text → Bool
  verifyClusterProof : Text → Bool

def mintAttempts : Nat := 3

section Login

variable {K : Type u} {S : Type v} [DecidableEq K] [DecidableEq S]

def Login.connect (presented : Option K) (secretProof : Bool) (clusterProof peerIP : Text) :
    Login K S :=
  { presented, secretProof, clusterProof, peerIP, stage := .hello, hasSecret := false, key := none,
    rejected := none, seen := none, nonce := none, signature := [], response := [], authKey := none,
    hmac := false, rehand := false, secretHex := none }

def Login.refuse (l : Login K S) : Login K S := { l with stage := .refused }

/-- A row that has never held a key is entered with its secret. -/
def Login.secretLogin (l : Login K S) : Bool := l.key.isNone && l.rejected.isNone && l.hasSecret

/-- The cluster proof counts for a row of the operator's own, without a live login. -/
def Login.clusterOk (site : Site K S) (l : Login K S) : Bool :=
  !site.owned && !site.platformToken && (l.key.isNone && (l.rejected.isSome || !l.hasSecret)) &&
    site.verifyClusterProof l.clusterProof

/-- `KeyFingerprint` of the key that was presented. -/
def Login.fingerprint (site : Site K S) (l : Login K S) : Text :=
  (l.presented.map site.fingerprint).getD []

/-- The key that was presented has signed the nonce. -/
def Login.signed (site : Site K S) (l : Login K S) : Bool :=
  match l.presented, l.nonce with
  | some k, some n => site.verifySignature k n l.signature
  | some _, none => false
  | none, _ => true

/-- `VerifyChallenge` against the secret that the row holds. -/
def Login.answers (site : Site K S) (row : Row K S) (l : Login K S) : Bool :=
  match row.secret, l.nonce with
  | some s, some n => site.verifyResponse s n l.response
  | _, _ => false

/-- The branches, once the answer is there. -/
def Login.branch (l : Login K S) : Login K S :=
  if l.key.isSome ∧ l.presented = l.key then
    { l with authKey := l.presented, rehand := !l.secretProof, stage := .load 0 }
  else if l.secretLogin then { l with stage := .proveSecret }
  else { l with stage := .admission }

/-- The node is admitted. -/
def Login.admitted (l : Login K S) : Login K S :=
  if l.presented.isSome then { l with stage := .store true }
  else { l with rehand := true, stage := .load 0 }

/-- The key is on the row. -/
def Login.stored (l : Login K S) (repair : Bool) : Login K S :=
  { l with authKey := l.presented, rehand := repair, stage := .load 0 }

/-- The key could not be stored: the re-pair is refused, a login with the secret goes on without it. -/
def Login.notStored (l : Login K S) (repair : Bool) : Login K S :=
  if repair then l.refuse else { l with stage := .load 0 }

/-- The first read of the keys, and what follows from it. -/
def Login.readKeys (row : Row K S) (l : Login K S) : Login K S :=
  let l := { l with key := row.key, rejected := row.rejected, seen := row.key }
  if l.presented.isSome ∧ l.presented = row.rejected then l.refuse
  else if l.presented.isSome ∨ l.secretLogin then { l with stage := .challenge }
  else { l with stage := .admission }

/-- The branch without a login: a cluster proof, or an admission that is used up. -/
def Login.askAdmission (site : Site K S) (db : Db K S) (l : Login K S) (o : Outcome) :
    Db K S × Login K S :=
  if l.key.isSome ∧ l.presented = none then (db, l.refuse)
  else if l.clusterOk site then (db, l.admitted)
  else if site.joins ∧ (db.approval.map (·.admits l.peerIP (l.fingerprint site))).getD false then
    ({ db with approval := if o.applied then none else db.approval },
      if o = .ok then l.admitted else l.refuse)
  else (db, l.refuse)

/-- The row still holds the keys that were read at the start. -/
def Login.unchanged (row : Row K S) (l : Login K S) : Bool :=
  row.key = l.key ∧ row.rejected = l.rejected

/-- `SetNodeKey`: the key is written while the row holds the keys that were read. -/
def Login.storeKey (db : Db K S) (l : Login K S) (repair : Bool) (o : Outcome) :
    Db K S × Login K S :=
  let db' := if o.applied ∧ l.unchanged db.row then
    { db with row := { db.row with key := l.presented } } else db
  (db', if o ≠ .ok then l.notStored repair
    else if l.unchanged db.row then l.stored repair else { l with stage := .restore repair })

/-- The write of `LoadOrCreateNodeSecret`, and the provisioning of the node after it. -/
def Login.mintSecret (db : Db K S) (l : Login K S) (attempt : Nat) (io : Io S) :
    Db K S × Login K S :=
  let db' := if io.outcome.applied ∧ db.row.secret = none then
    { db with row := { db.row with secret := some io.minted } } else db
  (db', if io.outcome ≠ .ok then l.refuse
    else if db.row.secret = none then
      if io.fault then l.refuse else { l with secretHex := some io.minted, stage := .checkKey }
    else if attempt + 1 < mintAttempts then { l with stage := .load (attempt + 1) } else l.refuse)

/-- One turn of a login. -/
def Login.turn (site : Site K S) (db : Db K S) (l : Login K S) (io : Io S) :
    Option (Db K S × Login K S) :=
  match l.stage with
  | .hello =>
    some (db, if io.fault then l.refuse
      else { l with hasSecret := db.row.secret.isSome, stage := .keys })
  | .keys => some (db, if io.fault then l.refuse else l.readKeys db.row)
  | .challenge =>
    some (db, if io.fault then l.refuse else { l with nonce := some io.nonce, stage := .answer })
  | .answer =>
    let l' := { l with signature := io.signature, response := io.response }
    some (db, if io.fault ∨ l'.signed site = false then l.refuse else l'.branch)
  | .proveSecret =>
    some (db, if io.fault ∨ l.answers site db.row = false then l.refuse
      else { l with hmac := true, stage := if l.presented.isSome then .store false else .load 0 })
  | .admission => some (l.askAdmission site db io.outcome)
  | .store repair => some (l.storeKey db repair io.outcome)
  | .restore repair =>
    some (db, if io.fault then l.notStored repair
      else if db.row.key = l.presented then { l.stored repair with seen := db.row.key }
      else { l.refuse with seen := db.row.key })
  | .load attempt =>
    some (db, if io.fault then l.refuse
      else match db.row.secret with
        | some s => { l with secretHex := some s, stage := .checkKey }
        | none => { l with stage := .mint attempt })
  | .mint attempt => some (l.mintSecret db attempt io)
  | .checkKey =>
    some (db, if l.authKey = none then { l with stage := .checkSecret }
      else if io.fault then l.refuse
      else if db.row.key = l.authKey then { l with seen := db.row.key, stage := .checkSecret }
      else { l.refuse with seen := db.row.key })
  | .checkSecret =>
    some (db, if l.hmac = false then { l with stage := .send }
      else if io.fault ∨ l.answers site db.row = false then l.refuse
      else { l with stage := .send })
  | .send => some (db, if io.fault then l.refuse else { l with stage := .forget })
  | .forget =>
    some ({ db with approval := if io.outcome.applied then none else db.approval },
      { l with stage := .register })
  | .register => some (db, { l with stage := .registered })
  | .registered | .refused => none

end Login

/-! ## All logins of the node -/

/-- What left Core: the result of a login, with the secret or without it, or the registration of its
stream. -/
inductive Sent (S : Type v)
  | result (secret : Option S)
  | stream
deriving DecidableEq

/-- A caller was let in: what it was given, its login, and the row at that moment. -/
structure Entered (K : Type u) (S : Type v) where
  sent : Sent S
  login : Login K S
  row : Row K S
deriving DecidableEq

/-- The row, the logins, and those that were let in. -/
structure State (K : Type u) (S : Type v) where
  db : Db K S
  logins : List (Login K S)
  entered : List (Entered K S)
deriving DecidableEq

/-- A login goes on, or the operator acts. -/
inductive Act (K : Type u) (S : Type v)
  | connect (presented : Option K) (secretProof : Bool) (clusterProof peerIP : Text)
  | turn (i : Nat) (io : Io S)
  | reset
  /-- The first write of Roll key and of an approval, and the second. -/
  | reject (o : Outcome)
  | clearSecret (o : Outcome)
  /-- An operator or the owner admits the node. -/
  | arm (a : Approval)
  /-- The admission runs out or is dismissed. -/
  | disarm

section Step

variable {K : Type u} {S : Type v} [DecidableEq K] [DecidableEq S]

def start (db : Db K S) : State K S := ⟨db, [], []⟩

/-- What a turn at this stage lets out. -/
def Login.lets (l : Login K S) : Option (Sent S) :=
  match l.stage with
  | .send => some (.result (if !l.hasSecret || l.rehand then l.secretHex else none))
  | .register => some .stream
  | _ => none

def step (site : Site K S) (s : State K S) : Act K S → Option (State K S)
  | .connect presented secretProof clusterProof peerIP =>
    if presented.all site.valid then
      some { s with logins := s.logins ++ [Login.connect presented secretProof clusterProof peerIP] }
    else none
  | .turn i io =>
    s.logins[i]?.bind fun l ↦ (l.turn site s.db io).map fun r ↦
      { db := r.1
        logins := s.logins.set i r.2
        entered := s.entered ++ (l.lets.toList.map fun what ↦ ⟨what, l, s.db.row⟩) }
  | .reset => some { s with db := s.db.reset }
  | .reject o => some { s with db := s.db.reject o }
  | .clearSecret o => (s.db.clearSecret o).map fun db ↦ { s with db := db }
  | .arm a => some { s with db := { s.db with approval := some a } }
  | .disarm => some { s with db := { s.db with approval := none } }

end Step

end Dylaris.NodeLogin
