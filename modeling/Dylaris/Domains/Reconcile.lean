import Dylaris.Domains.Evaluate
import Dylaris.Library.Machine
import Mathlib.Data.List.Dedup

/-!
# The DNS reconciler

`core/services/server_domain_reconciler.go` keeps the A and SRV records of the managed domains at
their DNS providers.  Providers give a record no id to know it by, so Core keeps a *ledger*: a row for
each record it wrote, with the name, the type, the value and, for an SRV record, the port.  A record
at a provider is Core's if a row names it.

`runOnce` is one pass: it lists the ledger and brings one zone after another in line (`syncZone`).  For
a zone it reads the records, decides for each domain whether its names are free of records that are
not Core's (`domainPlan`), and then writes with one call, settles the ledger (`settleKey`), deletes
with one call and drops the rows of what it deleted.  A write that fails may have been applied in part,
so the zone is read again and what is found there is put into the ledger (`ledgerPartialWrite`).

A zone is a list of records as `dnsprov` reports them.  `setRecords` replaces all records of a name and
a type, `deleteRecords` removes records by their value; either may fail, with any part of it done.  How
the calls of a pass turn out is in its `Replies`.

Between passes records are edited by hand, domains are removed, which leaves their rows without a
domain, and accounts, which takes their rows.

Two parts of the state are there for the results only: `wrote` holds what Core wrote, and `touched` the
records it asked a provider to replace or delete, each with the ledger at the time the zone was read.

`strings.ToLower` and the text form of addresses are parameters.
-/

set_option autoImplicit false

open Text Machine

namespace Dylaris.Domains

/-! ## Names -/

/-- A byte of a host name in lower case. -/
def isPlain (b : UInt8) : Bool :=
  (0x61 ≤ b && b ≤ 0x7A) || (0x30 ≤ b && b ≤ 0x39) || b = 0x2D || b = 0x2E || b = 0x5F

/-- `ValidateSubdomainLabel`. -/
def isLabel (t : Text) : Bool :=
  t ≠ [] && t.length ≤ 63 && t.head? ≠ some 0x2D && t.getLast? ≠ some 0x2D &&
    t.all fun b ↦ (0x61 ≤ b && b ≤ 0x7A) || (0x30 ≤ b && b ≤ 0x39) || b = 0x2D

/-- The label of a managed domain. -/
structure Label where
  text : Text
  valid : isLabel text
deriving DecidableEq

/-- The name of a zone: lower case, without a dot at the end. -/
structure ZoneName where
  text : Text
  plain : text.all isPlain
  nonempty : text ≠ []
  noDot : text.getLast? ≠ some 0x2E
deriving DecidableEq

/-- `strings.ToLower` and the text form of addresses.  Core writes IPv4 addresses only. -/
structure Texts where
  lower : Text → Text
  parseAddr : Text → Option Addr
  str : Addr → Text
  lower_plain : ∀ t : Text, t.all isPlain = true → lower t = t
  parse_str : ∀ bits, parseAddr (str (.v4 bits)) = some (.v4 bits)
  trim_str : ∀ bits, trimSpace (str (.v4 bits)) = str (.v4 bits)

/-! ## Records and rows -/

inductive RecordType
  | a | srv | cname
deriving DecidableEq

def RecordType.text : RecordType → Text
  | .a => lit "A"
  | .srv => lit "SRV"
  | .cname => lit "CNAME"

/-- `dnsprov.Record`. -/
structure Record where
  name : Text
  type : RecordType
  value : Text
  port : UInt16
deriving DecidableEq

/-- One zone of one account. -/
structure Ref where
  account : Nat
  zone : ZoneName
deriving DecidableEq

/-- What a row of the ledger names. -/
structure Entry where
  ref : Ref
  name : Text
  type : RecordType
  value : Text
  port : UInt16
deriving DecidableEq

/-- A row of the ledger.  It has no domain once the domain is gone. -/
structure Row extends Entry where
  id : Nat
  domain : Option Nat
deriving DecidableEq

structure RecKey where
  name : Text
  type : RecordType
deriving DecidableEq

def srvRecordPrefix : Text := lit "_minecraft._tcp."

section Records

variable (x : Texts)

def keyOf (name : Text) (type : RecordType) : RecKey :=
  let name := x.lower (trimDot name)
  ⟨if name = lit "@" then [] else name, type⟩

/-- The key of a record as a provider reports it, where an SRV record has the bare label. -/
def providerKey (rec : Record) : RecKey :=
  if rec.type = .srv then keyOf x (srvRecordPrefix ++ rec.name) .srv else keyOf x rec.name rec.type

def toProvider (rec : Record) : Record :=
  if rec.type = .srv ∧ srvRecordPrefix.isPrefixOf rec.name then
    { rec with name := rec.name.drop srvRecordPrefix.length }
  else rec

/-- An address in its canonical form, anything else in lower case without a dot at the end. -/
def normValue (type : RecordType) (v : Text) : Text :=
  let v := trimSpace v
  match if type = .a then x.parseAddr v else none with
  | some a => x.str a.unmap
  | none => x.lower (trimDot v)

def sameValue (type : RecordType) (aValue : Text) (aPort : UInt16) (bValue : Text) (bPort : UInt16) :
    Bool :=
  normValue x type aValue = normValue x type bValue && (type ≠ .srv || aPort = bPort)

/-- The row names exactly this record. -/
def ownsRecord (o : Entry) (rec : Record) : Bool :=
  keyOf x o.name o.type = providerKey x rec && sameValue x rec.type o.value o.port rec.value rec.port

def ownedByAny (rows : List Row) (rec : Record) : Bool := rows.any fun o ↦ ownsRecord x o.toEntry rec

def ownedAt (recs : List Record) (o : Row) : List Record :=
  recs.filter fun rec ↦ ownsRecord x o.toEntry rec

/-- The row that says Core wrote the record. -/
def ledgerRow (ref : Ref) (want : Record) (domain : Nat) : Row where
  ref := ref
  name := (keyOf x want.name want.type).name
  type := (keyOf x want.name want.type).type
  value := normValue x want.type want.value
  port := if want.type = .srv then want.port else 0
  id := 0
  domain := some domain

def sameRecord (recs : List Record) (want : Record) : Bool :=
  match recs with
  | [rec] => sameValue x want.type rec.value rec.port want.value want.port
  | _ => false

/-- The records a domain wants. -/
def expectedRecords (label : Label) (zone : ZoneName) (ip : BitVec 32) (port : UInt16) :
    List Record :=
  ⟨label.text, .a, x.str (.v4 ip), 0⟩ ::
    if port ≠ defaultMinecraftPort then
      [⟨srvRecordPrefix ++ label.text, .srv, label.text ++ lit "." ++ zone.text, port⟩]
    else []

end Records

/-! ## Planning -/

/-- A managed domain. -/
structure Domain where
  id : Nat
  serverID : Nat
  fqdn : Text
  label : Label
deriving DecidableEq

/-- Where the players of a server connect. -/
structure Target where
  ip : Option (BitVec 32)
  port : UInt16
deriving DecidableEq

def changedByHandProblem (name : Text) (type : RecordType) : Text :=
  lit "the " ++ type.text ++ lit " record of " ++ name ++
    lit " was changed at the DNS provider by hand - DYLARIS leaves it alone " ++
    lit "until the changed record is removed"

def foreignRecordProblem (name : Text) (type : RecordType) : Text :=
  name ++ lit " already has " ++ (if type = .cname then lit "a" else lit "an") ++ lit " " ++
    type.text ++ lit " record that DYLARIS did not create - remove it or pick another name"

/-- A record a domain wants, under its key, and the row that records it. -/
structure RecordPlan where
  k : RecKey
  want : Record
  row : Row
deriving DecidableEq

/-- What is to be done for a domain: either its problem, or its records, the records it no longer
needs and their rows. -/
structure DomainPlan where
  problem : Option Text
  plans : List RecordPlan
  toDelete : List Record
  dropAfter : List Nat

section Planning

variable (x : Texts) (existing : List Record) (owned : List Row)

/-- The records of the zone under a key. -/
def recordsAt (k : RecKey) : List Record := existing.filter fun rec ↦ providerKey x rec = k

/-- The rows of the ledger under a key. -/
def rowsAt (k : RecKey) : List Row := owned.filter fun o ↦ keyOf x o.name o.type = k

/-- The name holds a record that no row names by its value. -/
def foreign (k : RecKey) : Bool :=
  (recordsAt x existing k).any fun rec ↦ !ownedByAny x (rowsAt x owned k) rec

/-- Why a wanted record cannot be written. -/
def conflictAt (fqdn : Text) (e : Record) : Option Text :=
  let name := if e.type = .srv then srvRecordPrefix ++ fqdn else fqdn
  if recordsAt x existing (keyOf x e.name .cname) ≠ [] then some (foreignRecordProblem name .cname)
  else if foreign x existing owned (keyOf x e.name e.type) then
    if rowsAt x owned (keyOf x e.name e.type) ≠ [] then some (changedByHandProblem name e.type)
    else some (foreignRecordProblem name e.type)
  else none

def planOf (ref : Ref) (d : Domain) (e : Record) : RecordPlan :=
  ⟨keyOf x e.name e.type, e, ledgerRow x ref e d.id⟩

/-- The rows of a domain under keys it no longer wants. -/
def unwanted (d : Domain) (want : List Record) : List Row :=
  owned.filter fun o ↦ o.domain = some d.id && !want.any fun e ↦
    keyOf x e.name e.type = keyOf x o.name o.type

/-- The loop body over the domains. -/
def domainPlan (ref : Ref) (targets : Nat → Target) (d : Domain) : DomainPlan :=
  let t := targets d.serverID
  match t.ip with
  | none => ⟨none, [], [], []⟩
  | some ip =>
    if t.port = 0 then ⟨none, [], [], []⟩
    else
      let want := expectedRecords x d.label ref.zone ip t.port
      match want.findSome? (conflictAt x existing owned d.fqdn) with
      | some conflict => ⟨some conflict, [], [], []⟩
      | none =>
        ⟨none, want.map (planOf x ref d),
          (unwanted x owned d want).flatMap fun o ↦
            ownedAt x (recordsAt x existing (keyOf x o.name o.type)) o,
          (unwanted x owned d want).map Row.id⟩

/-- The rows without a domain under keys that no domain holds or claims. -/
def orphans (plans : List RecordPlan) : List Row :=
  owned.filter fun o ↦ o.domain = none && !plans.any (fun p ↦ p.k = keyOf x o.name o.type) &&
    !owned.any fun o' ↦ o'.domain.isSome && keyOf x o'.name o'.type = keyOf x o.name o.type

/-- What is to be done for a zone. -/
structure ZonePlan where
  blocked : List (Nat × DomainStatus)
  plans : List RecordPlan
  setPlans : List RecordPlan
  toDelete : List Record
  dropAfter : List Nat

def zonePlan (ref : Ref) (domains : List Domain) (targets : Nat → Target) : ZonePlan :=
  let dps := domains.map fun d ↦ (d, domainPlan x existing owned ref targets d)
  let plans := dps.flatMap fun dp ↦ dp.2.plans
  let orphans := orphans x owned plans
  { blocked := dps.filterMap fun dp ↦ dp.2.problem.map fun c ↦ (dp.1.id, ⟨.yellow, [c]⟩)
    plans := plans
    setPlans := plans.filter fun p ↦ !sameRecord x (recordsAt x existing p.k) p.want
    toDelete := (dps.flatMap fun dp ↦ dp.2.toDelete) ++ orphans.flatMap fun o ↦
      ownedAt x (recordsAt x existing (keyOf x o.name o.type)) o
    dropAfter := (dps.flatMap fun dp ↦ dp.2.dropAfter) ++ orphans.map Row.id }

end Planning

/-! ## The world -/

/-- How a call of `SetRecords` turns out: of a call that fails, any part may have been applied.
`respell` is how the provider stores what it is sent. -/
structure SetReply where
  ok : Bool
  applies : Record → Bool
  keeps : Record → Bool
  respell : Record → Record

/-- How a call of `DeleteRecords` turns out. -/
structure DeleteReply where
  ok : Bool
  spares : Record → Bool

/-- How the calls for one zone turn out. -/
structure Replies where
  /-- The account is read, its credentials decrypted and its provider made. -/
  account : Option Bool
  get : Bool
  set : SetReply
  reread : Bool
  delete : DeleteReply
  /-- The calls of the store, by their number. -/
  store : Nat → Outcome

/-- A record that Core asked a provider to replace or delete, and the ledger when the zone was
read. -/
structure Touch where
  ref : Ref
  record : Record
  rows : List Row

/-- A zone is left alone until the deadline. -/
structure Backoff where
  deadline : Nat
  delay : Nat
deriving DecidableEq

/-- The zones, the ledger and the backoffs of the zones. -/
structure World where
  /-- The zones at the providers.  Two accounts may have the same zone. -/
  zones : Nat → List Record
  ledger : List Row
  nextID : Nat
  backoff : Ref → Option Backoff
  calls : Nat
  wrote : List (Ref × Record)
  touched : List Touch

/-- The same record in the ledger moves to the new domain instead of being duplicated. -/
def insertRow (row : Row) (nextID : Nat) (ledger : List Row) : List Row :=
  if ledger.any fun o ↦ o.toEntry = row.toEntry then
    ledger.map fun o ↦ if o.toEntry = row.toEntry then { o with domain := row.domain } else o
  else ledger ++ [{ row with id := nextID }]

namespace World

/-- `AddDNSOwnedRecord`, and whether it is known to have succeeded. -/
def addOwned (replies : Replies) (w : World) (row : Row) : World × Bool :=
  let reply := replies.store w.calls
  ({ w with
      ledger := if reply.applied then insertRow row w.nextID w.ledger else w.ledger
      nextID := w.nextID + 1
      calls := w.calls + 1 },
    reply = .ok)

/-- `DeleteDNSOwnedRecord`. -/
def dropRow (replies : Replies) (w : World) (id : Nat) : World :=
  { w with
    ledger := if (replies.store w.calls).applied then w.ledger.filter fun o ↦ o.id ≠ id
      else w.ledger
    calls := w.calls + 1 }

def dropRows (replies : Replies) (w : World) (ids : List Nat) : World :=
  ids.foldl (dropRow replies) w

/-- Make the ledger at one name what the provider now holds there. -/
def settleKey (replies : Replies) (w : World) (row : Row) (rows : List Row) : World :=
  let same := rows.filter fun o ↦ o.value = row.value ∧ o.port = row.port
  let stale := (rows.filter fun o ↦ ¬ (o.value = row.value ∧ o.port = row.port)).map Row.id
  if same.getLast?.any fun o ↦ o.domain.isSome && o.domain = row.domain then
    w.dropRows replies stale
  else
    match w.addOwned replies row with
    -- The old rows stay: they are the only proof left.
    | (w, false) => w
    | (w, true) => w.dropRows replies stale

def dnsBackoffFirst : Nat := 60

def dnsBackoffMax : Nat := 30 * 60

/-- Back the zone off: a minute, doubling, half an hour at most. -/
def fail (w : World) (ref : Ref) (now : Nat) : World :=
  let delay := min (max (2 * ((w.backoff ref).map Backoff.delay).getD 0) dnsBackoffFirst) dnsBackoffMax
  { w with backoff := fun r ↦ if r = ref then some ⟨now + delay, delay⟩ else w.backoff r }

def clearBackoff (w : World) (ref : Ref) : World :=
  { w with backoff := fun r ↦ if r = ref then none else w.backoff r }

end World

section Pass

variable (x : Texts) (site : Ref → Nat)

/-- How the provider stores a record: perhaps in another spelling. -/
def SetReply.stored (reply : SetReply) (rec : Record) : Record :=
  let r := reply.respell rec
  if r.type = rec.type ∧ providerKey x r = providerKey x rec ∧
      sameValue x rec.type r.value r.port rec.value rec.port then r
  else rec

/-- What a call of `SetRecords` writes. -/
def SetReply.written (reply : SetReply) (recs : List Record) : List Record :=
  if reply.ok then recs else recs.filter reply.applies

/-- The record is replaced by a write. -/
def replacedBy (recs : List Record) (r : Record) : Bool :=
  recs.any fun s ↦ providerKey x s = providerKey x r

/-- The record is removed by its value. -/
def removedBy (recs : List Record) (r : Record) : Bool :=
  recs.any fun d ↦ providerKey x d = providerKey x r &&
    sameValue x r.type d.value d.port r.value r.port

/-- `SetRecords`. -/
def World.setRecords (w : World) (ref : Ref) (rows : List Row) (recs : List Record)
    (reply : SetReply) : World :=
  let zone := w.zones (site ref)
  let kept := zone.filter fun r ↦ !replacedBy x recs r || (!reply.ok && reply.keeps r)
  let zone' := kept ++ (reply.written recs).map (reply.stored x)
  { w with
    zones := fun n ↦ if n = site ref then zone' else w.zones n
    wrote := w.wrote ++ (reply.written recs).map fun r ↦ (ref, r)
    touched := w.touched ++ (zone.filter (replacedBy x recs)).map fun r ↦ ⟨ref, r, rows⟩ }

/-- `DeleteRecords`. -/
def World.deleteRecords (w : World) (ref : Ref) (rows : List Row) (recs : List Record)
    (reply : DeleteReply) : World :=
  let zone := w.zones (site ref)
  { w with
    zones := fun n ↦
      if n = site ref then zone.filter fun r ↦ !removedBy x recs r || reply.spares r else w.zones n
    touched := w.touched ++ (zone.filter (removedBy x recs)).map fun r ↦ ⟨ref, r, rows⟩ }

/-- The call is made if there is anything to delete. -/
def World.deleteAny (w : World) (ref : Ref) (rows : List Row) (recs : List Record)
    (reply : DeleteReply) : World :=
  if recs = [] then w else w.deleteRecords x site ref rows recs reply

/-- The name now holds the value that was sent, and nothing beside it but Core's own values. -/
def foundClean (now : List Record) (owned : List Row) (p : RecordPlan) : Bool :=
  let here := recordsAt x now p.k
  let same (rec : Record) := sameValue x p.want.type rec.value rec.port p.want.value p.want.port
  here.any same && here.all fun rec ↦ same rec || ownedByAny x (rowsAt x owned p.k) rec

/-- After a failed write. -/
def ledgerPartialWrite (replies : Replies) (w : World) (ref : Ref) (owned : List Row)
    (plans : List RecordPlan) : World :=
  if replies.reread then
    plans.foldl (fun w' p ↦
      if foundClean x (w.zones (site ref)) owned p then (w'.addOwned replies p.row).1 else w') w
  else w

/-- The ledger is settled and what is no longer needed is deleted. -/
def finishZone (replies : Replies) (w : World) (ref : Ref) (now : Nat) (rows owned : List Row)
    (zp : ZonePlan) : World :=
  let w := zp.plans.foldl (fun w p ↦ w.settleKey replies p.row (rowsAt x owned p.k)) w
  let w := w.deleteAny x site ref rows zp.toDelete replies.delete
  if zp.toDelete ≠ [] ∧ replies.delete.ok = false then w.fail ref now
  else (w.dropRows replies zp.dropAfter).clearBackoff ref

/-- The zone has been read. -/
def writeZone (replies : Replies) (w : World) (ref : Ref) (now : Nat) (owned : List Row)
    (zp : ZonePlan) : World :=
  let rows := w.ledger
  let toSet := zp.setPlans.map fun p ↦ toProvider p.want
  if toSet = [] then finishZone x site replies w ref now rows owned zp
  else
    let w := w.setRecords x site ref rows toSet replies.set
    if replies.set.ok then finishZone x site replies w ref now rows owned zp
    else (ledgerPartialWrite x site replies w ref owned zp.setPlans).fail ref now

/-- One zone is brought in line. -/
def syncZone (w : World) (ref : Ref) (domains : List Domain) (owned : List Row)
    (targets : Nat → Target) (now : Nat) (replies : Replies) : World × List (Nat × DomainStatus) :=
  if (w.backoff ref).any fun b ↦ now < b.deadline then (w, [])
  else
    match replies.account with
    | none => (w, [])
    | some false => (w.fail ref now, [])
    | some true =>
      if replies.get then
        let zp := zonePlan x (w.zones (site ref)) owned ref domains targets
        (writeZone x site replies w ref now owned zp, zp.blocked)
      else (w.fail ref now, [])

/-- What a pass goes by. -/
structure Pass where
  /-- The managed domains with a label, and the zone of each. -/
  domains : List (Ref × Domain)
  targets : Nat → Target
  now : Nat
  listed : Bool
  replies : Ref → Replies

def refLE (r s : Ref) : Bool :=
  if r.account ≠ s.account then decide (r.account < s.account) else decide (r.zone.text ≤ s.zone.text)

/-- The zones that have domains or rows without a domain. -/
def Pass.refs (p : Pass) (owned : List Row) : List Ref :=
  (p.domains.map Prod.fst ++ (owned.filter fun o ↦ o.domain = none).map fun o ↦ o.ref).dedup
    |>.insertionSort fun r s ↦ refLE r s = true

/-- One pass over all zones. -/
def runOnce (w : World) (p : Pass) : World × List (Nat × DomainStatus) :=
  if p.listed then
    let owned := w.ledger
    (p.refs owned).foldl (fun acc ref ↦
      let (w', blocked) := syncZone x site acc.1 ref
        ((p.domains.filter fun d ↦ d.1 = ref).map Prod.snd) (owned.filter fun o ↦ o.ref = ref)
        p.targets p.now (p.replies ref)
      (w', acc.2 ++ blocked)) (w, [])
  else (w, [])

inductive Event
  | pass (p : Pass)
  | edit (n : Nat) (records : List Record)
  | removeDomain (id : Nat)
  | removeAccount (account : Nat)

def step (w : World) : Event → Option World
  | .pass p => some (runOnce x site w p).1
  | .edit n records =>
    some { w with zones := fun m ↦ if m = n then records else w.zones m }
  | .removeDomain id =>
    some { w with ledger := w.ledger.map fun o ↦
      if o.domain = some id then { o with domain := none } else o }
  | .removeAccount account =>
    some { w with ledger := w.ledger.filter fun o ↦ o.ref.account ≠ account }

end Pass

end Dylaris.Domains
