import Dylaris.Library.Assign
import Dylaris.Library.Machine
import Dylaris.Library.Tally

/-!
# The traffic aggregator

`core/services/traffic_aggregator.go`: the edges and the relays count every server's bytes in Redis hashes,
and a leader turns what is new in them into rows of usage, once a minute.  For every counter it remembers in
a marker what it has billed; the markers move only after the rows have been written.

The model is a machine.  A tick is not atomic: a step is one key that a scan has returned, with the hash and
the markers read for it, or the write of one tenant's rows together with the markers that it moves.  Between
the steps the counters grow.  `bills`, `met` and `read` are for the results only: what has been billed for
each counter, from where, and what was read of it when it was last billed.

* Redis may return a key more than once in one scan; the model allows it.
* A write of rows may be applied although it reports an error.
* The markers outlive the counters (30 days against 7, either renewed by what moves it), so a marker does not
  go before its counter.
* A stored number is a whole one; bytes do not reach the limits of an `int64`.
-/

set_option autoImplicit false

namespace Dylaris.Traffic

open Function

/-! ## Keys and values -/

/-- `TrafficKindEdge` and `TrafficKindRelay`. -/
inductive Kind
  | edge
  | relay
deriving DecidableEq, Repr

/-- The parts of an edge counter that are also kept on their own. -/
inductive Subset
  | voice
  | bedrock
deriving DecidableEq, Repr

/-- A subject, cut behind the `owner:` that marks a route-only address. -/
structure Subject where
  owner : Bool
  name : String
deriving DecidableEq, Repr

/-- A counter: its family and its subject. -/
structure Counter where
  kind : Kind
  subject : Subject
deriving DecidableEq, Repr

/-- The keys of the markers. -/
inductive Marker
  | seen (c : Counter)
  | region (c : Counter) (region : String)
  | subset (s : Subset) (subject : Subject) (region : String)
  | init (c : Counter)
deriving DecidableEq, Repr

/-- A stored value: a number, or a text that is not one. -/
inductive Value
  | count (n : Int)
  | text (raw : String)
deriving DecidableEq, Repr

/-- The name of a field, cut at its first colon. -/
structure Field where
  dir : String
  region : Option String
deriving DecidableEq, Repr

/-- A counter's hash. -/
abbrev Hash := List (Field × Value)

/-- `HINCRBY`, which refuses a value that is not a number. -/
def hincrby : Hash → Field → Nat → Hash
  | [], f, n => [(f, .count n)]
  | (g, v) :: h, f, n =>
    if g = f then
      match v with
      | .count m => (g, .count (m + n)) :: h
      | .text raw => (g, .text raw) :: h
    else (g, v) :: hincrby h f n

/-! ## What a hash says -/

def regionUnknown : String := "unknown"

/-- The region a field belongs to. -/
def Field.regionOf (f : Field) : String :=
  match f.region with
  | none => regionUnknown
  | some region => if region = "" then regionUnknown else region

/-- What a field adds to the sum of a hash. -/
def addBytes (total : Int) : Field × Value → Int
  | (_, .count n) => total + n
  | (_, .text _) => total

/-- `sumByteFields`. -/
def sumByteFields (fields : Hash) : Int := fields.foldl addBytes 0

/-- What a field adds to the sums by region. -/
def addRegion (out : Tally String) : Field × Value → Tally String
  | (f, .count n) => out.add f.regionOf n
  | (_, .text _) => out

/-- `regionBytes`. -/
def regionBytes (fields : Hash) : Tally String := fields.foldl addRegion []

/-- `dirBytesFor` followed by `subsetRegionBytes`: the two directions of a subset, added up by region. -/
def subsetRegionBytes (fields : Hash) (rxName txName : String) : Tally String :=
  (fields.filter fun (f, _) ↦ f.region.isSome ∧ (f.dir = rxName ∨ f.dir = txName)).foldl addRegion []

def voiceRegionBytes (fields : Hash) : Tally String := subsetRegionBytes fields "vrx" "vtx"

def bedrockRegionBytes (fields : Hash) : Tally String := subsetRegionBytes fields "brx" "btx"

/-- `trafficProductOf`. -/
def trafficProductOf (s : Subject) : String :=
  if s.owner then "route" else if s.name ≠ "" then "byon" else ""

/-! ## Markers -/

/-- How a `GET` of a marker turns out. -/
inductive Read
  | failed
  | missing
  | value (v : Value)
deriving DecidableEq, Repr

/-- `Get(…).Int64()`, as the code tells its results apart: an error, no marker, or a number. -/
def Read.int64 : Read → Option (Option Int)
  | .failed | .value (.text _) => none
  | .missing => some none
  | .value (.count n) => some (some n)

/-- The markers of Redis, and those whose `GET` fails. -/
structure Markers where
  get : Marker → Option Value
  unread : List Marker

def Markers.read (ms : Markers) (m : Marker) : Read :=
  if m ∈ ms.unread then .failed
  else match ms.get m with
    | none => .missing
    | some v => .value v

/-- The bytes since the marker, or all of them where the counter has been reset. -/
def newBytes (current last : Int) : Int :=
  if current - last < 0 then current else current - last

/-! ## One counter -/

/-- What a counter adds to its tenant's tick. -/
structure Part where
  counter : Counter
  /-- What the hash held. -/
  current : Int
  delta : Int
  /-- The bytes by region, of all traffic and of the subsets. -/
  regions : Tally String
  voice : Tally String
  bedrock : Tally String
  /-- The markers to move once the rows are written. -/
  seen : List (Marker × Int)
deriving DecidableEq, Repr

/-- What parts bill for a counter. -/
def billedIn (c : Counter) (parts : List Part) : Int :=
  Tally.total ((parts.filter fun p ↦ p.counter = c).map fun p ↦ (c, p.delta))

/-- The subject has been through the initialisation of its regions. -/
def subjectKnown (ms : Markers) (c : Counter) : Bool :=
  match ms.read (.init c) with
  | .value v => v ≠ .text ""
  | _ => false

/-- What `collectRegions` bills for a region, where it can read the region's marker.  The first time, the
history of a subject that was counted before is left out. -/
def regionDelta (ms : Markers) (c : Counter) (hadTotalSeen : Bool) (region : String) (current : Int) :
    Option Int :=
  (ms.read (.region c region)).int64.map fun last ↦
    if last = none ∧ !subjectKnown ms c ∧ hadTotalSeen then 0
    else max 0 (newBytes current (last.getD 0))

/-- `collectSubset`: what is added by region, and the markers to move. -/
def collectSubset (ms : Markers) (s : Subset) (subject : Subject) (totals billed : Tally String) :
    Tally String × List (Marker × Int) :=
  let read := totals.filterMap fun (region, current) ↦
    (billed.find? fun b ↦ b.1 = region).bind fun (_, cap) ↦
      (ms.read (.subset s subject region)).int64.map fun last ↦
        (region, current, min (newBytes current (last.getD 0)) cap)
  ((read.map fun (region, _, delta) ↦ (region, delta)).filter fun p ↦ 0 < p.2,
    read.map fun (region, current, _) ↦ (.subset s subject region, current))

/-- Only an edge counter has subsets. -/
def collectEdgeSubset (ms : Markers) (s : Subset) (c : Counter) (totals billed : Tally String) :
    Tally String × List (Marker × Int) :=
  match c.kind with
  | .edge => collectSubset ms s c.subject totals billed
  | .relay => ([], [])

/-- What `collectRegions` bills by region, of the regions whose marker it can read. -/
def regionsBilled (ms : Markers) (c : Counter) (fields : Hash) (hadTotalSeen : Bool) : Tally String :=
  (regionBytes fields).filterMap fun (region, n) ↦ (regionDelta ms c hadTotalSeen region n).map (region, ·)

/-- The markers of these regions. -/
def regionsSeen (ms : Markers) (c : Counter) (fields : Hash) (hadTotalSeen : Bool) : List (Marker × Int) :=
  (regionBytes fields).filterMap fun (region, n) ↦
    (regionDelta ms c hadTotalSeen region n).map fun _ ↦ (.region c region, n)

/-- `collectRegions`, for a counter that bills `delta`. -/
def collectRegions (ms : Markers) (c : Counter) (fields : Hash) (hadTotalSeen : Bool)
    (current delta : Int) : Part :=
  let billed := regionsBilled ms c fields hadTotalSeen
  let voice := collectEdgeSubset ms .voice c (voiceRegionBytes fields) billed
  -- Bedrock has the room that voice has left.
  let room := billed.map fun (region, d) ↦ (region, max 0 (d - voice.1.get region))
  let bedrock := collectEdgeSubset ms .bedrock c (bedrockRegionBytes fields) room
  { counter := c
    current := current
    delta := delta
    regions := billed.filter fun p ↦ 0 < p.2
    voice := voice.1
    bedrock := bedrock.1
    seen := (.init c, 1) :: (regionsSeen ms c fields hadTotalSeen ++ voice.2 ++ bedrock.2 ++
      [(.seen c, current)]) }

/-- What `collect` does with a key that a scan has returned, and whose subject has a tenant. -/
inductive Collected
  /-- Its marker cannot be read, or nothing is new. -/
  | nothing
  /-- Its marker is not a number, and starts over from here. -/
  | restart (current : Int)
  | part (p : Part)
deriving DecidableEq, Repr

/-- The body of `collect`'s loop. -/
def collect (ms : Markers) (c : Counter) (fields : Hash) : Collected :=
  let current := sumByteFields fields
  let count (last : Int) : Collected :=
    let delta := newBytes current last
    if delta ≤ 0 then .nothing
    else .part (collectRegions ms c fields (0 < last) current delta)
  match ms.read (.seen c) with
  | .failed => .nothing
  | .missing => count 0
  | .value (.count last) => count last
  | .value (.text _) => .restart current

/-! ## A tenant's tick -/

/-- `breakdownCell`. -/
structure Cell where
  region : String
  kind : Kind
  product : String
deriving DecidableEq, Repr

/-- `trafficAcc`, and the markers that the tenant's write moves. -/
structure Acc where
  edge : Int
  relay : Int
  byRegion : Tally Cell
  voiceByRegion : Tally Cell
  bedrockByRegion : Tally Cell
  seen : List (Marker × Int)
  /-- What the sums are made of. -/
  parts : List Part
deriving DecidableEq, Repr

def Acc.empty : Acc := ⟨0, 0, [], [], [], [], []⟩

/-- The cells of a counter get its bytes by region. -/
def addCells (t : Tally Cell) (c : Counter) (regions : Tally String) : Tally Cell :=
  regions.foldl (fun t (region, n) ↦ t.add ⟨region, c.kind, trafficProductOf c.subject⟩ n) t

/-- A counter adds its part. -/
def Acc.add (a : Acc) (p : Part) : Acc where
  edge := if p.counter.kind = .edge then a.edge + p.delta else a.edge
  relay := if p.counter.kind = .edge then a.relay else a.relay + p.delta
  byRegion := addCells a.byRegion p.counter p.regions
  voiceByRegion := addCells a.voiceByRegion p.counter p.voice
  bedrockByRegion := addCells a.bedrockByRegion p.counter p.bedrock
  seen := a.seen ++ p.seen
  parts := a.parts ++ [p]

/-- `TrafficTickCell`. -/
structure TickCell where
  cell : Cell
  bytes : Int
  voice : Int
  bedrock : Int
deriving DecidableEq, Repr

/-- The cells of a tick: those with a total, then those of a subset only. -/
def Acc.cells (a : Acc) : List TickCell :=
  (a.byRegion.map fun (cell, bytes) ↦
    ⟨cell, bytes, a.voiceByRegion.get cell, a.bedrockByRegion.get cell⟩) ++
  (((a.voiceByRegion ++ a.bedrockByRegion).map Prod.fst).dedup.filter fun cell ↦
      cell ∉ a.byRegion.map Prod.fst).map fun cell ↦
    ⟨cell, 0, a.voiceByRegion.get cell, a.bedrockByRegion.get cell⟩

/-- The rows of a tenant. -/
structure Usage where
  edge : Int
  relay : Int
  bytes : Tally Cell
  voice : Tally Cell
  bedrock : Tally Cell
deriving DecidableEq, Repr

/-- `AddTrafficTick`, one transaction. -/
def Usage.addTrafficTick (u : Usage) (edge relay : Int) (cells : List TickCell) : Usage :=
  cells.foldl (fun (u : Usage) (c : TickCell) ↦ { u with
      bytes := if 0 < c.bytes then u.bytes.add c.cell c.bytes else u.bytes
      voice := if 0 < c.voice then u.voice.add c.cell c.voice else u.voice
      bedrock := if 0 < c.bedrock then u.bedrock.add c.cell c.bedrock else u.bedrock })
    { u with edge := u.edge + edge, relay := u.relay + relay }

/-! ## The machine -/

/-- A running `runOnce`. -/
structure Tick where
  /-- The tenant of every subject. -/
  owners : List (Subject × String)
  /-- The scans have not come to their end. -/
  collecting : Bool
  /-- The keys that the scans have returned. -/
  scanned : List Counter
  /-- The tenants whose rows are still to be written. -/
  perTenant : List (String × Acc)
deriving DecidableEq, Repr

/-- A tenant's account of the running tick. -/
def Tick.acc (t : Tick) (tenant : String) : Acc :=
  ((t.perTenant.find? fun e ↦ e.1 = tenant).map Prod.snd).getD .empty

/-- A counter adds its part to its tenant's account. -/
def Tick.add (t : Tick) (tenant : String) (p : Part) : Tick :=
  { t with perTenant := (tenant, (t.acc tenant).add p) :: t.perTenant.filter fun e ↦ e.1 ≠ tenant }

/-- Counters, markers, rows, and the tick under way. -/
structure World where
  counters : Counter → Hash
  markers : Marker → Option Value
  tick : Option Tick
  usage : String → Usage
  /-- The parts of the ticks that have been written, with their tenants. -/
  bills : List (String × Part)
  /-- Where the marker of a counter was when the aggregator first met it. -/
  met : Counter → Option Int
  /-- What the counter held when a tick that billed it was last written without an error. -/
  read : Counter → Option Int

inductive Label
  /-- An edge or a relay adds to a field of a counter. -/
  | hincrby (c : Counter) (f : Field) (n : Nat)
  /-- A counter expires. -/
  | expire (c : Counter)
  /-- A tick begins, with the tenants of all subjects. -/
  | begin (owners : List (Subject × String))
  /-- A scan returns a key; the `GET` of the markers listed fails.  A key whose hash cannot be read is passed
  over. -/
  | scan (c : Counter) (unread : List Marker)
  /-- The scans are over. -/
  | collected
  /-- The rows of a tenant are written, and the markers moved where that reports no error. -/
  | write (tenant : String) (o : Machine.Outcome)
  /-- The tick is over, or Core has stopped. -/
  | finish
deriving DecidableEq, Repr

namespace World

/-- Nothing has been counted. -/
def start : World where
  counters _ := []
  markers _ := none
  tick := none
  usage _ := ⟨0, 0, [], [], []⟩
  bills := []
  met _ := none
  read _ := none

variable (w : World)

/-- The total of a counter that has been billed. -/
def billed (c : Counter) : Int := billedIn c (w.bills.map Prod.snd)

/-- Where the marker of a counter is, for the aggregator that meets it. -/
def baseline (c : Counter) : Int :=
  match w.markers (.seen c) with
  | none => 0
  | some (.count n) => n
  | some (.text _) => sumByteFields (w.counters c)

/-- The aggregator has met a counter. -/
def meet (c : Counter) : World :=
  { w with met := update w.met c (some ((w.met c).getD (w.baseline c))) }

/-- A scan returns a key. -/
def scan (t : Tick) (c : Counter) (unread : List Marker) : World :=
  let t := { t with scanned := c :: t.scanned }
  match t.owners.find? fun o ↦ o.1 = c.subject with
  | none => { w with tick := some t }
  | some (_, tenant) =>
    let w := w.meet c
    match collect ⟨w.markers, unread⟩ c (w.counters c) with
    | .nothing => { w with tick := some t }
    | .restart current => { w with
        tick := some t
        markers := update w.markers (.seen c) (some (.count current)) }
    | .part p => { w with tick := some (t.add tenant p) }

/-- The rows of a tenant are written. -/
def write (t : Tick) (tenant : String) (acc : Acc) (o : Machine.Outcome) : World :=
  let w := { w with
    tick := some { t with perTenant := t.perTenant.filter fun e ↦ e.1 ≠ tenant } }
  let w := if o.applied then { w with
      usage := update w.usage tenant ((w.usage tenant).addTrafficTick acc.edge acc.relay acc.cells)
      bills := w.bills ++ acc.parts.map (tenant, ·) }
    else w
  if o = .ok then { w with
      markers := assign w.markers (acc.seen.map fun (m, n) ↦ (m, some (.count n)))
      read := assign w.read (acc.parts.map fun p ↦ (p.counter, some p.current)) }
  else w

def step : Label → Option World
  | .hincrby c f n => some { w with counters := update w.counters c (Traffic.hincrby (w.counters c) f n) }
  | .expire c => some { w with counters := update w.counters c [] }
  | .begin owners => if w.tick = none then some { w with tick := some ⟨owners, true, [], []⟩ } else none
  | .scan c unread => w.tick.bind fun t ↦ if t.collecting then some (w.scan t c unread) else none
  | .collected => w.tick.bind fun t ↦
    if t.collecting then some { w with tick := some { t with collecting := false } } else none
  | .write tenant o => w.tick.bind fun t ↦
    if t.collecting then none
    else (t.perTenant.find? fun e ↦ e.1 = tenant).map fun (_, acc) ↦ w.write t tenant acc o
  | .finish => w.tick.map fun _ ↦ { w with tick := none }

end World

end Dylaris.Traffic
