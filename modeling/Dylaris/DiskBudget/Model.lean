import Dylaris.Library.Machine
import Dylaris.Library.Sums

/-!
# Write budgets on one filesystem

Copies, extractions and installs on a node (`node/rootfs.go`) each write under a budget.  A budget
measures the free space once, when it is made, and from then on goes by two counters that all budgets
of the node share: `inflightWrites`, what running budgets have charged, and `landedWrites`, what
released ones had.  Every read of the data to be written charges its bytes first and then looks at
the counters, and hands back only the bytes that fit.

The counters are atomic and nothing else is, so every access to one of them is a step of its own:

* `nodeWriteBudget` reads the in-flight counter (`create`), then the landed one (`loadLanded`), and
  then measures the disk (`measure`);
* `spend` adds to the in-flight counter (`charge`) and then reads the landed one and decides
  (`judge`); inside `writeBudgetReader.Read` what does not fit is given back (`refund`) before the
  bytes are returned (`hand`);
* `release` takes the budget out of the in-flight counter (`release`) and then adds it to the landed
  one (`land`).

`unspend` is also a step by itself, as the uploads use it.  The disk limit of a server (`boundServer`)
enters as the number it gives when a charge is judged, any or none.

The state has four things that the code does not: what the readers of all budgets have handed out, and
for each budget what its own readers have, what had been handed out by all when it had read the
counters, and what had been handed out or charged for reads by all when it last charged.
-/

set_option autoImplicit false

namespace Dylaris.DiskBudget

open List Option

/-- Where a budget is. -/
inductive Phase
  /-- It has read the in-flight counter. -/
  | starting
  | measuring
  | idle
  /-- `spend` has added `n`, and the in-flight counter then stood at `g`; `reading` says that the
  charge is for a read. -/
  | charged (n g : Int) (reading : Bool)
  /-- Of a read, `rest` is to be given back and `fit` to be handed out. -/
  | refunding (rest fit : Int)
  /-- A read returns this many bytes. -/
  | handing (k : Int)
  /-- `release` has taken it out of the in-flight counter. -/
  | landing
  | released
deriving DecidableEq

/-- A `writeBudget`, and what the model keeps beside it. -/
structure Budget where
  phase : Phase
  nodeCap : Int
  inflight0 : Int
  landed0 : Int
  used : Int
  /-- What `restoreDiskBudget` said when it was made. -/
  measured : Int
  own : Int
  /-- What all readers had handed out when it had read the counters. -/
  before : Int
  /-- What all readers had handed out, and what was charged for reads under way, when it last
  charged. -/
  seen : Int
deriving DecidableEq

/-- The bytes that are charged for a read that has not returned. -/
def Budget.pending (b : Budget) : Int :=
  match b.phase with
  | .charged n _ true => n
  | .refunding rest fit => rest + fit
  | .handing k => k
  | _ => 0

/-- The counters of the node, and its budgets. -/
structure State where
  inflight : Int
  landed : Int
  handed : Int
  budgets : List Budget
deriving DecidableEq

/-- No budget has been made. -/
def init : State := ⟨0, 0, 0, []⟩

/-- What a budget does next. -/
inductive Op
  | loadLanded
  | measure (available : Int)
  | charge (n : Nat) (reading : Bool)
  /-- `server` is what the disk limit of the server leaves, where there is one. -/
  | judge (server : Option Int)
  | refund
  | hand
  | unspend (n : Nat)
  | release
  | land
deriving DecidableEq

inductive Label
  | create
  | op (i : Nat) (o : Op)
deriving DecidableEq

/-- A budget that has read the in-flight counter. -/
def started (inflight : Int) : Budget :=
  { phase := .starting, nodeCap := 0, inflight0 := inflight, landed0 := 0, used := 0, measured := 0,
    own := 0, before := 0, seen := 0 }

/-- `left` after a charge: what the node leaves and, where it is less, what the server does. -/
def Budget.left (b : Budget) (g landed : Int) (server : Option Int) : Int :=
  let node := b.nodeCap - (g - b.inflight0) - (landed - b.landed0)
  match server with
  | some l => if l < node then l else node
  | none => node

/-- How many of `n` bytes a read hands out. -/
def fit (n left : Int) : Int := min (max (n + left) 0) n

def State.put (s : State) (i : Nat) (b : Budget) : State := { s with budgets := s.budgets.set i b }

/-- The bytes handed out, and those charged for reads that have not returned. -/
def State.given (s : State) : Int := s.handed + sumOf Budget.pending s.budgets

/-- One step of the budget `b`, which stands at `i`. -/
def act (s : State) (i : Nat) (b : Budget) : Op → Option State
  | .loadLanded =>
    if b.phase = .starting then
      some (s.put i { b with phase := .measuring, landed0 := s.landed, before := s.handed })
    else none
  | .measure available =>
    if b.phase = .measuring then
      some (s.put i
        { b with phase := .idle, nodeCap := available - b.inflight0, measured := available })
    else none
  | .charge n reading =>
    if b.phase = .idle then
      some { s.put i { b with phase := .charged n (s.inflight + n) reading, used := b.used + n,
                              seen := s.given }
        with inflight := s.inflight + n }
    else none
  | .judge server =>
    match b.phase with
    | .charged _ _ false => some (s.put i { b with phase := .idle })
    | .charged n g true =>
      let left := b.left g s.landed server
      if 0 ≤ left then some (s.put i { b with phase := .handing n })
      else some (s.put i { b with phase := .refunding (n - fit n left) (fit n left) })
    | _ => none
  | .refund =>
    match b.phase with
    | .refunding rest k =>
      some { s.put i { b with phase := .handing k, used := b.used - rest }
        with inflight := s.inflight - rest }
    | _ => none
  | .hand =>
    match b.phase with
    | .handing k =>
      some { s.put i { b with phase := .idle, own := b.own + k } with handed := s.handed + k }
    | _ => none
  | .unspend n =>
    if b.phase = .idle ∧ b.own + n ≤ b.used then
      some { s.put i { b with used := b.used - n } with inflight := s.inflight - n }
    else none
  | .release =>
    if b.phase = .idle then
      some { s.put i { b with phase := .landing } with inflight := s.inflight - b.used }
    else none
  | .land =>
    if b.phase = .landing then
      some { s.put i { b with phase := .released, used := 0 } with landed := s.landed + b.used }
    else none

def step (s : State) : Label → Option State
  | .create => some { s with budgets := s.budgets ++ [started s.inflight] }
  | .op i o => s.budgets[i]?.bind fun b ↦ act s i b o

/-! ## What one step does -/

/-- The steps of a budget, with what each does to the budget and to the three counters. -/
inductive Acts (s : State) (b : Budget) : Op → State → Budget → Prop
  | loadLanded (h : b.phase = .starting) :
      Acts s b .loadLanded s { b with phase := .measuring, landed0 := s.landed, before := s.handed }
  | measure (h : b.phase = .measuring) (available : Int) :
      Acts s b (.measure available) s
        { b with phase := .idle, nodeCap := available - b.inflight0, measured := available }
  | charge (h : b.phase = .idle) (n : Nat) (reading : Bool) :
      Acts s b (.charge n reading) { s with inflight := s.inflight + n }
        { b with phase := .charged n (s.inflight + n) reading, used := b.used + n, seen := s.given }
  | keep {n g : Int} (h : b.phase = .charged n g false) (server : Option Int) :
      Acts s b (.judge server) s { b with phase := .idle }
  | fits {n g : Int} (h : b.phase = .charged n g true) (server : Option Int)
      (hleft : 0 ≤ b.left g s.landed server) :
      Acts s b (.judge server) s { b with phase := .handing n }
  | refuse {n g : Int} (h : b.phase = .charged n g true) (server : Option Int)
      (hleft : ¬ 0 ≤ b.left g s.landed server) :
      Acts s b (.judge server) s
        { b with phase := .refunding (n - fit n (b.left g s.landed server))
                            (fit n (b.left g s.landed server)) }
  | refund {rest k : Int} (h : b.phase = .refunding rest k) :
      Acts s b .refund { s with inflight := s.inflight - rest }
        { b with phase := .handing k, used := b.used - rest }
  | hand {k : Int} (h : b.phase = .handing k) :
      Acts s b .hand { s with handed := s.handed + k } { b with phase := .idle, own := b.own + k }
  | unspend (h : b.phase = .idle) (n : Nat) (hn : b.own + n ≤ b.used) :
      Acts s b (.unspend n) { s with inflight := s.inflight - n } { b with used := b.used - n }
  | release (h : b.phase = .idle) :
      Acts s b .release { s with inflight := s.inflight - b.used } { b with phase := .landing }
  | land (h : b.phase = .landing) :
      Acts s b .land { s with landed := s.landed + b.used } { b with phase := .released, used := 0 }

theorem acts_of_act {s s' : State} {i : Nat} {b : Budget} {o : Op} (h : act s i b o = some s') :
    ∃ t b', Acts s b o t b' ∧ s' = t.put i b' := by
  cases o with rw [act] at h
  | unspend n =>
    obtain ⟨⟨hidle, hn⟩, ⟨⟩⟩ := Option.ite_none_right_eq_some.mp h
    exact ⟨_, _, .unspend hidle n hn, rfl⟩
  | judge server =>
    split at h
    · cases h
      exact ⟨_, _, by constructor <;> assumption, rfl⟩
    · dsimp only at h
      split at h <;> cases h <;> exact ⟨_, _, by constructor <;> assumption, rfl⟩
    · cases h
  | _ =>
    split at h <;> cases h
    exact ⟨_, _, by constructor <;> assumption, rfl⟩

/-- A step makes a budget, or moves one of those there are. -/
theorem acts_of_step {s s' : State} {a : Label} (h : step s a = some s') :
    a = .create ∧ s' = { s with budgets := s.budgets ++ [started s.inflight] } ∨
      ∃ i o b t b', a = .op i o ∧ s.budgets[i]? = some b ∧ Acts s b o t b' ∧ s' = t.put i b' := by
  cases a with
  | create => exact .inl ⟨rfl, (some_inj.mp h).symm⟩
  | op i o =>
    obtain ⟨b, hb, h⟩ := bind_eq_some_iff.mp h
    obtain ⟨t, b', hacts, hs⟩ := acts_of_act h
    exact .inr ⟨i, o, b, t, b', rfl, hb, hacts, hs⟩

/-- A budget's step changes no other budget. -/
theorem Acts.budgets {s t : State} {b b' : Budget} {o : Op} (h : Acts s b o t b') :
    t.budgets = s.budgets := by
  cases h <;> rfl

end Dylaris.DiskBudget
