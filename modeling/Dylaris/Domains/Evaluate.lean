import Dylaris.Library.Text
import Mathlib.Data.List.Sort

/-!
# What DNS answers for a server's domain

`core/services/server_domain_eval.go` judges a domain by the live DNS answers for its name, never by
the records Core believes it wrote: green is a name that leads players to the node and the port of
the server, yellow one that does not, grey one of which nothing is known.

`evaluateDomain` looks names up as it goes and stops early, so it is a program that keeps the list of the
lookups it made: `Traced`.  "No such name" and "no record of that type" are answers, every other error is a
failed lookup.

`Led` is the other side: the address and the port a Minecraft client may end up at, which is any
address of the target of any SRV record with the record's port, or any address of the name on the
default port when there is no SRV record.

`evaluateDomain_grey_of_failed` says that no failed lookup is guessed over.
`evaluateDomain_green` says when a name is green.  Three of its conditions are stricter than "every
address a client is led to is the node's": a name is never green without an IPv4 address of its own,
nor with an IPv6 one, and it has to point to the node even when SRV records lead players past it.

The IPv6 addresses of SRV targets are not looked up.  A target that has one sends IPv6 players there
and the name is green all the same, which is why `evaluateDomain_green` asks that there be none.

`strings.ToLower` and `netip.Addr.String` are parameters.
-/

set_option autoImplicit false

open Text

namespace Dylaris.Domains

open List Option

/-! ## Addresses, records and answers -/

/-- A `netip.Addr` that is valid; the zone of an IPv6 address is part of it. -/
inductive Addr
  | v4 (bits : BitVec 32)
  | v6 (bits : BitVec 128) (zone : Text)
deriving DecidableEq

/-- `netip.Addr.Unmap`: an IPv4 address wrapped in an IPv6 one is taken out. -/
def Addr.unmap : Addr → Addr
  | .v4 bits => .v4 bits
  | .v6 bits zone =>
    if bits >>> 32 = 0xffff#128 then .v4 (bits.truncate 32) else .v6 bits zone

/-- An SRV record. -/
structure SRV where
  target : Text
  port : UInt16
deriving DecidableEq

/-- The errors a lookup can come with: a definitive negative answer, and everything else. -/
inductive LookupError
  | notFound | other
deriving DecidableEq

/-- What a lookup returns. -/
structure Answer (α : Type) where
  records : List α
  err : Option LookupError
deriving DecidableEq

/-- `ServerDomainResolver`. -/
structure Resolver where
  lookupA : Text → Answer Addr
  lookupAAAA : Text → Answer Addr
  lookupSRV : Text → Answer SRV

/-- A timeout or a refusal says nothing about the zone; "no record" is an answer. -/
def lookupFailed : Option LookupError → Bool
  | none | some .notFound => false
  | some .other => true

/-- A lookup that can be made. -/
inductive Query
  | a (host : Text)
  | aaaa (host : Text)
  | srv (host : Text)
deriving DecidableEq

/-- The lookup fails. -/
def Resolver.fails (r : Resolver) : Query → Bool
  | .a host => lookupFailed (r.lookupA host).err
  | .aaaa host => lookupFailed (r.lookupAAAA host).err
  | .srv host => lookupFailed (r.lookupSRV host).err

/-! ## Programs that look names up -/

/-- A result with the lookups that were made for it. -/
structure Traced (α : Type) where
  value : α
  asked : List Query

namespace Traced

variable {α β : Type}

def pure (x : α) : Traced α := ⟨x, []⟩

/-- Make a lookup and go on with its answer. -/
def ask (q : Query) (answer : β) (k : β → Traced α) : Traced α :=
  ⟨(k answer).value, q :: (k answer).asked⟩

/-- Go on with the result of another program. -/
def bind (x : Traced β) (k : β → Traced α) : Traced α :=
  ⟨(k x.value).value, x.asked ++ (k x.value).asked⟩

@[simp] theorem pure_value (x : α) : (pure x).value = x := rfl

@[simp] theorem pure_asked (x : α) : (pure x).asked = [] := rfl

@[simp] theorem ask_value (q : Query) (answer : β) (k : β → Traced α) :
    (ask q answer k).value = (k answer).value := rfl

@[simp] theorem ask_asked (q : Query) (answer : β) (k : β → Traced α) :
    (ask q answer k).asked = q :: (k answer).asked := rfl

@[simp] theorem bind_value (x : Traced β) (k : β → Traced α) :
    (bind x k).value = (k x.value).value := rfl

@[simp] theorem bind_asked (x : Traced β) (k : β → Traced α) :
    (bind x k).asked = x.asked ++ (k x.value).asked := rfl

end Traced

/-! ## The evaluator -/

/-- The port a client uses when no SRV record says otherwise. -/
def defaultMinecraftPort : UInt16 := 25565

/-- A domain's state.  There is no red: a name that is wrong is yellow. -/
inductive DomainState
  | grey | yellow | green
deriving DecidableEq

structure DomainStatus where
  state : DomainState
  problems : List Text
deriving DecidableEq

/-- A port number in decimal. -/
def portText (port : UInt16) : Text := lit (toString port.toNat)

/-- `strings.TrimSuffix(name, ".")`. -/
def trimDot (name : Text) : Text := if name.getLast? = some 0x2E then name.dropLast else name

/-- The name the SRV records of a domain are under. -/
def srvName (fqdn : Text) : Text := lit "_minecraft._tcp." ++ fqdn

section Evaluator

variable (lower : Text → Text) (str : Addr → Text)

/-- The name as it is looked up. -/
def hostName (name : Text) : Text := trimDot (lower name)

/-- The answers that are not the node. -/
def wrongAddrs (nodeIP : Addr) (as : List Addr) : List Addr :=
  as.filter fun a ↦ a.unmap ≠ nodeIP.unmap

/-- The node is among the answers. -/
def hasNode (nodeIP : Addr) (as : List Addr) : Bool := as.any fun a ↦ a.unmap = nodeIP.unmap

/-- A list of addresses for a message. -/
def joined (as : List Addr) : Text := (lit ", ").intercalate (as.map str)

/-- A judged SRV record; an empty detail means that the record is good. -/
structure Rec where
  label : Text
  detail : Text
deriving DecidableEq

def srvLabel (s : SRV) : Text := hostName lower s.target ++ lit ":" ++ portText s.port

def alsoPointsTo (label : Text) : Text := lit "SRV also points to " ++ label

/-- What is wrong with a record of the right port, by the addresses of its target. -/
def targetDetail (nodeIP : Addr) (target : Text) (as : List Addr) : Text :=
  if hasNode nodeIP as = false then
    lit "SRV target " ++ target ++ lit " does not resolve to " ++ str nodeIP.unmap
  else if wrongAddrs nodeIP as ≠ [] then
    lit "SRV target " ++ target ++ lit " also points to " ++ joined str (wrongAddrs nodeIP as) ++
      lit ", should only be " ++ str nodeIP.unmap
  else []

/-- The loop over the sorted records: `none` once a lookup has failed. -/
def judgeRecords (r : Resolver) (port : UInt16) (nodeIP : Addr) :
    List SRV → Traced (Option (List Rec))
  | [] => .pure (some [])
  | s :: rest =>
    if s.port ≠ port then
      .bind (judgeRecords r port nodeIP rest) fun recs ↦
        .pure (recs.map (⟨srvLabel lower s, alsoPointsTo (srvLabel lower s)⟩ :: ·))
    else
      .ask (.a (hostName lower s.target)) (r.lookupA (hostName lower s.target)) fun as ↦
        if lookupFailed as.err then .pure none
        else
          .bind (judgeRecords r port nodeIP rest) fun recs ↦
            .pure (recs.map
              (⟨srvLabel lower s, targetDetail str nodeIP (hostName lower s.target) as.records⟩ :: ·))

/-- What is said about a record.  Next to a good record an offender is an extra destination, not the
primary problem. -/
def recProblem (anyGood : Bool) (rc : Rec) : Option Text :=
  if rc.detail = [] then none
  else if anyGood && !(lit "SRV also").isPrefixOf rc.detail then some (alsoPointsTo rc.label)
  else some rc.detail

/-- The order of the records: by target, then by port. -/
def srvLE (s t : SRV) : Bool :=
  if s.target ≠ t.target then decide (s.target < t.target) else decide (s.port ≤ t.port)

/-- `srvProblems` judges every SRV record: one good record does not excuse another that sends players
elsewhere. -/
def srvProblems (r : Resolver) (srvs : List SRV) (port : UInt16) (nodeIP : Addr) :
    Traced (Option (List Text)) :=
  let srvs := srvs.mergeSort srvLE
  if srvs.any (fun s ↦ s.port = port) = false then
    .pure (some [lit "SRV points to port " ++ ((srvs.head?.map fun s ↦ portText s.port).getD []) ++
      lit ", should be " ++ portText port])
  else
    .bind (judgeRecords lower str r port nodeIP srvs) fun recs ↦
      .pure (recs.map fun recs ↦
        -- A record of the right port with one good answer only keeps an empty detail; every other
        -- record gets one.
        recs.filterMap (recProblem (recs.any fun rc ↦ rc.detail = [])))

/-- The problem with the addresses of the name itself. -/
def nameProblems (nodeIP : Addr) (as : List Addr) : List Text :=
  if hasNode nodeIP as = false then
    [lit "points to " ++ joined str (wrongAddrs nodeIP as) ++ lit ", should be " ++ str nodeIP]
  else if wrongAddrs nodeIP as ≠ [] then
    [lit "also points to " ++ joined str (wrongAddrs nodeIP as) ++ lit ", should only be " ++
      str nodeIP]
  else []

/-- Without an SRV record a client uses the default port. -/
def noSRVProblems (fqdn : Text) (port : UInt16) : List Text :=
  if port ≠ defaultMinecraftPort then
    [lit "Players would have to type :" ++ portText port ++ lit " - add an SRV record " ++
      srvName fqdn ++ lit " pointing to " ++ fqdn ++ lit " port " ++ portText port]
  else []

/-- Core never writes an AAAA record, so any answer sends IPv6 players elsewhere. -/
def aaaaProblems (v6 : List Addr) : List Text :=
  if v6 ≠ [] then
    [lit "IPv6 players reach a different host (AAAA " ++ joined str v6 ++ lit ")"]
  else []

/-- The status after a failed lookup. -/
def failed (typ : String) : DomainStatus :=
  ⟨.grey, [lit "DNS lookup failed (" ++ lit typ ++ lit "), checking again shortly"]⟩

/-- The verdict on the problems found. -/
def verdict (problems : List Text) : DomainStatus :=
  if problems ≠ [] then ⟨.yellow, problems⟩ else ⟨.green, []⟩

/-- The last lookup, and the verdict. -/
def evaluateAAAA (r : Resolver) (fqdn : Text) (problems : List Text) : Traced DomainStatus :=
  .ask (.aaaa fqdn) (r.lookupAAAA fqdn) fun v6 ↦
    if lookupFailed v6.err then .pure (failed "AAAA")
    else .pure (verdict (problems ++ aaaaProblems str v6.records))

/-- The SRV records, and what follows. -/
def evaluateSRV (r : Resolver) (fqdn : Text) (nodeIP : Addr) (port : UInt16)
    (problems : List Text) : Traced DomainStatus :=
  .ask (.srv (srvName fqdn)) (r.lookupSRV (srvName fqdn)) fun srvs ↦
    if lookupFailed srvs.err then .pure (failed "SRV")
    else if srvs.records = [] then
      evaluateAAAA str r fqdn (problems ++ noSRVProblems fqdn port)
    else
      .bind (srvProblems lower str r srvs.records port nodeIP) fun sp ↦
        match sp with
        | none => .pure (failed "SRV target A")
        | some sp => evaluateAAAA str r fqdn (problems ++ sp)

/-- `EvaluateDomain`; `nodeIP` is `none` while the node has not reported a public address. -/
def evaluateDomain (r : Resolver) (fqdn : Text) (nodeIP : Option Addr) (port : UInt16) :
    Traced DomainStatus :=
  let fqdn := hostName lower fqdn
  match nodeIP with
  | none => .pure ⟨.grey, [lit "the node has not reported a public IP yet"]⟩
  | some nodeIP =>
    .ask (.a fqdn) (r.lookupA fqdn) fun as ↦
      if lookupFailed as.err then .pure (failed "A")
      else if as.records = [] then .pure ⟨.grey, [lit "does not resolve yet"]⟩
      else evaluateSRV lower str r fqdn nodeIP port (nameProblems str nodeIP as.records)

/-! ## A failed lookup is never guessed over -/

variable {lower str} {r : Resolver} {nodeIP : Addr} {port : UInt16}

variable {srvs : List SRV}

/-- The loop makes no failed lookup unless it says so. -/
theorem judgeRecords_not_fails {recs : List Rec}
    (h : (judgeRecords lower str r port nodeIP srvs).value = some recs) :
    ∀ q ∈ (judgeRecords lower str r port nodeIP srvs).asked, r.fails q = false := by
  induction srvs generalizing recs with
  | nil => simp [judgeRecords]
  | cons s rest ih =>
    unfold judgeRecords at h ⊢
    split at h
    · rename_i hp
      simp only [Traced.bind_value, Traced.pure_value, map_eq_some_iff] at h
      obtain ⟨recs, hrecs, -⟩ := h
      simpa [hp] using ih hrecs
    · rename_i hp
      simp only [Traced.ask_value] at h
      split at h
      · simp at h
      rename_i hf
      simp only [Traced.bind_value, Traced.pure_value, map_eq_some_iff] at h
      obtain ⟨recs, hrecs, -⟩ := h
      have hhead : r.fails (.a (hostName lower s.target)) = false := by
        simpa [Resolver.fails] using hf
      simpa [hp, hf, hhead] using ih hrecs

variable {problems : List Text}

theorem srvProblems_not_fails
    (h : (srvProblems lower str r srvs port nodeIP).value = some problems) :
    ∀ q ∈ (srvProblems lower str r srvs port nodeIP).asked, r.fails q = false := by
  unfold srvProblems at h ⊢
  dsimp only at h ⊢
  split
  · simp
  · rename_i hany
    rw [if_neg hany, Traced.bind_value, Traced.pure_value, map_eq_some_iff] at h
    obtain ⟨recs, hrecs, -⟩ := h
    simpa using judgeRecords_not_fails hrecs

variable {q : Query}

variable {fqdn : Text}

theorem evaluateAAAA_grey (hq : q ∈ (evaluateAAAA str r fqdn problems).asked) (hf : r.fails q) :
    (evaluateAAAA str r fqdn problems).value.state = .grey := by
  unfold evaluateAAAA at hq ⊢
  rw [Traced.ask_asked] at hq
  rw [Traced.ask_value]
  split
  · rfl
  · rename_i hok
    simp only [if_neg hok, Traced.pure_asked, mem_singleton] at hq
    subst hq
    exact absurd hf hok

theorem evaluateSRV_grey
    (hq : q ∈ (evaluateSRV lower str r fqdn nodeIP port problems).asked) (hf : r.fails q) :
    (evaluateSRV lower str r fqdn nodeIP port problems).value.state = .grey := by
  unfold evaluateSRV at hq ⊢
  rw [Traced.ask_asked] at hq
  rw [Traced.ask_value]
  split
  · rfl
  rename_i hok
  rw [if_neg hok] at hq
  have hne : q ≠ .srv (srvName fqdn) := by
    rintro rfl
    exact hok hf
  replace hq := (mem_cons.mp hq).resolve_left hne
  split at hq
  · rename_i hnil
    rw [if_pos hnil]
    exact evaluateAAAA_grey hq hf
  rename_i hnil
  rw [if_neg hnil, Traced.bind_value]
  rw [Traced.bind_asked] at hq
  cases hsp : (srvProblems lower str r _ port nodeIP).value with
  | none => rfl
  | some sp =>
    rw [hsp] at hq
    -- The lookups of the targets have all been answered, so it is the last one that failed.
    have hrest := (mem_append.mp hq).resolve_left fun hin ↦ by
      rw [srvProblems_not_fails hsp q hin] at hf
      cases hf
    exact evaluateAAAA_grey hrest hf

/-- **A failed lookup gives grey**, whichever of the lookups made it is. -/
theorem evaluateDomain_grey_of_failed {nodeIP : Option Addr}
    (hq : q ∈ (evaluateDomain lower str r fqdn nodeIP port).asked) (hf : r.fails q) :
    (evaluateDomain lower str r fqdn nodeIP port).value.state = .grey := by
  cases nodeIP with
  | none => rfl
  | some nodeIP =>
    unfold evaluateDomain at hq ⊢
    dsimp only at hq ⊢
    rw [Traced.ask_asked] at hq
    rw [Traced.ask_value]
    split
    · rfl
    rename_i hok
    rw [if_neg hok] at hq
    split
    · rfl
    rename_i hnil
    rw [if_neg hnil] at hq
    have hne : q ≠ .a (hostName lower fqdn) := by
      rintro rfl
      exact hok hf
    exact evaluateSRV_grey ((mem_cons.mp hq).resolve_left hne) hf

/-! ## When a name is green -/

/-- Every lookup is answered. -/
def Resolver.Answers (r : Resolver) : Prop := ∀ q, r.fails q = false

/-- All the answers are the node, and there is one. -/
def OnlyNode (nodeIP : Addr) (as : List Addr) : Prop :=
  as ≠ [] ∧ ∀ a ∈ as, a.unmap = nodeIP.unmap

variable {as : List Addr}

theorem wrongAddrs_eq_nil : wrongAddrs nodeIP as = [] ↔ ∀ a ∈ as, a.unmap = nodeIP.unmap := by
  simp [wrongAddrs]

theorem onlyNode_iff :
    OnlyNode nodeIP as ↔ hasNode nodeIP as = true ∧ wrongAddrs nodeIP as = [] := by
  rw [wrongAddrs_eq_nil, OnlyNode, hasNode, List.any_eq_true]
  constructor
  · rintro ⟨hne, hall⟩
    obtain ⟨a, ha⟩ := List.exists_mem_of_ne_nil as hne
    exact ⟨⟨a, ha, by simpa using hall a ha⟩, hall⟩
  · rintro ⟨⟨a, ha, -⟩, hall⟩
    exact ⟨List.ne_nil_of_mem ha, hall⟩

theorem nameProblems_eq_nil : nameProblems str nodeIP as = [] ↔ OnlyNode nodeIP as := by
  rw [onlyNode_iff, nameProblems]
  split
  · simp_all
  · split <;> simp_all

theorem targetDetail_eq_nil {target : Text} :
    targetDetail str nodeIP target as = [] ↔ OnlyNode nodeIP as := by
  have hlit : lit "SRV target " ≠ [] := by decide +kernel
  rw [onlyNode_iff, targetDetail]
  split
  · simp_all
  · split <;> simp_all

theorem alsoPointsTo_ne_nil (label : Text) : alsoPointsTo label ≠ [] := by
  have hlit : lit "SRV also points to " ≠ [] := by decide +kernel
  simp [alsoPointsTo, hlit]

/-- The judgement of one record once its target has been looked up. -/
def judged (lower : Text → Text) (str : Addr → Text) (r : Resolver) (port : UInt16) (nodeIP : Addr)
    (s : SRV) : Rec :=
  ⟨srvLabel lower s,
    if s.port ≠ port then alsoPointsTo (srvLabel lower s)
    else targetDetail str nodeIP (hostName lower s.target)
      (r.lookupA (hostName lower s.target)).records⟩

theorem judgeRecords_value (h : r.Answers) (srvs : List SRV) :
    (judgeRecords lower str r port nodeIP srvs).value =
      some (srvs.map (judged lower str r port nodeIP)) := by
  induction srvs with
  | nil => rfl
  | cons s rest ih =>
    have hok : lookupFailed (r.lookupA (hostName lower s.target)).err = false :=
      h (.a (hostName lower s.target))
    unfold judgeRecords
    split
    · rename_i hp
      simp [ih, judged, hp]
    · rename_i hp
      simp [ih, judged, hp, hok]

/-- An SRV record is good when its port is the server's and its target resolves to the node only. -/
def GoodSRV (lower : Text → Text) (r : Resolver) (port : UInt16) (nodeIP : Addr) (s : SRV) : Prop :=
  s.port = port ∧ OnlyNode nodeIP (r.lookupA (hostName lower s.target)).records

theorem judged_detail_eq_nil {s : SRV} :
    (judged lower str r port nodeIP s).detail = [] ↔ GoodSRV lower r port nodeIP s := by
  rw [judged, GoodSRV]
  by_cases hp : s.port = port
  · simp [hp, targetDetail_eq_nil]
  · simp [hp, alsoPointsTo_ne_nil]

theorem recProblem_eq_none {anyGood : Bool} {rc : Rec} :
    recProblem anyGood rc = none ↔ rc.detail = [] := by
  rw [recProblem]
  split
  · simp_all
  · split <;> simp_all

/-- Nothing is said about the SRV records exactly if each of them is good. -/
theorem srvProblems_value (lower : Text → Text) (str : Addr → Text) (port : UInt16) (nodeIP : Addr)
    (h : r.Answers) (hne : srvs ≠ []) :
    ∃ problems, (srvProblems lower str r srvs port nodeIP).value = some problems ∧
      (problems = [] ↔ ∀ s ∈ srvs, GoodSRV lower r port nodeIP s) := by
  unfold srvProblems
  dsimp only
  split
  · rename_i hany
    refine ⟨_, rfl, ?_⟩
    obtain ⟨s, hs⟩ := exists_mem_of_ne_nil srvs hne
    have hport : s.port ≠ port := by
      simpa using any_eq_false.mp hany s (by simpa using hs)
    simp only [cons_ne_nil, false_iff]
    intro hgood
    exact hport (hgood s hs).1
  · refine ⟨_, by rw [Traced.bind_value, judgeRecords_value h]; rfl, ?_⟩
    simp [recProblem_eq_none, judged_detail_eq_nil]

theorem noSRVProblems_eq_nil : noSRVProblems fqdn port = [] ↔ port = defaultMinecraftPort := by
  rw [noSRVProblems]
  split <;> simp_all

theorem aaaaProblems_eq_nil {v6 : List Addr} : aaaaProblems str v6 = [] ↔ v6 = [] := by
  rw [aaaaProblems]
  split <;> simp_all

theorem verdict_green : (verdict problems).state = .green ↔ problems = [] := by
  rw [verdict]
  split <;> simp_all

theorem evaluateAAAA_green (h : r.Answers) :
    (evaluateAAAA str r fqdn problems).value.state = .green ↔
      problems = [] ∧ (r.lookupAAAA fqdn).records = [] := by
  have hok : lookupFailed (r.lookupAAAA fqdn).err = false := h (.aaaa fqdn)
  simp [evaluateAAAA, hok, verdict_green, aaaaProblems_eq_nil]

theorem evaluateSRV_green (h : r.Answers) :
    (evaluateSRV lower str r fqdn nodeIP port problems).value.state = .green ↔
      problems = [] ∧ (r.lookupAAAA fqdn).records = [] ∧
        ((r.lookupSRV (srvName fqdn)).records = [] → port = defaultMinecraftPort) ∧
        ∀ s ∈ (r.lookupSRV (srvName fqdn)).records, GoodSRV lower r port nodeIP s := by
  have hok : lookupFailed (r.lookupSRV (srvName fqdn)).err = false := h (.srv (srvName fqdn))
  unfold evaluateSRV
  rw [Traced.ask_value, hok, if_neg Bool.false_ne_true]
  split
  · rename_i hnil
    rw [evaluateAAAA_green h, append_eq_nil_iff, noSRVProblems_eq_nil]
    simp only [hnil, not_mem_nil]
    tauto
  · rename_i hne
    obtain ⟨sp, hsp, hgood⟩ := srvProblems_value lower str port nodeIP h hne
    rw [Traced.bind_value, hsp]
    simp only [evaluateAAAA_green h, append_eq_nil_iff, hgood]
    tauto

/-- What the evaluator asks of a name, in its own terms. -/
theorem evaluateDomain_green_eq (h : r.Answers) {nodeIP : Option Addr} :
    (evaluateDomain lower str r fqdn nodeIP port).value.state = .green ↔
      ∃ ip, nodeIP = some ip ∧ OnlyNode ip (r.lookupA (hostName lower fqdn)).records ∧
        (r.lookupAAAA (hostName lower fqdn)).records = [] ∧
        ((r.lookupSRV (srvName (hostName lower fqdn))).records = [] → port = defaultMinecraftPort) ∧
        ∀ s ∈ (r.lookupSRV (srvName (hostName lower fqdn))).records, GoodSRV lower r port ip s := by
  cases nodeIP with
  | none => simp [evaluateDomain]
  | some ip =>
    have hok : lookupFailed (r.lookupA (hostName lower fqdn)).err = false :=
      h (.a (hostName lower fqdn))
    unfold evaluateDomain
    dsimp only
    rw [Traced.ask_value, hok, if_neg Bool.false_ne_true]
    split
    · rename_i hnil
      simp [hnil, OnlyNode]
    · rw [evaluateSRV_green h, nameProblems_eq_nil]
      simp

end Evaluator

/-! ## What a client is led to -/

/-- The addresses of a name, of both families. -/
def Resolver.addresses (r : Resolver) (host : Text) : List Addr :=
  (r.lookupA host).records ++ (r.lookupAAAA host).records

/-- A client that is given the name may connect to this address and port. -/
def Led (lower : Text → Text) (r : Resolver) (fqdn : Text) (a : Addr) (port : UInt16) : Prop :=
  (∃ s ∈ (r.lookupSRV (srvName (hostName lower fqdn))).records,
    a ∈ r.addresses (hostName lower s.target) ∧ port = s.port) ∨
  ((r.lookupSRV (srvName (hostName lower fqdn))).records = [] ∧
    a ∈ r.addresses (hostName lower fqdn) ∧ port = defaultMinecraftPort)

/-- Wherever a client is led to is the server on the node. -/
def LedToServer (lower : Text → Text) (r : Resolver) (fqdn : Text) (nodeIP : Addr)
    (port : UInt16) : Prop :=
  ∀ a p, Led lower r fqdn a p → a.unmap = nodeIP.unmap ∧ p = port

/-- No SRV record of the name has a target with an IPv6 address. -/
def NoTargetAAAA (lower : Text → Text) (r : Resolver) (fqdn : Text) : Prop :=
  ∀ s ∈ (r.lookupSRV (srvName (hostName lower fqdn))).records,
    (r.lookupAAAA (hostName lower s.target)).records = []

section Green

variable {lower : Text → Text} {str : Addr → Text} {r : Resolver} {fqdn : Text} {ip : Addr}
  {port : UInt16}

/-- Where every SRV target has an IPv4 address and none has an IPv6 one, the evaluator's conditions
on the SRV records are that clients are led to the server. -/
theorem ledToServer_iff (hv6 : NoTargetAAAA lower r fqdn)
    (hname : OnlyNode ip (r.lookupA (hostName lower fqdn)).records)
    (hname6 : (r.lookupAAAA (hostName lower fqdn)).records = []) :
    (((r.lookupSRV (srvName (hostName lower fqdn))).records = [] → port = defaultMinecraftPort) ∧
      ∀ s ∈ (r.lookupSRV (srvName (hostName lower fqdn))).records, GoodSRV lower r port ip s) ↔
    (∀ s ∈ (r.lookupSRV (srvName (hostName lower fqdn))).records,
      (r.lookupA (hostName lower s.target)).records ≠ []) ∧ LedToServer lower r fqdn ip port := by
  constructor
  · rintro ⟨hdefault, hgood⟩
    refine ⟨fun s hs ↦ (hgood s hs).2.1, ?_⟩
    rintro a p (⟨s, hs, ha, rfl⟩ | ⟨hnil, ha, rfl⟩)
    · rw [Resolver.addresses, hv6 s hs, append_nil] at ha
      exact ⟨(hgood s hs).2.2 a ha, (hgood s hs).1⟩
    · rw [Resolver.addresses, hname6, append_nil] at ha
      exact ⟨hname.2 a ha, (hdefault hnil).symm⟩
  · rintro ⟨hsome, hled⟩
    refine ⟨fun hnil ↦ ?_, fun s hs ↦ ?_⟩
    · obtain ⟨a, ha⟩ := exists_mem_of_ne_nil _ hname.1
      exact (hled a _ (.inr ⟨hnil, mem_append_left _ ha, rfl⟩)).2.symm
    have hto : ∀ a ∈ (r.lookupA (hostName lower s.target)).records,
        a.unmap = ip.unmap ∧ s.port = port :=
      fun a ha ↦ hled a _ (.inl ⟨s, hs, mem_append_left _ ha, rfl⟩)
    obtain ⟨a, ha⟩ := exists_mem_of_ne_nil _ (hsome s hs)
    exact ⟨(hto a ha).2, hsome s hs, fun a ha ↦ (hto a ha).1⟩

/-- **A green domain is a true one**, and a failed lookup is never green.  Where every lookup is
answered and no SRV target has an IPv6 address, a name is green exactly if it has an IPv4 address and
no IPv6 one, its addresses are the node's, every SRV target has an address, and every address a
client can be led to is the node's, with the server's port. -/
theorem evaluateDomain_green (lower : Text → Text) (str : Addr → Text) (r : Resolver) (fqdn : Text)
    (nodeIP : Option Addr) (port : UInt16) :
    (r.Answers → NoTargetAAAA lower r fqdn →
      ((evaluateDomain lower str r fqdn nodeIP port).value.state = .green ↔
        ∃ ip, nodeIP = some ip ∧ OnlyNode ip (r.lookupA (hostName lower fqdn)).records ∧
          (r.lookupAAAA (hostName lower fqdn)).records = [] ∧
          (∀ s ∈ (r.lookupSRV (srvName (hostName lower fqdn))).records,
            (r.lookupA (hostName lower s.target)).records ≠ []) ∧
          LedToServer lower r fqdn ip port)) ∧
    ∀ q ∈ (evaluateDomain lower str r fqdn nodeIP port).asked, r.fails q →
      (evaluateDomain lower str r fqdn nodeIP port).value.state = .grey := by
  refine ⟨fun h hv6 ↦ ?_, fun q hq hf ↦ evaluateDomain_grey_of_failed hq hf⟩
  rw [evaluateDomain_green_eq h]
  refine exists_congr fun ip ↦ and_congr_right fun _ ↦ and_congr_right fun hname ↦
    and_congr_right fun hname6 ↦ ?_
  exact ledToServer_iff hv6 hname hname6

end Green

/-! ## A domain with SRV records -/

/-- The node of the examples. -/
def exampleNode : Addr := .v4 0xCB007107#32

/-- A host that is not the node, by its addresses of either family. -/
def exampleOther : Addr := .v4 0xC6336401#32

def exampleOther6 : Addr := .v6 0x20010db8000000000000000000000001#128 []

/-- A zone in which `play.example` has the given addresses and one SRV record, on port 25570, to the
host `mc.example` with the given addresses. -/
def exampleZone (a aaaa targetA targetAAAA : List Addr) : Resolver where
  lookupA host :=
    if host = lit "play.example" then ⟨a, none⟩
    else if host = lit "mc.example" then ⟨targetA, none⟩ else ⟨[], some .notFound⟩
  lookupAAAA host :=
    if host = lit "play.example" then ⟨aaaa, none⟩
    else if host = lit "mc.example" then ⟨targetAAAA, none⟩ else ⟨[], some .notFound⟩
  lookupSRV host :=
    if host = lit "_minecraft._tcp.play.example" then ⟨[⟨lit "mc.example.", 25570⟩], none⟩
    else ⟨[], some .notFound⟩

theorem exampleZone_answers (a aaaa targetA targetAAAA : List Addr) :
    (exampleZone a aaaa targetA targetAAAA).Answers := by
  intro q
  cases q <;> simp only [Resolver.fails, exampleZone] <;> repeat' split
  all_goals rfl

/-- In such a zone clients are led to the addresses of the target. -/
theorem exampleZone_led {a aaaa targetA targetAAAA : List Addr} {addr : Addr} {port : UInt16} :
    Led id (exampleZone a aaaa targetA targetAAAA) (lit "play.example") addr port ↔
      addr ∈ targetA ++ targetAAAA ∧ port = 25570 := by
  have hname : srvName (hostName id (lit "play.example")) = lit "_minecraft._tcp.play.example" := by
    decide +kernel
  have htarget : hostName id (lit "mc.example.") = lit "mc.example" := by decide +kernel
  have hne : lit "mc.example" ≠ lit "play.example" := by decide +kernel
  simp [Led, hname, exampleZone, Resolver.addresses, htarget, hne]

/-- The evaluator on such a zone. -/
def exampleState (a aaaa targetA targetAAAA : List Addr) : DomainState :=
  (evaluateDomain id (fun _ ↦ []) (exampleZone a aaaa targetA targetAAAA) (lit "play.example")
    (some exampleNode) 25570).value.state

/-- The conditions are met by a name and a target that both point to the node. -/
theorem evaluateDomain_green_example :
    (exampleZone [exampleNode] [] [exampleNode] []).Answers ∧
      NoTargetAAAA id (exampleZone [exampleNode] [] [exampleNode] []) (lit "play.example") ∧
      exampleState [exampleNode] [] [exampleNode] [] = .green ∧
      LedToServer id (exampleZone [exampleNode] [] [exampleNode] []) (lit "play.example")
        exampleNode 25570 := by
  have hv6 : NoTargetAAAA id (exampleZone [exampleNode] [] [exampleNode] []) (lit "play.example") := by
    unfold NoTargetAAAA
    decide +kernel
  have hgreen : exampleState [exampleNode] [] [exampleNode] [] = .green := by decide +kernel
  refine ⟨exampleZone_answers _ _ _ _, hv6, hgreen, ?_⟩
  obtain ⟨ip, hip, -, -, -, hled⟩ :=
    ((evaluateDomain_green id (fun _ ↦ []) _ (lit "play.example") (some exampleNode) 25570).1
      (exampleZone_answers _ _ _ _) hv6).mp hgreen
  rw [some_inj] at hip
  exact hip ▸ hled

/-- Green is neither necessary nor sufficient for clients to be led to the server.  Above, a name
that points elsewhere is yellow although its SRV record leads every client to the node.  Below, the
target of the SRV record has an IPv6 address, which nothing looks up. -/
theorem not_evaluateDomain_green_iff :
    ((exampleZone [exampleOther] [] [exampleNode] []).Answers ∧
      LedToServer id (exampleZone [exampleOther] [] [exampleNode] []) (lit "play.example")
        exampleNode 25570 ∧
      exampleState [exampleOther] [] [exampleNode] [] = .yellow) ∧
    ((exampleZone [exampleNode] [] [exampleNode] [exampleOther6]).Answers ∧
      ¬ LedToServer id (exampleZone [exampleNode] [] [exampleNode] [exampleOther6])
        (lit "play.example") exampleNode 25570 ∧
      exampleState [exampleNode] [] [exampleNode] [exampleOther6] = .green) := by
  refine ⟨⟨exampleZone_answers _ _ _ _, ?_, by decide +kernel⟩,
    exampleZone_answers _ _ _ _, ?_, by decide +kernel⟩
  · intro a p hled
    obtain ⟨ha, rfl⟩ := exampleZone_led.mp hled
    rw [append_nil, mem_singleton] at ha
    exact ⟨by rw [ha], rfl⟩
  · intro h
    have hled := h exampleOther6 25570 (exampleZone_led.mpr (by simp))
    exact absurd hled.1 (by decide)

end Dylaris.Domains
