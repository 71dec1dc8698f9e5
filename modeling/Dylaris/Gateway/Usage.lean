import Dylaris.Library.Text
import Mathlib.Data.List.Basic

/-!
# How many addresses a tenant holds

What `tenantUsageFor` (`core/services/billing_overlimit.go`) counts for the over-limit sweep and what
`ownerRouteStats` (`core/handlers/gateway/gateway_link_routes.go`) counts where an address is created.  A
managed route names no owner: `RouteHeldBy` traces it to one through its server, and the sweep, which
compares the owner, misses it (`not_usage_counts_ours`).

The routes are those that Redis holds, the servers those of the database, and all reads succeed.
-/

set_option autoImplicit false

namespace Dylaris.Gateway

open List Text

structure GatewayRoute where
  domain : Text
  targetIP : Text := []
  serverUUID : Text := []
  coreOwned : Bool := false
  ownerID : Text := []

structure Server where
  uuid : Text
  ownerID : Text

/-- The functions of the standard library. -/
structure Texts where
  lower : Text → Text
  equalFold : Text → Text → Bool
  /-- The domains of a list in JSON. -/
  unmarshal : Text → Option (List Text)

variable (x : Texts)

def hosterBaseDomains (raw : Text) : List Text :=
  if trimSpace raw = [] then []
  else (((x.unmarshal raw).getD []).map fun d ↦ x.lower (trimSpace d)).filter (· ≠ [])

def domainIsOurs (domain : Text) (bases : List Text) : Bool :=
  let domain := x.lower (trimSpace (if domain.getLast? = some 0x2E then domain.dropLast else domain))
  domain ≠ [] && bases.any fun base ↦ domain = base || (0x2E :: base).isSuffixOf domain

def ownedServerUUIDs (servers : List Server) (userID : Text) : List Text :=
  (servers.filter (·.ownerID = userID)).map Server.uuid

def routeHeldBy (rt : GatewayRoute) (userID : Text) (ownedServers : List Text) : Bool :=
  let target := (rt.targetIP.dropPrefix? (lit "mc_")).getD rt.targetIP
  let uuid := if rt.serverUUID = [] then target else rt.serverUUID
  if rt.ownerID ≠ [] then rt.ownerID = userID
  else if rt.coreOwned || rt.serverUUID = [] && target = rt.targetIP then false
  else uuid ≠ [] && ownedServers.contains uuid

structure RouteStats where
  ours : Nat := 0
  custom : Nat := 0
  ownsDomain : Bool := false

variable (servers : List Server) (raw userID : Text)

/-- The loop of `ownerRouteStats`; `raw` is the setting of the hoster domains. -/
def ownerRouteStats (domain : Text) (routes : List GatewayRoute) : RouteStats :=
  routes.foldl (fun st rt ↦
    if !routeHeldBy rt userID (ownedServerUUIDs servers userID) then st
    else
      let name := x.lower (trimSpace domain)
      let owns := st.ownsDomain || (name ≠ [] && rt.coreOwned && x.equalFold rt.domain name)
      if domainIsOurs x rt.domain (hosterBaseDomains x raw) then
        { st with ours := st.ours + 1, ownsDomain := owns }
      else { st with custom := st.custom + 1, ownsDomain := owns }) {}

/-- The routes that `tenantUsageFor` counts. -/
def tenantUsageFor (routes : List GatewayRoute) : Nat :=
  routes.foldl (fun n rt ↦
    if rt.ownerID = userID && domainIsOurs x rt.domain (hosterBaseDomains x raw) then n + 1 else n) 0

/-- A route of one of the user's servers on our domains that names no owner. -/
def missed (rt : GatewayRoute) : Bool :=
  rt.ownerID = [] && domainIsOurs x rt.domain (hosterBaseDomains x raw) &&
    routeHeldBy rt userID (ownedServerUUIDs servers userID)

variable {x servers raw userID}

theorem ours_eq_countP (domain : Text) (routes : List GatewayRoute) :
    (ownerRouteStats x servers raw userID domain routes).ours = routes.countP fun rt ↦
      routeHeldBy rt userID (ownedServerUUIDs servers userID) &&
        domainIsOurs x rt.domain (hosterBaseDomains x raw) := by
  suffices h : ∀ st : RouteStats, (routes.foldl _ st).ours = st.ours + routes.countP _ from
    (h {}).trans (Nat.zero_add _)
  intro st
  induction routes generalizing st with
  | nil => rfl
  | cons rt routes ih =>
    rw [foldl_cons, ih, countP_cons]
    cases routeHeldBy rt userID (ownedServerUUIDs servers userID) with
    | false => rfl
    | true =>
      cases domainIsOurs x rt.domain (hosterBaseDomains x raw) with
      | false => rfl
      | true => exact (Nat.add_right_comm ..).trans (Nat.add_assoc ..)

theorem tenantUsageFor_eq_countP (routes : List GatewayRoute) :
    tenantUsageFor x raw userID routes = routes.countP fun rt ↦
      rt.ownerID = userID && domainIsOurs x rt.domain (hosterBaseDomains x raw) := by
  suffices h : ∀ n : Nat, routes.foldl _ n = n + routes.countP _ from
    (h 0).trans (Nat.zero_add _)
  intro n
  induction routes generalizing n with
  | nil => rfl
  | cons rt routes ih =>
    rw [foldl_cons, ih, countP_cons]
    split
    · exact (Nat.add_right_comm ..).trans (Nat.add_assoc ..)
    · rfl

/-- The doors count what the sweep counts, and the routes that it misses. -/
theorem ours_eq_add_missed (huser : userID ≠ []) (domain : Text) (routes : List GatewayRoute) :
    (ownerRouteStats x servers raw userID domain routes).ours =
      tenantUsageFor x raw userID routes + routes.countP (missed x servers raw userID) := by
  rw [ours_eq_countP, tenantUsageFor_eq_countP]
  induction routes with
  | nil => rfl
  | cons rt routes ih =>
    rw [countP_cons, countP_cons, countP_cons, ih, missed]
    by_cases howner : rt.ownerID = []
    · have hne : decide ([] = userID) = false := decide_eq_false huser.symm
      simp only [hne, howner, decide_true, Bool.true_and, Bool.false_and, Bool.false_eq_true, if_false,
        Bool.and_comm]
      omega
    · have hheld : routeHeldBy rt userID (ownedServerUUIDs servers userID) =
          decide (rt.ownerID = userID) := if_pos howner
      simp only [hheld, howner, decide_false, Bool.false_and, Bool.false_eq_true, if_false]
      omega

/-- **The sweep counts what the doors count**, exactly for a user none of whose servers has a managed
route on our domains. -/
theorem usage_counts_ours (huser : userID ≠ []) (routes : List GatewayRoute) (domain : Text) :
    tenantUsageFor x raw userID routes = (ownerRouteStats x servers raw userID domain routes).ours ↔
      ∀ rt ∈ routes, rt.ownerID = [] → domainIsOurs x rt.domain (hosterBaseDomains x raw) = true →
        routeHeldBy rt userID (ownedServerUUIDs servers userID) = false := by
  rw [ours_eq_add_missed huser, eq_comm, Nat.add_eq_left, countP_eq_zero]
  simp [missed]

/-- One route of a server of theirs. -/
def managed : GatewayRoute := { domain := lit "a.example.com", serverUUID := lit "s1" }

def asWritten : Texts := ⟨id, fun a b ↦ a = b, fun t ↦ some [t]⟩

theorem usage_counts_ours_linked :
    (ownerRouteStats asWritten [] (lit "example.com") (lit "u") [] [{ managed with ownerID := lit "u" }]).ours
      = 1 := by
  have husage : tenantUsageFor asWritten (lit "example.com") (lit "u")
      [{ managed with ownerID := lit "u" }] = 1 := by decide +kernel
  rw [← (usage_counts_ours (by decide +kernel) _ _).mpr (by decide +kernel), husage]

/-- A managed route on our domain is an address at the door, and none in the sweep. -/
theorem not_usage_counts_ours :
    tenantUsageFor asWritten (lit "example.com") (lit "u") [managed] = 0 ∧
      (ownerRouteStats asWritten [⟨lit "s1", lit "u"⟩] (lit "example.com") (lit "u") [] [managed]).ours
        = 1 := by
  decide +kernel

end Dylaris.Gateway
