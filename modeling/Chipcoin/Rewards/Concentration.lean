import Chipcoin.Lib.Counter
import Chipcoin.Lib.Sorting
import Chipcoin.Runtime

/-!
# Concentration caps of the reward observer

The observer sums up each node for an epoch, and keeps only so many of the eligible nodes for one
public address, for one subnet and for one fingerprint. A summary has the fields that the caps and
the payout batches read. Parsing an address is a parameter: it gives the 32 bits of an address, or
nothing for a text that is not one.
-/

namespace Chipcoin

open Checked Counter Sorting

/-! ### Summaries -/

/-- `SourceKind`. -/
inductive SourceKind
  | manual
  | nodeRegistry
  | derived
  | peerState
  | provisional
deriving DecidableEq, Repr

/-- `ConcentrationStatus`. -/
inductive ConcentrationStatus
  | ok
  | ipConcentrationCap
  | subnetConcentrationCap
  | fingerprintConcentrationCap
deriving DecidableEq, Repr

/-- `REJECTION_CODES`. -/
inductive RejectionCode
  | unreachable
  | protocolHandshakeFailed
  | wrongNetwork
  | expiredRegistration
  | insufficientObservation
  | warmupNotSatisfied
  | banned
  | ipConcentrationCap
  | subnetConcentrationCap
  | fingerprintConcentrationCap
  | observerError
  | noEligibleNodes
deriving DecidableEq, Repr

/-- `NodeEpochSummary`. -/
structure NodeEpochSummary where
  nodeId : PyStr
  payoutAddress : PyStr
  concentrationStatus : ConcentrationStatus := .ok
  finalEligible : Bool
  rejectionReason : Option RejectionCode := none
  banSource : SourceKind := .manual
  endpointSource : SourceKind := .manual
  publicIp : Option PyStr := none
  subnetKey : Option PyStr := none
  fingerprint : Option PyStr := none
deriving DecidableEq, Repr

/-- `(item.node_id, item.payout_address)`. -/
def NodeEpochSummary.identity (summary : NodeEpochSummary) : PyStr × PyStr :=
  (summary.nodeId, summary.payoutAddress)

/-- Summaries in the order of their identities. -/
def summaryOrder : NodeEpochSummary → NodeEpochSummary → Ordering :=
  compareLex (compareOn NodeEpochSummary.nodeId) (compareOn NodeEpochSummary.payoutAddress)

instance : Std.TransCmp summaryOrder :=
  inferInstanceAs (Std.TransCmp (compareLex (compareOn NodeEpochSummary.nodeId)
    (compareOn NodeEpochSummary.payoutAddress)))

/-- The caps of `RewardObserverConfig`. -/
structure RewardObserverConfig where
  perPublicIpv4Cap : ℤ
  perSubnetV4Prefix : ℤ := 24
  perSubnetCap : ℤ
  fingerprintCap : Option ℤ := none

/-! ### Subnets -/

/-- The network address of an address: the mask of the prefix length is laid over it. -/
def ipv4Network (prefixLength : ℕ) (address : BitVec 32) : BitVec 32 :=
  address &&& (BitVec.allOnes 32 ^^^ (BitVec.allOnes 32 >>> prefixLength))

/-- The four octets of an address, most significant first. -/
def ipv4Octets (address : BitVec 32) : List ℕ :=
  [address.toNat / 2 ^ 24, address.toNat / 2 ^ 16 % 256, address.toNat / 2 ^ 8 % 256,
    address.toNat % 256]

/-- `str` of an IPv4 address. -/
def ipv4Text (address : BitVec 32) : PyStr :=
  (str ".").intercalate ((ipv4Octets address).map fun octet => strOfInt (octet : ℕ))

/-- The key of a subnet. -/
def subnetText (prefixLength : ℕ) (network : BitVec 32) : PyStr :=
  ipv4Text network ++ str "/" ++ strOfInt (prefixLength : ℕ)

section

variable (ipv4Address : PyStr → Option (BitVec 32))

/-- `subnet_key_for_ipv4`. -/
def subnetKeyForIpv4 (address : Option PyStr) (prefixLength : ℤ) :
    Except PyError (Option PyStr) :=
  match address.bind ipv4Address with
  | none => .ok none
  | some ipv4 => do
    raiseIf (prefixLength < 0 ∨ 32 < prefixLength)
      (.value s!"'{prefixLength}' is not a valid netmask")
    return some (subnetText prefixLength.toNat (ipv4Network prefixLength.toNat ipv4))

/-! ### Caps -/

/-- The counters of `apply_concentration_caps`. -/
structure CapCounts where
  ipv4Counts : Std.ExtTreeMap PyStr ℕ := ∅
  subnetCounts : Std.ExtTreeMap PyStr ℕ := ∅
  fingerprintCounts : Std.ExtTreeMap PyStr ℕ := ∅

/-- A key has reached its cap. -/
def atCap (counts : Std.ExtTreeMap PyStr ℕ) (cap : ℤ) (key : Option PyStr) : Bool :=
  key.any fun key => cap ≤ (counts.getD key 0 : ℕ)

/-- The first cap that an eligible node has reached. -/
def capRejection (config : RewardObserverConfig) (counts : CapCounts) (summary : NodeEpochSummary)
    (subnetKey : Option PyStr) : Option (RejectionCode × ConcentrationStatus) :=
  if atCap counts.ipv4Counts config.perPublicIpv4Cap summary.publicIp then
    some (.ipConcentrationCap, .ipConcentrationCap)
  else if atCap counts.subnetCounts config.perSubnetCap subnetKey then
    some (.subnetConcentrationCap, .subnetConcentrationCap)
  else if config.fingerprintCap.any fun cap =>
      atCap counts.fingerprintCounts cap summary.fingerprint then
    some (.fingerprintConcentrationCap, .fingerprintConcentrationCap)
  else none

/-- The counters after a node is accepted. -/
def CapCounts.accept (config : RewardObserverConfig) (counts : CapCounts)
    (summary : NodeEpochSummary) (subnetKey : Option PyStr) : CapCounts where
  ipv4Counts := bump counts.ipv4Counts summary.publicIp
  subnetCounts := bump counts.subnetCounts subnetKey
  fingerprintCounts :=
    bump counts.fingerprintCounts (config.fingerprintCap.bind fun _ => summary.fingerprint)

/-- The summary of an eligible node after the caps. -/
def NodeEpochSummary.capped (summary : NodeEpochSummary) (subnetKey : Option PyStr)
    (rejection : Option (RejectionCode × ConcentrationStatus)) : NodeEpochSummary :=
  { summary with
    concentrationStatus := (rejection.map Prod.snd).getD .ok
    finalEligible := rejection.isNone
    rejectionReason := (rejection.map Prod.fst).or summary.rejectionReason
    subnetKey := subnetKey }

/-- The loop of `apply_concentration_caps`. -/
def capLoop (config : RewardObserverConfig) :
    List NodeEpochSummary → CapCounts → Except PyError (List NodeEpochSummary)
  | [], _ => return []
  | summary :: rest, counts =>
    if summary.finalEligible = false then do
      let updated ← capLoop config rest counts
      return summary :: updated
    else do
      let subnetKey ← subnetKeyForIpv4 ipv4Address summary.publicIp config.perSubnetV4Prefix
      let rejection := capRejection config counts summary subnetKey
      let counts := if rejection.isNone then counts.accept config summary subnetKey else counts
      let updated ← capLoop config rest counts
      return summary.capped subnetKey rejection :: updated

/-- `apply_concentration_caps`. -/
def applyConcentrationCaps (summaries : List NodeEpochSummary) (config : RewardObserverConfig) :
    Except PyError (List NodeEpochSummary) :=
  capLoop ipv4Address config (sortBy summaryOrder summaries) {}

end

end Chipcoin
