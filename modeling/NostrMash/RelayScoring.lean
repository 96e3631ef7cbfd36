import NostrMash.RelayRegistry
import Mathlib.Algebra.Order.Field.Basic

/-!
# The score of a relay

`ComputeScore` adds what a record shows for and against a relay. Scores are elements of a linearly
ordered field, and the decimal logarithm of the popularity is a parameter.
-/

namespace NostrMash.RelayAdmission
open RelayRegistry
variable {K : Type*}

section

structure PropagationShare (K : Type*) where
  firstSeen : K
  exclusive : K

structure ScoreInputs (K : Type*) where
  shares : List (String × PropagationShare K)
  blocked : List (String × ℤ)

def applyPropagationShare (r : RelayRecord K) (shares : List (String × PropagationShare K)) :
    RelayRecord K :=
  match (shares.lookup r.normalizedURL).or (shares.lookup r.urlKey) with
  | some share => { r with firstSeenShare := share.firstSeen, exclusiveShare := share.exclusive }
  | none => r

def applyBlockedRefs (r : RelayRecord K) (counts : List (String × ℤ)) : RelayRecord K :=
  match (counts.lookup r.urlKey).or (counts.lookup r.normalizedURL) with
  | some count => { r with blockedRefCount := count }
  | none => r

def ScoreInputs.apply (inputs : ScoreInputs K) (r : RelayRecord K) : RelayRecord K :=
  applyBlockedRefs (applyPropagationShare r inputs.shares) inputs.blocked

variable (inputs : ScoreInputs K) (r : RelayRecord K)

theorem ScoreInputs.apply_eq : inputs.apply r = { r with
      firstSeenShare := (inputs.apply r).firstSeenShare
      exclusiveShare := (inputs.apply r).exclusiveShare
      blockedRefCount := (inputs.apply r).blockedRefCount } := by
  unfold apply applyBlockedRefs applyPropagationShare
  split <;> split <;> rfl

@[simp]
theorem ScoreInputs.apply_manualPolicy : (inputs.apply r).manualPolicy = r.manualPolicy := by
  rw [apply_eq]

@[simp]
theorem ScoreInputs.apply_admissionState : (inputs.apply r).admissionState = r.admissionState := by
  rw [apply_eq]

end

structure ScoreComponents (K : Type*) where
  popularityScore : K
  probeHealthScore : K
  latencyScore : K
  yieldScore : K
  duplicatePenalty : K
  failurePenalty : K
  firstSeenShare : K
  exclusiveShare : K
  propagationScore : K
  blockedRefPenalty : K
  totalScore : K

variable [Field K] [LinearOrder K]

def clamp (v lo hi : K) : K := if v < lo then lo else if hi < v then hi else v

def maxPopularityScore : K := 150

def largeRelayUserThreshold : ℤ := 1000

def popularityScore (log10 : K → K) (distinctUsers : ℤ) : K :=
  if distinctUsers ≤ 0 then 0
  else
    let score := 22 * log10 (1 + distinctUsers)
    let score := if largeRelayUserThreshold ≤ distinctUsers then score + 20 else score
    clamp score 0 maxPopularityScore

def probeHealthScore (r : RelayRecord K) : K :=
  if r.lastProbeStatus = some .ok then 20 else if r.lastConnectOK = some true then 5 else 0

def latencyScore (r : RelayRecord K) : K :=
  match r.avgConnectLatency with
  | some latMs => if latMs < 500 then 10 else if latMs < 2000 then 5 else 0
  | none => 0

def computeScore (log10 : K → K) (r : RelayRecord K) : ScoreComponents K :=
  let popularity := popularityScore log10 r.distinctUserRefCount
  let probeHealth := probeHealthScore r
  let latency := latencyScore r
  let yield := clamp (r.yieldScore * 10) 0 10
  let duplicate := if 1 / 2 < r.duplicateRatio then -clamp ((r.duplicateRatio - 1 / 2) * 20) 0 10
    else 0
  let failure := if 3 / 10 < r.probeFailRate then -clamp (r.probeFailRate * 40) 0 30 else 0
  let propagation := clamp (r.firstSeenShare * 8 + r.exclusiveShare * 4) 0 12
  let blockedRef := if 0 < r.blockedRefCount then -min (r.blockedRefCount : K) 8 else 0
  let total := popularity + probeHealth + latency + yield + duplicate + failure + propagation +
    blockedRef
  { popularityScore := popularity
    probeHealthScore := probeHealth
    latencyScore := latency
    yieldScore := yield
    duplicatePenalty := duplicate
    failurePenalty := failure
    firstSeenShare := r.firstSeenShare
    exclusiveShare := r.exclusiveShare
    propagationScore := propagation
    blockedRefPenalty := blockedRef
    totalScore := if total < 0 then 0 else total }

end NostrMash.RelayAdmission
