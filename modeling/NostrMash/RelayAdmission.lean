import NostrMash.CappedPool
import NostrMash.RelayScoring

/-!
# The admission cycle

`Controller.Run` scores the listed relays, moves each one along its life cycle where the tier has
room, and then demotes the lowest scores of the tiers that are over their caps.
-/

namespace NostrMash.RelayAdmission
open RelayRegistry CappedPool

structure Config (K : Type*) where
  maxTotalActive : ℕ
  maxDynamicActive : ℕ
  maxProbation : ℕ
  minScoreForProbation : K
  minScoreForActive : K
  demoteFailureThreshold : K

variable {K : Type*} [LinearOrder K]

def manualState : ManualPolicy → Option AdmissionState
  | .blocked => some .blocked
  | .drained => some .draining
  | .pinned => some .pinned
  | .none => none

def automaticState (cfg : Config K) (r : RelayRecord K) (score : K) : AdmissionState :=
  match r.admissionState with
  | .candidate => if cfg.minScoreForProbation ≤ score then .probation else .candidate
  | .probation =>
    if cfg.minScoreForActive ≤ score then .active
    else if score < cfg.minScoreForProbation then .candidate
    else .probation
  | .active =>
    if cfg.demoteFailureThreshold < r.probeFailRate then .probation
    else if score < cfg.minScoreForProbation then .inactive
    else .active
  | .inactive => if cfg.minScoreForProbation ≤ score then .probation else .inactive
  | .pinned => .pinned
  | .blocked => .blocked
  | .draining => .draining

def computeTransition (cfg : Config K) (r : RelayRecord K) (sc : ScoreComponents K) :
    AdmissionState :=
  (manualState r.manualPolicy).getD (automaticState cfg r sc.totalScore)

section
variable {r : RelayRecord K}

/-- Counted as pinned: the state, or an active relay with the override. -/
def Pinned (r : RelayRecord K) : Prop :=
  r.admissionState = .pinned ∨ (r.admissionState = .active ∧ r.manualPolicy = .pinned)

def DynamicActive (r : RelayRecord K) : Prop :=
  r.admissionState = .active ∧ r.manualPolicy ≠ .pinned

def InProbation (r : RelayRecord K) : Prop := r.admissionState = .probation

instance : Decidable (Pinned r) := inferInstanceAs (Decidable (_ ∨ _))
instance : Decidable (DynamicActive r) := inferInstanceAs (Decidable (_ ∧ _))
instance : Decidable (InProbation r) := inferInstanceAs (Decidable (_ = _))

def enforcementListLimit : ℤ := 20000

def tierFilter : ListFilter where
  admissionStates := [.active, .pinned, .probation]
  limit := enforcementListLimit

structure TierOccupancy where
  pinned : ℤ
  dynamicActive : ℤ
  probation : ℤ
  deriving DecidableEq

def loadTierOccupancy (reg : Registry K) : TierOccupancy :=
  let relays := reg.listRelays tierFilter
  ⟨relays.countP fun r => Pinned r, relays.countP fun r => DynamicActive r,
    relays.countP fun r => InProbation r⟩

def gate (cfg : Config K) (o : TierOccupancy) (current proposed : AdmissionState) :
    AdmissionState × TierOccupancy :=
  if proposed = current then (proposed, o)
  else
    match current, proposed with
    | .probation, .active =>
      if cfg.maxTotalActive ≤ o.pinned + o.dynamicActive ∨ cfg.maxDynamicActive ≤ o.dynamicActive
      then (current, o)
      else (proposed, { o with
        probation := o.probation - 1, dynamicActive := o.dynamicActive + 1 })
    | .candidate, .probation | .inactive, .probation =>
      if cfg.maxProbation ≤ o.probation then (current, o)
      else (proposed, { o with probation := o.probation + 1 })
    | .active, .probation =>
      (proposed, { o with dynamicActive := o.dynamicActive - 1, probation := o.probation + 1 })
    | .active, _ => (proposed, { o with dynamicActive := o.dynamicActive - 1 })
    | .probation, _ => (proposed, { o with probation := o.probation - 1 })
    | _, _ => (proposed, o)

end

section

/-- The configuration, the scoring and the tables that are read for it. -/
structure Controller (K : Type*) [LinearOrder K] where
  cfg : Config K
  computeScore : RelayRecord K → ScoreComponents K
  inputs : ScoreInputs K
  sorter : Sorter (RelayRecord.score : RelayRecord K → K)

def listingFilter : ListFilter where limit := 1000

variable (c : Controller K)

def Controller.score (r : RelayRecord K) : ScoreComponents K := c.computeScore (c.inputs.apply r)

def Controller.proposed (r : RelayRecord K) : AdmissionState :=
  computeTransition c.cfg (c.inputs.apply r) (c.score r)

def Controller.turn (s : Registry K × TierOccupancy) (r : RelayRecord K) :
    Registry K × TierOccupancy :=
  let (newState, occupancy) := gate c.cfg s.2 r.admissionState (c.proposed r)
  if newState ≠ r.admissionState ∨ (c.score r).totalScore ≠ r.score then
    (s.1.setAdmissionState r.urlKey newState (c.score r).totalScore, occupancy)
  else (s.1, occupancy)

def Controller.transitionLoop (reg : Registry K) : Registry K :=
  ((reg.listRelays listingFilter).foldl c.turn (reg, loadTierOccupancy reg)).1

end

section
variable (c : Controller K)

def demoteAll (target : AdmissionState) (relays : List (RelayRecord K)) (reg : Registry K) :
    Registry K :=
  relays.foldl (fun reg r => reg.setAdmissionState r.urlKey target r.score) reg

def totalExcess (cfg : Config K) (relays : List (RelayRecord K)) : ℕ :=
  relays.countP (fun r => Pinned r) + (relays.filter fun r => DynamicActive r).length -
    cfg.maxTotalActive

def Controller.totalSpill (relays : List (RelayRecord K)) : List (RelayRecord K) :=
  c.sorter.cut (totalExcess c.cfg relays) (relays.filter fun r => DynamicActive r)

def Controller.underTotalCap (relays : List (RelayRecord K)) : List (RelayRecord K) :=
  c.sorter.kept (totalExcess c.cfg relays) (relays.filter fun r => DynamicActive r)

def Controller.dynamicSpill (relays : List (RelayRecord K)) : List (RelayRecord K) :=
  c.sorter.cut ((c.underTotalCap relays).length - c.cfg.maxDynamicActive) (c.underTotalCap relays)

def Controller.probationPool (relays : List (RelayRecord K)) : List (RelayRecord K) :=
  (relays.filter fun r => InProbation r) ++ c.totalSpill relays ++ c.dynamicSpill relays

def Controller.probationSpill (relays : List (RelayRecord K)) : List (RelayRecord K) :=
  c.sorter.cut ((c.probationPool relays).length - c.cfg.maxProbation) (c.probationPool relays)

def Controller.enforceCaps (reg : Registry K) : Registry K :=
  let relays := reg.listRelays tierFilter
  demoteAll .inactive (c.probationSpill relays)
    (demoteAll .probation (c.dynamicSpill relays) (demoteAll .probation (c.totalSpill relays) reg))

def Controller.run (reg : Registry K) : Registry K := c.enforceCaps (c.transitionLoop reg)

end

structure AdmissionProposal (K : Type*) where
  urlKey : String
  normalizedURL : String
  currentState : AdmissionState
  proposedState : AdmissionState
  score : ScoreComponents K
  changed : Bool

def Controller.runDryRun (c : Controller K) (reg : Registry K) : List (AdmissionProposal K) :=
  (reg.listRelays listingFilter).map fun r =>
    { urlKey := r.urlKey
      normalizedURL := r.normalizedURL
      currentState := r.admissionState
      proposedState := c.proposed r
      score := c.score r
      changed := c.proposed r ≠ r.admissionState }

def tierOrder : AdmissionState → ℕ
  | .blocked => 0
  | .inactive => 1
  | .candidate => 2
  | .draining => 2
  | .probation => 3
  | .active => 4
  | .pinned => 5

def isPromotion (source target : AdmissionState) : Bool := tierOrder source < tierOrder target

end NostrMash.RelayAdmission
