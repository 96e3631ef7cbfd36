import NostrMash.Text

/-!
# Account states

The eight states of an account, the state derived from signals, and the effective state resolved
from the derived state, a manual override and the tracked mark.
-/

namespace NostrMash.Account

inductive State where
  | unknown
  | observed
  | candidate
  | meaningful
  | trusted
  | tracked
  | strategic
  | blocked
  deriving DecidableEq

namespace State

def text : State → String
  | .unknown => "unknown"
  | .observed => "observed"
  | .candidate => "candidate"
  | .meaningful => "meaningful"
  | .trusted => "trusted"
  | .tracked => "tracked"
  | .strategic => "strategic"
  | .blocked => "blocked"

def all : List State :=
  [.unknown, .observed, .candidate, .meaningful, .trusted, .tracked, .strategic, .blocked]

def rank : State → ℤ
  | .blocked => -1
  | .unknown => 0
  | .observed => 1
  | .candidate => 2
  | .meaningful => 3
  | .trusted => 4
  | .tracked => 5
  | .strategic => 6

def ofText (s : String) : Option State := all.find? fun st => st.text = s

end State

structure Signals where
  trustHops : ℤ
  observedCount : ℤ
  engagedByTrustedCount : ℤ
  hasProfileMetadata : Bool
  noteCount : ℤ
  deriving DecidableEq

structure Params where
  trustedMaxHops : ℤ
  candidateMinObserved : ℤ
  candidateMinEngagedBy : ℤ
  meaningfulMinNotes : ℤ
  meaningfulMinEngagedBy : ℤ
  observedMinCount : ℤ
  deriving DecidableEq

def defaultParams : Params where
  trustedMaxHops := 2
  candidateMinObserved := 5
  candidateMinEngagedBy := 1
  meaningfulMinNotes := 10
  meaningfulMinEngagedBy := 3
  observedMinCount := 2

def resolve (sig : Signals) (p : Params) : State :=
  if sig.trustHops ≥ 0 ∧ sig.trustHops ≤ p.trustedMaxHops then .trusted
  else if sig.hasProfileMetadata ∧ sig.noteCount ≥ p.meaningfulMinNotes ∧
      sig.engagedByTrustedCount ≥ p.meaningfulMinEngagedBy then .meaningful
  else if sig.engagedByTrustedCount ≥ p.candidateMinEngagedBy ∨
      (sig.hasProfileMetadata ∧ sig.observedCount ≥ p.candidateMinObserved) then .candidate
  else if sig.observedCount ≥ p.observedMinCount then .observed
  else .unknown

/-- `none` stands for the empty override. -/
def effectiveState (derived : State) (override : Option State) (tracked : Bool) : State :=
  match override with
  | some st => st
  | none => if tracked ∧ State.rank .tracked > derived.rank then .tracked else derived

@[simp] theorem effectiveState_some (derived st : State) (tracked : Bool) :
    effectiveState derived (some st) tracked = st := rfl

@[simp] theorem effectiveState_untracked (derived : State) :
    effectiveState derived none false = derived := by
  simp [effectiveState]

end NostrMash.Account
