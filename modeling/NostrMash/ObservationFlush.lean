import NostrMash.AccountWriters
import NostrMash.BatchedCounts

/-!
# The flush loop of the observation buffer

Ingest counts the observations of each public key in a buffer. A loop drains the buffer at every
tick and writes what it drained under the context of the process.
-/

namespace NostrMash.Observations
open BatchedCounts

abbrev Deltas := KeyedTable String ℕ

structure ObservationBuffer where
  counts : Deltas
  maxKeys : ℤ

def newObservationBuffer (maxKeys : ℤ) : ObservationBuffer := ⟨.empty, maxKeys⟩

def observationKey (pubkey : String) : String := toLower (trimSpace pubkey)

namespace ObservationBuffer

def Overflows (b : ObservationBuffer) (key : String) : Prop :=
  b.counts.get key = none ∧ 0 < b.maxKeys ∧ b.maxKeys ≤ b.counts.rows.length

instance (b : ObservationBuffer) (key : String) : Decidable (b.Overflows key) :=
  inferInstanceAs (Decidable (_ ∧ _))

def observe (b : ObservationBuffer) (pubkey : String) : ObservationBuffer :=
  let key := observationKey pubkey
  if key = "" then b
  else if b.Overflows key then b
  else { b with counts := increment b.counts key }

def drain (b : ObservationBuffer) : Option Deltas × ObservationBuffer :=
  if b.counts.rows = [] then (none, b) else (some b.counts, { b with counts := .empty })

def Counts (b : ObservationBuffer) (pubkey : String) : Prop :=
  observationKey pubkey ≠ "" ∧ ¬ b.Overflows (observationKey pubkey)

instance (b : ObservationBuffer) (pubkey : String) : Decidable (b.Counts pubkey) :=
  inferInstanceAs (Decidable (_ ∧ _))

theorem observe_of_not_counts {b : ObservationBuffer} {pubkey : String} (h : ¬ b.Counts pubkey) :
    b.observe pubkey = b := by
  simp only [observe]
  split_ifs with hblank hover
  · rfl
  · rfl
  · exact absurd ⟨hblank, hover⟩ h

end ObservationBuffer

/-- Where the loop stands; a flush is `final` after the cancellation was received. -/
inductive Phase where
  | selecting
  | draining (final : Bool)
  | writing (final : Bool) (deltas : Deltas)
  | returned

structure State where
  buffer : ObservationBuffer
  cancelled : Bool
  ticked : Bool
  expired : Bool
  phase : Phase
  written : List Deltas

def start (maxKeys : ℤ) : State where
  buffer := newObservationBuffer maxKeys
  cancelled := false
  ticked := false
  expired := false
  phase := .selecting
  written := []

inductive Action where
  | observe (pubkey : String)
  | tick
  | cancel
  | expire
  | receiveTick
  | receiveDone
  | drain
  | write (succeeds : Bool)

namespace State

def contextDone (s : State) (final : Bool) : Bool := if final then s.expired else s.cancelled

def afterFlush (final : Bool) : Phase := if final then .returned else .selecting

/-- Both channels may be ready in the select, and then either branch can be taken. -/
def step (s : State) : Action → Option State
  | .observe pubkey => some { s with buffer := s.buffer.observe pubkey }
  | .tick => some { s with ticked := true }
  | .cancel => some { s with cancelled := true }
  | .expire =>
    match s.phase with
    | .draining true => some { s with expired := true }
    | .writing true _ => some { s with expired := true }
    | _ => none
  | .receiveTick =>
    match s.phase with
    | .selecting => if s.ticked then some { s with ticked := false, phase := .draining false } else none
    | _ => none
  | .receiveDone =>
    match s.phase with
    | .selecting => if s.cancelled then some { s with phase := .draining true } else none
    | _ => none
  | .drain =>
    match s.phase with
    | .draining final =>
      match s.buffer.drain with
      | (none, buffer) => some { s with buffer := buffer, phase := afterFlush final }
      | (some deltas, buffer) => some { s with buffer := buffer, phase := .writing final deltas }
    | _ => none
  | .write succeeds =>
    match s.phase with
    | .writing final deltas =>
      if succeeds then
        some { s with written := s.written ++ [deltas], phase := afterFlush final }
      else if s.contextDone final then some { s with phase := afterFlush final }
      else none
    | _ => none

end State

structure Call where
  pubkey : String
  early : Bool
  deriving DecidableEq

def callKey (e : Call × ℕ) : String := observationKey e.1.pubkey

structure Traced where
  loop : State
  ledger : Ledger Call

namespace Traced

def record (T : Traced) : Action → Ledger Call
  | .observe pubkey =>
    let call : Call := ⟨pubkey, !T.loop.cancelled⟩
    if T.loop.buffer.Counts pubkey then T.ledger.accept call else T.ledger.refuse call
  | .drain => T.ledger.take
  | .write succeeds => if succeeds then T.ledger.arrive else T.ledger.lose
  | _ => T.ledger

def step (T : Traced) (a : Action) : Option Traced :=
  (T.loop.step a).map fun s => ⟨s, T.record a⟩

def start (maxKeys : ℤ) : Traced := ⟨Observations.start maxKeys, .start⟩

end Traced
end NostrMash.Observations
