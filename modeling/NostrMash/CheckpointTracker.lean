import NostrMash.Machine
import NostrMash.Text
import NostrMash.WriteBehind
import Mathlib.Data.Fintype.Defs

/-!
# The live checkpoint tracker

The tracker keeps the checkpoint of a relay in memory and mirrors it to `ingest_checkpoints`. A
call reads the clock, then takes the lock to update the checkpoint, and flushes when it is due.
-/

namespace NostrMash.Live
open WriteBehind

inductive RelayState
  | connecting
  | healthy
  | lagging
  | backingOff
  | disabled
  | errored
  | disconnected
  deriving DecidableEq

inductive CheckpointStatus
  | running
  | paused
  | completed
  | failed
  | connecting
  | healthy
  | backingOff
  | errored
  | disconnected
  deriving DecidableEq

/-- A row of `ingest_checkpoints` without its key. -/
structure IngestCheckpoint where
  since : Option ℤ
  untilTime : Option ℤ
  cursor : Option String
  lastEventID : Option String
  lastProgressAt : Option ℤ
  lastConnectedAt : Option ℤ
  lastDisconnectedAt : Option ℤ
  eoseSeenAt : Option ℤ
  status : CheckpointStatus
  lastError : Option String
  lastErrorAt : Option ℤ
  reconnectCount : ℤ
  updatedAt : ℤ
  deriving DecidableEq

def normalizeRelayState : RelayState → CheckpointStatus
  | .healthy => .healthy
  | .lagging => .healthy
  | .connecting => .connecting
  | .backingOff => .backingOff
  | .errored => .errored
  | .disconnected => .disconnected
  | .disabled => .disconnected

def becameDisconnected (prev next : CheckpointStatus) : Bool :=
  prev = .healthy && (next = .errored || next = .backingOff || next = .disconnected)

def raiseSince (since : Option ℤ) (createdAt : ℤ) : ℤ :=
  let c := if createdAt < 0 then 0 else createdAt
  match since with
  | none => c
  | some s => if c > s then c else s

namespace IngestCheckpoint

def base (now : ℤ) : IngestCheckpoint :=
  { since := none, untilTime := none, cursor := none, lastEventID := none, lastProgressAt := none,
    lastConnectedAt := none, lastDisconnectedAt := none, eoseSeenAt := none, status := .connecting,
    lastError := none, lastErrorAt := none, reconnectCount := 0, updatedAt := now }

def markEventProcessed (now : ℤ) (eventID : String) (createdAt : ℤ) (c : IngestCheckpoint) :
    IngestCheckpoint :=
  { c with
    since := some (raiseSince c.since createdAt)
    lastEventID := if trimSpace eventID ≠ "" then some (trimSpace eventID) else c.lastEventID
    lastProgressAt := some now
    status := .healthy
    lastError := none
    updatedAt := now }

def setRelayStatus (now : ℤ) (state : RelayState) (lastError : String) (c : IngestCheckpoint) :
    IngestCheckpoint :=
  let status := normalizeRelayState state
  let error := trimSpace lastError
  { c with
    status := status
    reconnectCount := if state = .connecting then c.reconnectCount + 1 else c.reconnectCount
    lastConnectedAt := if state = .healthy then some now else c.lastConnectedAt
    lastDisconnectedAt :=
      if becameDisconnected c.status status ∨ state = .disconnected then some now
      else c.lastDisconnectedAt
    lastError := if error = "" then none else some error
    lastErrorAt := if error = "" then none else some now
    updatedAt := now }

@[simp] theorem since_setRelayStatus (now : ℤ) (state : RelayState) (lastError : String)
    (c : IngestCheckpoint) : (c.setRelayStatus now state lastError).since = c.since := rfl

end IngestCheckpoint

inductive Call where
  | idle
  | marking (now : ℤ) (eventID : String) (createdAt : ℤ)
  | settingStatus (now : ℤ) (state : RelayState) (lastError : String)
  | flushing
  deriving DecidableEq

structure Tracker (τ : Type*) where
  buffer : Buffer τ IngestCheckpoint
  /-- `none` is the zero time. -/
  lastFlush : Option ℤ
  call : τ → Call
  clock : ℤ
  /-- The `created_at` values marked so far. -/
  marked : List ℤ

inductive Action (τ : Type*) where
  | mark (t : τ) (now : ℤ) (eventID : String) (createdAt : ℤ)
  | setStatus (t : τ) (now : ℤ) (state : RelayState) (lastError : String)
  | flush (t : τ)
  /-- The section of a mark or a status change under the lock. A first call loads the stored row,
  which works if `loads`, at the time `now`. -/
  | update (t : τ) (loads : Bool) (now : ℤ)
  | snapshot (t : τ) (loads : Bool) (now : ℤ)
  | upsert (t : τ) (succeeds : Bool)
  | finish (t : τ) (now : ℤ)

def ensureRelayState (stored : Option IngestCheckpoint) (loads : Bool) (now : ℤ) :
    IngestCheckpoint :=
  if loads then stored.getD (IngestCheckpoint.base now) else IngestCheckpoint.base now

variable {τ : Type*}

def Tracker.init (row : Option IngestCheckpoint) (clock : ℤ) : Tracker τ :=
  { buffer := Buffer.start row, lastFlush := none, call := fun _ => .idle, clock := clock,
    marked := [] }

def Tracker.Idle (s : Tracker τ) (t : τ) : Prop := s.call t = .idle ∧ s.buffer.flight t = .none

instance (s : Tracker τ) (t : τ) : Decidable (s.Idle t) :=
  inferInstanceAs (Decidable (_ ∧ _))

def Tracker.base (s : Tracker τ) (loads : Bool) (now : ℤ) : IngestCheckpoint :=
  ensureRelayState s.buffer.stored loads now

def Tracker.due (s : Tracker τ) (flushEvery now : ℤ) : Bool :=
  s.lastFlush.all fun last => now - last ≥ flushEvery

variable [DecidableEq τ]

def Tracker.goto (s : Tracker τ) (t : τ) (call : Call) (clock : ℤ) : Tracker τ :=
  { s with call := Function.update s.call t call, clock := clock }

def step (flushEvery : ℤ) (s : Tracker τ) : Action τ → Option (Tracker τ)
  | .mark t now eventID createdAt =>
    if s.Idle t ∧ s.clock ≤ now then some (s.goto t (.marking now eventID createdAt) now) else none
  | .setStatus t now state lastError =>
    if s.Idle t ∧ s.clock ≤ now then some (s.goto t (.settingStatus now state lastError) now)
    else none
  | .flush t => if s.Idle t then some (s.goto t .flushing s.clock) else none
  | .update t loads now =>
    match s.call t with
    | .marking at' eventID createdAt =>
      if s.clock ≤ now then
        let next := { s with
          buffer := s.buffer.update (s.base loads now)
            (IngestCheckpoint.markEventProcessed at' eventID createdAt)
          marked := createdAt :: s.marked }
        some (next.goto t (if s.due flushEvery at' then .flushing else .idle) now)
      else none
    | .settingStatus at' state lastError =>
      if s.clock ≤ now then
        let next := { s with
          buffer := s.buffer.update (s.base loads now)
            (IngestCheckpoint.setRelayStatus at' state lastError) }
        some (next.goto t .flushing now)
      else none
    | _ => none
  | .snapshot t loads now =>
    match s.call t with
    | .flushing =>
      if s.clock ≤ now then
        let c := s.buffer.opened (s.base loads now)
        let opened := { s with buffer := s.buffer.openWith (s.base loads now) }.goto t .idle now
        if c.dirty then
          some { opened with buffer := opened.buffer.goto t (.taken c.value c.revision) }
        else some opened
      else none
    | _ => none
  | .upsert t succeeds =>
    match s.buffer.flight t with
    | .taken snapshot revision =>
      if succeeds then some { s with buffer := s.buffer.write t snapshot revision }
      else some { s with buffer := s.buffer.goto t .none }
    | _ => none
  | .finish t now =>
    match s.buffer.flight t with
    | .written snapshot _ =>
      if s.clock ≤ now then
        some { s with
          buffer := s.buffer.finish t fun c => ¬ c.updatedAt > snapshot.updatedAt
          lastFlush := some now
          clock := now }
      else none
    | _ => none

def Tracker.flushAll (s : Tracker τ) (t : τ) (now : ℤ) : List (Action τ) :=
  match s.buffer.cell with
  | none => []
  | some c =>
    if c.dirty then [.flush t, .snapshot t true now, .upsert t true, .finish t now]
    else [.flush t, .snapshot t true now]

def inFlight : Flight IngestCheckpoint → Option IngestCheckpoint
  | .none => none
  | .taken snapshot _ => some snapshot
  | .written snapshot _ => some snapshot

/-- The conditions under which the tracker keeps its progress. -/
def Orderly (s : Tracker τ) : Action τ → Prop
  | .update t loads _ =>
    (s.buffer.cell = none → loads = true) ∧
      match s.call t with
      | .marking now _ _ => ∀ u, ∀ c ∈ inFlight (s.buffer.flight u), c.updatedAt < now
      | .settingStatus now _ _ => ∀ u, ∀ c ∈ inFlight (s.buffer.flight u), c.updatedAt < now
      | _ => True
  | .snapshot _ loads _ =>
    s.buffer.cell = none → loads = true ∧ s.buffer.stored.isSome = true
  | .upsert t succeeds =>
    match s.buffer.flight t with
    | .taken _ revision => succeeds = true → s.buffer.storedRevision ≤ revision
    | _ => True
  | _ => True

instance [Fintype τ] (s : Tracker τ) (a : Action τ) : Decidable (Orderly s a) := by
  unfold Orderly
  split
  · refine @instDecidableAnd _ _ _ ?_
    split <;> infer_instance
  · infer_instance
  · split <;> infer_instance
  · infer_instance

end NostrMash.Live
