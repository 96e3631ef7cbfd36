import NostrMash.Machine
import NostrMash.Relay

/-!
# The backfill runner

`runRelay` pages through the history of one relay. The cursor is the largest `created_at` handed
over so far, the next request starts one second after it, and an empty page that ends the stored
events completes the checkpoint.
-/

namespace NostrMash.Backfill

def maxInt64 : ℤ := 2 ^ 63 - 1

def minInt64 : ℤ := -2 ^ 63

inductive CheckpointStatus
  | running
  | completed
  | failed
  deriving DecidableEq

structure Checkpoint where
  since : Option ℤ
  untilTime : Option ℤ
  cursor : Option ℤ
  eoseSeenAt : Option ℤ
  status : CheckpointStatus
  updatedAt : ℤ
  deriving DecidableEq

/-- A configuration that `NewRunner` accepts. -/
structure Config where
  kinds : List ℤ
  since : Option ℤ
  untilTime : Option ℤ
  pageLimit : ℕ
  emptyPageMax : ℕ
  kinds_ne_nil : kinds ≠ []
  pageLimit_pos : 0 < pageLimit
  emptyPageMax_pos : 0 < emptyPageMax
  since_le_until : ∀ s ∈ since, ∀ u ∈ untilTime, s ≤ u

theorem notes_ne_nil : ([1] : List ℤ) ≠ [] := by decide

structure PageResult where
  events : List RelayEvent
  eoseSeen : Bool
  deriving DecidableEq

structure Attempt where
  checkpoint : Checkpoint
  cursor : Option ℤ
  emptyPages : ℕ
  deriving DecidableEq

structure State where
  stored : Option Checkpoint
  current : Option Attempt
  /-- The events passed to `onMessage`. -/
  handed : List RelayEvent
  deriving DecidableEq

def State.init : State := { stored := none, current := none, handed := [] }

def State.Completed (s : State) : Prop := ∃ c ∈ s.stored, c.status = .completed

/-- The `created_at` of a payload, if it is a number that is not negative and fits an `int64`. -/
def extractCreatedAt (e : RelayEvent) : Option ℤ :=
  if e.createdAt < 0 ∨ e.createdAt > maxInt64 then none else some e.createdAt

def laterCreatedAt (best : Option ℤ) (e : RelayEvent) : Option ℤ :=
  match extractCreatedAt e, best with
  | none, best => best
  | some c, none => some c
  | some c, some b => if c > b then some c else some b

def maxCreatedAt (events : List RelayEvent) : Option ℤ := events.foldl laterCreatedAt none

def advance (cursor best : Option ℤ) : Option ℤ :=
  match best, cursor with
  | some m, none => some m
  | some m, some c => if m > c then some m else some c
  | none, c => c

namespace Config

variable (cfg : Config)

/-- The start of the next request. -/
def nextSince (cursor : Option ℤ) : Option ℤ :=
  match cursor with
  | some c => if c = maxInt64 then some minInt64 else some (c + 1)
  | none => cfg.since

def request (cursor : Option ℤ) : RelayFilter :=
  { kinds := cfg.kinds
    since := cfg.nextSince cursor
    untilTime := cfg.untilTime
    limit := cfg.pageLimit }

def windowPassed (cursor : Option ℤ) : Bool :=
  cfg.untilTime.any fun u => (cfg.nextSince cursor).any fun s => s > u

def untilReached (cursor : Option ℤ) : Bool :=
  cfg.untilTime.any fun u => cursor.any fun c => c ≥ u

def newCheckpoint (now : ℤ) : Checkpoint :=
  { since := cfg.since, untilTime := cfg.untilTime, cursor := none, eoseSeenAt := none,
    status := .running, updatedAt := now }

end Config

/-- The checkpoint with which an attempt starts. -/
def ensureRunningCheckpoint (cfg : Config) (now : ℤ) (stored : Option Checkpoint) : Checkpoint :=
  match stored with
  | some c => { c with status := .running, updatedAt := now }
  | none => cfg.newCheckpoint now

def Checkpoint.mark (c : Checkpoint) (now : ℤ) (cursor : Option ℤ) (status : CheckpointStatus) :
    Checkpoint :=
  { c with cursor := cursor, status := status, updatedAt := now }

def pageEnds (cfg : Config) (cursor : Option ℤ) (emptyPages : ℕ) (page : PageResult) : Bool :=
  cfg.untilReached cursor ||
    (page.events.isEmpty && (page.eoseSeen || cfg.emptyPageMax ≤ emptyPages + 1))

/-- One turn of the loop whose page arrives and whose running checkpoint is stored. -/
def handlePage (cfg : Config) (s : State) (r : Attempt) (now : ℤ) (page : PageResult)
    (saved : Bool) : State :=
  let cursor := advance r.cursor (maxCreatedAt page.events)
  let seen := if page.eoseSeen then { r.checkpoint with eoseSeenAt := some now } else r.checkpoint
  let running := seen.mark now cursor .running
  let handed := s.handed ++ page.events
  if pageEnds cfg cursor r.emptyPages page then
    { stored := some (if saved then running.mark now cursor .completed else running)
      current := none
      handed := handed }
  else
    { stored := some running
      current := some
        { checkpoint := running
          cursor := cursor
          emptyPages := if page.events.isEmpty && !page.eoseSeen then r.emptyPages + 1 else 0 }
      handed := handed }

def abandon (s : State) (r : Attempt) (now : ℤ) (page : PageResult) (count : ℕ) (marked : Bool) :
    State :=
  { stored := if marked then some (r.checkpoint.mark now r.cursor .failed) else s.stored
    current := none
    handed := s.handed ++ page.events.take count }

theorem handed_handlePage (cfg : Config) (s : State) (r : Attempt) (now : ℤ) (page : PageResult)
    (saved : Bool) : (handlePage cfg s r now page saved).handed = s.handed ++ page.events := by
  simp only [handlePage]
  split_ifs
  all_goals rfl

inductive Action
  | start (now : ℤ)
  /-- The window is passed at the head of the loop. -/
  | finish (now : ℤ)
  | page (now : ℤ) (page : PageResult) (saved : Bool)
  /-- The attempt fails, with its failed checkpoint stored if `marked`. -/
  | interrupt (now : ℤ) (page : PageResult) (count : ℕ) (marked : Bool)

def step (cfg : Config) (s : State) : Action → Option State
  | .start now =>
    match s.current with
    | some _ => none
    | none =>
      let c := ensureRunningCheckpoint cfg now s.stored
      some { s with
        stored := some c, current := some { checkpoint := c, cursor := c.cursor, emptyPages := 0 } }
  | .finish now =>
    match s.current with
    | none => none
    | some r =>
      if cfg.windowPassed r.cursor then
        some { s with stored := some (r.checkpoint.mark now r.cursor .completed), current := none }
      else none
  | .page now page saved =>
    match s.current with
    | none => none
    | some r => if cfg.windowPassed r.cursor then none else some (handlePage cfg s r now page saved)
  | .interrupt now page count marked =>
    match s.current with
    | none => none
    | some r =>
      -- past the window nothing is fetched, and a failed store call ends the attempt unmarked
      if cfg.windowPassed r.cursor && (marked || 0 < count) then none
      else some (abandon s r now page count marked)

section
variable {cfg : Config} {s t : State} {now : ℤ} {page : PageResult}

theorem step_start (h : step cfg s (.start now) = some t) : s.current = none ∧ t = { s with
      stored := some (ensureRunningCheckpoint cfg now s.stored)
      current := some
        { checkpoint := ensureRunningCheckpoint cfg now s.stored
          cursor := (ensureRunningCheckpoint cfg now s.stored).cursor
          emptyPages := 0 } } := by
  simp only [step] at h
  split at h
  · cases h
  · next hs => exact ⟨hs, (Option.some.inj h).symm⟩

theorem step_finish (h : step cfg s (.finish now) = some t) :
    ∃ r, s.current = some r ∧ cfg.windowPassed r.cursor = true ∧ t = { s with
        stored := some (r.checkpoint.mark now r.cursor .completed)
        current := none } := by
  simp only [step] at h
  split at h
  · cases h
  · next r hr =>
    split_ifs at h with hp
    exact ⟨r, hr, hp, (Option.some.inj h).symm⟩

theorem step_page {saved : Bool} (h : step cfg s (.page now page saved) = some t) :
    ∃ r, s.current = some r ∧ t = handlePage cfg s r now page saved := by
  simp only [step] at h
  split at h
  · cases h
  · next r hr =>
    split_ifs at h
    exact ⟨r, hr, (Option.some.inj h).symm⟩

theorem step_interrupt {count : ℕ} {marked : Bool}
    (h : step cfg s (.interrupt now page count marked) = some t) :
    ∃ r, s.current = some r ∧ t = abandon s r now page count marked := by
  simp only [step] at h
  split at h
  · cases h
  · next r hr =>
    split_ifs at h
    exact ⟨r, hr, (Option.some.inj h).symm⟩

end

def Answered (cfg : Config) (R : Relay) (s : State) : Action → Prop
  | .page _ page _ => ∀ r ∈ s.current, page = ⟨R.answer (cfg.request r.cursor), true⟩
  | .interrupt _ page _ _ => ∀ r ∈ s.current, page = ⟨R.answer (cfg.request r.cursor), true⟩
  | _ => True

instance (cfg : Config) (R : Relay) (s : State) (a : Action) : Decidable (Answered cfg R s a) :=
  match a with
  | .page _ page _ =>
    inferInstanceAs (Decidable (∀ r ∈ s.current, page = ⟨R.answer (cfg.request r.cursor), true⟩))
  | .interrupt _ page _ _ =>
    inferInstanceAs (Decidable (∀ r ∈ s.current, page = ⟨R.answer (cfg.request r.cursor), true⟩))
  | .start _ => isTrue trivial
  | .finish _ => isTrue trivial

end NostrMash.Backfill
