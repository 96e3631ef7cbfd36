import Mathlib.Data.List.MinMax
import NostrMash.Machine

/-!
# The cache of public responses

`servePublicCached` answers from an in-process cache, also for a while after an entry has expired,
and builds what is missing.
-/

namespace NostrMash.PublicCache
section

def second : ℤ := 1000000000

def discoveryCacheMaxStaleGrace : ℤ := 300 * second

def discoveryStaleRefreshTimeout : ℤ := 10 * second

def staleGraceFor (ttl : ℤ) : ℤ :=
  if ttl ≤ 0 then 0
  else if discoveryCacheMaxStaleGrace < ttl then discoveryCacheMaxStaleGrace
  else ttl

/-- `slices` are the lengths of the values that are slices. -/
structure Payload where
  degraded : Bool
  slices : List (String × ℕ)
  deriving DecidableEq

def cacheablePublicPayload (payload : Payload) : Bool :=
  !payload.degraded ||
    ["articles", "events", "notes", "profiles", "hashtags", "domains", "conversations"].all
      fun key => payload.slices.lookup key ≠ some 0

structure Built where
  payload : Payload
  builtAt : ℤ
  deriving DecidableEq

structure Entry where
  built : Built
  expiresAt : ℤ
  staleUntil : ℤ
  createdAt : ℕ
  deriving DecidableEq

variable {κ : Type*}

structure Cache (κ : Type*) where
  maxEntries : ℕ
  seq : ℕ
  entries : List (κ × Entry)

def Cache.deleteExpired (c : Cache κ) (now : ℤ) : Cache κ :=
  { c with entries := c.entries.filter fun p => now < p.2.staleUntil }

variable [DecidableEq κ]

def Cache.delete (c : Cache κ) (key : κ) : Cache κ :=
  { c with entries := c.entries.filter (·.1 ≠ key) }

/-- The entry, if it may still be served. -/
def Cache.get (c : Cache κ) (now : ℤ) (key : κ) : Option Entry × Cache κ :=
  match c.entries.lookup key with
  | none => (none, c)
  | some e => if e.staleUntil ≤ now then (none, c.delete key) else (some e, c)

def Cache.evictOldest (c : Cache κ) : Cache κ :=
  match c.entries.argmin (·.2.createdAt) with
  | none => c
  | some oldest => c.delete oldest.1

def Cache.set (c : Cache κ) (now : ℤ) (key : κ) (built : Built) (ttl : ℤ) : Cache κ :=
  if ttl ≤ 0 then c
  else
    let live := c.deleteExpired now
    let room := if (live.entries.lookup key).isNone ∧ live.maxEntries ≤ live.entries.length then
      live.evictOldest else live
    let entry := { built, expiresAt := now + ttl, staleUntil := now + (ttl + staleGraceFor ttl),
                   createdAt := room.seq + 1 }
    { room with seq := room.seq + 1, entries := (key, entry) :: (room.delete key).entries }

structure CacheControl where
  sMaxAge : ℤ
  staleWhileRevalidate : ℤ

def setPublicCacheControl (ttl : ℤ) : Option CacheControl :=
  if ttl ≤ 0 then none
  else some { sMaxAge := ttl / second, staleWhileRevalidate := staleGraceFor ttl / second }

/-- How long a downstream cache may serve the response. -/
def CacheControl.lifetime (header : CacheControl) : ℤ :=
  (header.sMaxAge + header.staleWhileRevalidate) * second

end

inductive Task (ι : Type*) where
  | request (i : ι)
  | refresh (i : ι)
  deriving DecidableEq

/-- A request that has failed records whether its own context was cancelled before. -/
inductive Phase (κ : Type*) where
  | idle
  | missed (key : κ)
  | waiting (key : κ)
  | answered (key : κ) (built : Built) (sentAt : ℤ)
  | failed (cancelled : Bool)
  deriving DecidableEq

structure Flight (ι : Type*) where
  leader : Task ι
  startedAt : ℤ
  building : Bool

structure State (κ ι : Type*) where
  clock : ℤ
  cache : Cache κ
  flights : κ → Option (Flight ι)
  phase : Task ι → Phase κ
  cancelled : ι → Bool

/-- A build without a payload has failed. -/
inductive Action (κ ι : Type*) where
  | tick (elapsed : ℕ)
  | cancel (i : ι)
  | arrive (i : ι) (key : κ)
  | join (task : Task ι)
  | lookup (key : κ)
  | finish (key : κ) (result : Option Payload)

variable {κ ι : Type*}

def init (κ ι : Type*) (maxEntries : ℕ) : State κ ι :=
  { clock := 0, cache := { maxEntries, seq := 0, entries := [] }, flights := fun _ => none,
    phase := fun _ => .idle, cancelled := fun _ => false }

def State.taskCancelled (s : State κ ι) : Task ι → Bool
  | .request i => s.cancelled i
  | .refresh _ => false

def State.contextDone (s : State κ ι) (flight : Flight ι) : Bool :=
  match flight.leader with
  | .request i => s.cancelled i
  | .refresh _ => decide (flight.startedAt + discoveryStaleRefreshTimeout ≤ s.clock)

def State.outcome (s : State κ ι) (key : κ) (result : Option Built) (task : Task ι) : Phase κ :=
  match result with
  | some built => .answered key built s.clock
  | none => .failed (s.taskCancelled task)

variable [DecidableEq κ] [DecidableEq ι]

def State.goto (s : State κ ι) (task : Task ι) (phase : Phase κ) : State κ ι :=
  { s with phase := Function.update s.phase task phase }

def State.deliver (s : State κ ι) (key : κ) (result : Option Built) : State κ ι :=
  { s with
    flights := Function.update s.flights key none
    phase := fun task =>
      if s.phase task = .waiting key then s.outcome key result task else s.phase task }

variable (ttl : κ → ℤ)

/-- `ttl` is that of the family of a key. -/
def step (s : State κ ι) : Action κ ι → Option (State κ ι)
  | .tick elapsed => some { s with clock := s.clock + elapsed }
  | .cancel i => some { s with cancelled := Function.update s.cancelled i true }
  | .arrive i key =>
    if s.phase (.request i) ≠ .idle then none
    else
      match s.cache.get s.clock key with
      | (none, cache) => some ({ s with cache }.goto (.request i) (.missed key))
      | (some e, cache) =>
        let served := { s with cache }.goto (.request i) (.answered key e.built s.clock)
        some (if s.clock < e.expiresAt then served else served.goto (.refresh i) (.missed key))
  | .join task =>
    match s.phase task with
    | .missed key =>
      let flight := (s.flights key).getD { leader := task, startedAt := s.clock, building := false }
      some ({ s with flights := Function.update s.flights key (some flight) }.goto task
        (.waiting key))
    | _ => none
  | .lookup key =>
    match s.flights key with
    | some flight =>
      if flight.building then none
      else
        match (s.cache.get s.clock key).1.filter fun e => s.clock < e.expiresAt with
        | some e => some (s.deliver key (some e.built))
        | none =>
          some { s with
            cache := (s.cache.get s.clock key).2
            flights := Function.update s.flights key (some { flight with building := true }) }
    | none => none
  | .finish key result =>
    match s.flights key with
    | some flight =>
      if !flight.building then none
      else
        match result with
        | some payload =>
          let cache := if cacheablePublicPayload payload then
            s.cache.set s.clock key ⟨payload, s.clock⟩ (ttl key) else s.cache
          some ({ s with cache }.deliver key (some ⟨payload, s.clock⟩))
        | none => if s.contextDone flight then some (s.deliver key none) else none
    | none => none

end NostrMash.PublicCache
