import NostrMash.DedupCache
import NostrMash.EventStore
import NostrMash.IngestGate
import NostrMash.LiveCheckpoints

/-!
# Live ingest of one relay message

`Handle` takes one of seven routes with a payload. A payload that names a cached event only records
where it was seen.
-/

namespace NostrMash.Live
open Nostr

structure Wiring where
  crypto : Crypto
  validateOpts : Options
  checkpointWriter : Bool
  blockedAuthors : Bool
  /-- `none` when the gate has no trusted set. -/
  gateMode : Option TrustGateMode
  dedupSize : ℤ
  flushEvery : ℤ

/-- What one call learns from its surroundings. -/
structure Answers where
  seenAfter : ℕ
  markedAfter : ℕ
  flushedAfter : ℕ
  blocked : String → Bool
  gate : GateAnswers
  provenanceFault : Option String
  censusFault : Option String
  insertFault : Option String
  invalidFault : Option String
  checkpoint : CheckpointAnswers

namespace Answers

/-- Times are in nanoseconds since 1970. -/
def seenAt (a : Answers) (clock : ℕ) : ℕ := clock + a.seenAfter

def markedAt (a : Answers) (clock : ℕ) : ℕ := a.seenAt clock + a.markedAfter

def flushedAt (a : Answers) (clock : ℕ) : ℕ := a.markedAt clock + a.flushedAfter

end Answers

def unix (time : ℕ) : ℤ := time / 1000000000

structure Counters where
  valid : ℕ
  duplicate : ℕ
  invalid : ℕ
  gated : ℕ
  deriving DecidableEq

structure InvalidEvent where
  sourceRelay : String
  errorCode : String
  errorMessage : String
  rawPayload : Option Json
  seenAt : ℤ

structure InsertAttempt where
  relayURL : String
  event : Event
  succeeds : Bool
  deriving DecidableEq

structure Ingest where
  dedup : Option DedupCache
  counters : Counters
  checkpoints : Checkpoints
  store : EventStore
  invalidEvents : List InvalidEvent
  /-- The authors reported to the observation sink, the last one first. -/
  observed : List String
  /-- The insertions tried so far, the last one first. -/
  attempts : List InsertAttempt

structure DedupProbe where
  id : String
  createdAt : ℤ
  deriving DecidableEq

def decodeProbe (doc : Json) : Option DedupProbe :=
  doc.decodeObject.bind fun fields => fields.foldlM
    (fun probe field =>
      if Json.foldName field.1 = "id" then
        (field.2.decodeStringInto probe.id).map fun id => { probe with id := id }
      else if Json.foldName field.1 = "created_at" then
        (field.2.decodeInt64Into probe.createdAt).map fun t => { probe with createdAt := t }
      else some probe)
    { id := "", createdAt := 0 }

def cachedDuplicate (dedup : Option DedupCache) (payload : Payload) :
    Option (DedupProbe × String × DedupCache) := do
  let cache ← dedup
  let doc ← payload.json
  let probe ← decodeProbe doc
  if probe.id = "" then none
  else
    let (pubkey, refreshed) ← cache.get probe.id
    some (probe, pubkey, refreshed)

def dvmRequestKinds : List ℤ :=
  [5000, 5001, 5002, 5050, 5100, 5200, 5201, 5202, 5250,
    5300, 5301, 5302, 5303, 5400, 5500, 5900, 5901, 5905, 5970]

def isCensusKind (kind : ℤ) : Bool :=
  kind ∈ [1222, 1244, 1617, 1621, 10166, 30166, 30402, 30617, 30818,
      30040, 30041, 31922, 31923, 31925, 7000] ||
    kind ∈ dvmRequestKinds || kind - 1000 ∈ dvmRequestKinds || (9000 ≤ kind && kind ≤ 9022)

def expiresAt (tags : List Tag) : Option ℤ :=
  tags.findSome? fun tag =>
    match tag with
    | key :: value :: _ =>
      if key = "expiration" then (parseInt64 (trimSpace value)).filter (0 < ·) else none
    | _ => none

def expired (tags : List Tag) (nowUnix : ℤ) : Bool := (expiresAt tags).any (· ≤ nowUnix)

inductive Route where
  | cached (probe : DedupProbe) (pubkey : String) (refreshed : DedupCache)
  | invalid (err : ValidationError)
  | blocked (e : Event)
  | census (e : Event)
  | gated (e : Event)
  | expired (e : Event)
  | insert (e : Event)

def eventRoute (w : Wiring) (a : Answers) (clock : ℕ) (relayURL : String) (e : Event) : Route :=
  if w.blockedAuthors && a.blocked e.pubkey then .blocked e
  else if isCensusKind e.kind then .census e
  else if w.gateMode.any fun mode =>
      !(evaluateGate mode a.gate e.kind e.pubkey e.tags relayURL).accept then .gated e
  else if expired e.tags (unix (a.seenAt clock)) then .expired e
  else .insert e

def route (w : Wiring) (a : Answers) (clock : ℕ) (relayURL : String) (payload : Payload)
    (dedup : Option DedupCache) : Route :=
  match cachedDuplicate dedup payload with
  | some (probe, pubkey, refreshed) => .cached probe pubkey refreshed
  | none =>
    match (parseAndValidate w.crypto w.validateOpts payload).outcome with
    | .error err => .invalid err
    | .ok e => eventRoute w a clock relayURL e

section
variable (w : Wiring) (a : Answers) (clock : ℕ) (relayURL : String)

namespace Ingest

def observe (s : Ingest) (pubkey : String) : Ingest := { s with observed := pubkey :: s.observed }

def countGated (s : Ingest) : Ingest :=
  { s with counters := { s.counters with gated := s.counters.gated + 1 } }

def countDuplicate (s : Ingest) : Ingest :=
  { s with counters := { s.counters with duplicate := s.counters.duplicate + 1 } }

def countValid (s : Ingest) : Ingest :=
  { s with counters := { s.counters with valid := s.counters.valid + 1 } }

def countInvalid (s : Ingest) : Ingest :=
  { s with counters := { s.counters with invalid := s.counters.invalid + 1 } }

def remember (e : Event) (inserted : Bool) (s : Ingest) : Ingest :=
  let cached : Ingest := { s with dedup := s.dedup.map fun cache => cache.add e.id e.pubkey }
  if inserted then cached.countValid else cached.countDuplicate

def mark (context eventID : String) (createdAt : ℤ) (s : Ingest) : Except String Unit × Ingest :=
  if w.checkpointWriter then
    let (result, checkpoints) := s.checkpoints.markEventProcessed w.flushEvery a.checkpoint
      (a.markedAt clock) (a.flushedAt clock) relayURL eventID createdAt
    match result with
    | .error e => (.error (context ++ ": " ++ e), { s with checkpoints := checkpoints })
    | .ok _ => (.ok (), { s with checkpoints := checkpoints })
  else (.ok (), s)

end Ingest

def onSuccess (f : Ingest → Ingest) : Except String Unit × Ingest → Except String Unit × Ingest
  | (.error e, s) => (.error e, s)
  | (.ok _, s) => (.ok (), f s)

def handleCached (probe : DedupProbe) (pubkey : String) (refreshed : DedupCache) (s : Ingest) :
    Except String Unit × Ingest :=
  let s := { s with dedup := some refreshed }.observe pubkey
  match s.store.insertEventRelayProvenance a.provenanceFault probe.id relayURL (a.seenAt clock)
      pubkey with
  | .error e => (.error ("store duplicate provenance: " ++ e), s)
  | .ok store =>
    onSuccess Ingest.countDuplicate <|
      { s with store := store }.mark w a clock relayURL
        "persist live checkpoint (cached duplicate)" probe.id probe.createdAt

def handleInsert (e : Event) (rawJSON : Option Json) (s : Ingest) : Except String Unit × Ingest :=
  match s.store.insertCanonicalEventWithResult a.insertFault e rawJSON relayURL
    (a.seenAt clock) with
  | .error err =>
    (.error ("store canonical event: " ++ err),
      { s with attempts := ⟨relayURL, e, false⟩ :: s.attempts })
  | .ok (inserted, store) =>
    let stored := { s with store := store, attempts := ⟨relayURL, e, true⟩ :: s.attempts }
    onSuccess (Ingest.remember e inserted) <|
      stored.mark w a clock relayURL "persist live checkpoint" e.id e.createdAt

def handleInvalid (err : ValidationError) (rawJSON : Option Json) (s : Ingest) :
    Except String Unit × Ingest :=
  let s := s.countInvalid
  match a.invalidFault with
  | some e => (.error ("store invalid event: " ++ e), s)
  | none =>
    let row : InvalidEvent :=
      { sourceRelay := relayURL, errorCode := err.code.text, errorMessage := err.error,
        rawPayload := rawJSON, seenAt := a.seenAt clock }
    (.ok (), { s with invalidEvents := row :: s.invalidEvents })

def handle (payload : Payload) (s : Ingest) : Except String Unit × Ingest :=
  let rawJSON := (parseAndValidate w.crypto w.validateOpts payload).rawJSON
  match route w a clock relayURL payload s.dedup with
  | .cached probe pubkey refreshed => handleCached w a clock relayURL probe pubkey refreshed s
  | .invalid err => handleInvalid a clock relayURL err rawJSON s
  | .blocked e =>
    (s.observe e.pubkey).countGated.mark w a clock relayURL "persist live checkpoint (blocked)" e.id
      e.createdAt
  | .census e =>
    match a.censusFault with
    | some err => (.error ("record kind census: " ++ err), s.observe e.pubkey)
    | none =>
      (s.observe e.pubkey).mark w a clock relayURL "persist live checkpoint (census)" e.id
        e.createdAt
  | .gated e =>
    (s.observe e.pubkey).countGated.mark w a clock relayURL "persist live checkpoint (gated)" e.id
      e.createdAt
  | .expired e =>
    (s.observe e.pubkey).mark w a clock relayURL "persist live checkpoint (expired)" e.id
      e.createdAt
  | .insert e => handleInsert w a clock relayURL e rawJSON (s.observe e.pubkey)

end

variable (w : Wiring) (a : Answers) (clock : ℕ) (relayURL : String) {f : Ingest → Ingest}

def provenanceStored (s : Ingest) (probe : DedupProbe) (pubkey : String) : Bool :=
  (s.store.insertEventRelayProvenance a.provenanceFault probe.id relayURL (a.seenAt clock)
    pubkey).isOk

def insertSucceeds (e : Event) : Bool :=
  trimSpace e.id ≠ "" && trimSpace relayURL ≠ "" && a.insertFault.isNone

def Route.recorded (s : Ingest) : Route → Option (String × ℤ)
  | .cached probe pubkey _ =>
    if provenanceStored a clock relayURL s probe pubkey then some (probe.id, probe.createdAt)
    else none
  | .invalid _ => none
  | .blocked e => some (e.id, e.createdAt)
  | .census e => if a.censusFault.isNone then some (e.id, e.createdAt) else none
  | .gated e => some (e.id, e.createdAt)
  | .expired e => some (e.id, e.createdAt)
  | .insert e => if insertSucceeds a relayURL e then some (e.id, e.createdAt) else none

def Route.attempted : Route → Option Event
  | .insert e => some e
  | _ => none

def Ingest.recordProgress (s : Ingest) : Option (String × ℤ) → Checkpoints
  | none => s.checkpoints
  | some (eventID, createdAt) =>
    (s.checkpoints.markEventProcessed w.flushEvery a.checkpoint (a.markedAt clock)
      (a.flushedAt clock) relayURL eventID createdAt).2

def counted (p : Option (String × ℤ)) : Option (String × ℤ) :=
  if w.checkpointWriter && trimSpace relayURL ≠ "" then p else none

def progress (payload : Payload) (s : Ingest) : Option (String × ℤ) :=
  counted w relayURL ((route w a clock relayURL payload s.dedup).recorded a clock relayURL s)

theorem checkpoints_mark (s : Ingest) (context eventID : String) (createdAt : ℤ) :
    (s.mark w a clock relayURL context eventID createdAt).2.checkpoints =
      s.recordProgress w a clock relayURL (counted w relayURL (some (eventID, createdAt))) := by
  cases hw : w.checkpointWriter with
  | false => simp [Ingest.mark, hw, counted, Ingest.recordProgress]
  | true =>
    by_cases hb : trimSpace relayURL = ""
    · simp [Ingest.mark, hw, counted, Ingest.recordProgress, hb, Checkpoints.markEventProcessed]
    · simp only [Ingest.mark, hw, counted, hb, if_true, ne_eq, not_false_eq_true, decide_true,
        Bool.and_self, Ingest.recordProgress]
      split
      · rfl
      · rfl

theorem mark_snd_eq (s : Ingest) (context eventID : String) (createdAt : ℤ) :
    ∃ c, (s.mark w a clock relayURL context eventID createdAt).2 = { s with checkpoints := c } := by
  simp only [Ingest.mark]
  split_ifs
  · split
    · exact ⟨_, rfl⟩
    · exact ⟨_, rfl⟩
  · exact ⟨s.checkpoints, rfl⟩

theorem attempts_mark (s : Ingest) (context eventID : String) (createdAt : ℤ) :
    (s.mark w a clock relayURL context eventID createdAt).2.attempts = s.attempts := by
  obtain ⟨c, hc⟩ := mark_snd_eq w a clock relayURL s context eventID createdAt
  rw [hc]

theorem store_mark (s : Ingest) (context eventID : String) (createdAt : ℤ) :
    (s.mark w a clock relayURL context eventID createdAt).2.store = s.store := by
  obtain ⟨c, hc⟩ := mark_snd_eq w a clock relayURL s context eventID createdAt
  rw [hc]

theorem checkpoints_onSuccess (hf : ∀ s, (f s).checkpoints = s.checkpoints)
    (r : Except String Unit × Ingest) : (onSuccess f r).2.checkpoints = r.2.checkpoints := by
  obtain ⟨e | u, s⟩ := r
  · rfl
  · exact hf s

theorem attempts_onSuccess (hf : ∀ s, (f s).attempts = s.attempts)
    (r : Except String Unit × Ingest) : (onSuccess f r).2.attempts = r.2.attempts := by
  obtain ⟨e | u, s⟩ := r
  · rfl
  · exact hf s

theorem insertCanonicalEventWithResult_isOk (store : EventStore) (e : Event)
    (rawJSON : Option Json) :
    (store.insertCanonicalEventWithResult a.insertFault e rawJSON relayURL (a.seenAt clock)).isOk =
      insertSucceeds a relayURL e := by
  unfold EventStore.insertCanonicalEventWithResult insertSucceeds
  by_cases hid : trimSpace e.id = ""
  · simp [hid, Except.isOk, Except.toBool]
  · by_cases hrelay : trimSpace relayURL = ""
    · simp [hid, hrelay, Except.isOk, Except.toBool]
    · cases a.insertFault with
      | none => simp [hid, hrelay, Except.isOk, Except.toBool]
      | some err => simp [hid, hrelay, Except.isOk, Except.toBool]

theorem recordProgress_counted_none (s : Ingest) :
    s.recordProgress w a clock relayURL (counted w relayURL none) = s.checkpoints := by
  simp [counted, Ingest.recordProgress]

theorem handleInsert_effects (e : Event) (rawJSON : Option Json) (s : Ingest) :
    (handleInsert w a clock relayURL e rawJSON s).2.checkpoints =
        s.recordProgress w a clock relayURL
          (counted w relayURL ((Route.insert e).recorded a clock relayURL s)) ∧
      (handleInsert w a clock relayURL e rawJSON s).2.attempts =
        ⟨relayURL, e, insertSucceeds a relayURL e⟩ :: s.attempts := by
  have hok := insertCanonicalEventWithResult_isOk a clock relayURL s.store e rawJSON
  unfold handleInsert
  cases hi : s.store.insertCanonicalEventWithResult a.insertFault e rawJSON relayURL
      (a.seenAt clock) with
  | error err =>
    rw [hi] at hok
    simp [Route.recorded, ← hok, Except.isOk, Except.toBool, recordProgress_counted_none]
  | ok r =>
    rw [hi] at hok
    simp only [Route.recorded, ← hok, Except.isOk, Except.toBool, if_true]
    rw [checkpoints_onSuccess (fun _ => by cases r.1 <;> rfl), checkpoints_mark,
      attempts_onSuccess (fun _ => by cases r.1 <;> rfl), attempts_mark]
    exact ⟨rfl, rfl⟩

theorem handleCached_effects (probe : DedupProbe) (pubkey : String) (refreshed : DedupCache)
    (s : Ingest) : (handleCached w a clock relayURL probe pubkey refreshed s).2.checkpoints =
        s.recordProgress w a clock relayURL
          (counted w relayURL ((Route.cached probe pubkey refreshed).recorded a clock relayURL s)) ∧
      (handleCached w a clock relayURL probe pubkey refreshed s).2.attempts = s.attempts := by
  unfold handleCached Route.recorded provenanceStored
  dsimp only [Ingest.observe]
  cases s.store.insertEventRelayProvenance a.provenanceFault probe.id relayURL (a.seenAt clock)
      pubkey with
  | error err => simp [Except.isOk, Except.toBool, recordProgress_counted_none]
  | ok store =>
    simp only [Except.isOk, Except.toBool, if_true]
    rw [checkpoints_onSuccess (f := Ingest.countDuplicate) fun _ => rfl, checkpoints_mark,
      attempts_onSuccess (f := Ingest.countDuplicate) fun _ => rfl, attempts_mark]
    exact ⟨rfl, rfl⟩

theorem handleInvalid_effects (err : ValidationError) (rawJSON : Option Json) (s : Ingest) :
    (handleInvalid a clock relayURL err rawJSON s).2.checkpoints = s.checkpoints ∧
      (handleInvalid a clock relayURL err rawJSON s).2.attempts = s.attempts := by
  unfold handleInvalid
  cases a.invalidFault with
  | none => exact ⟨rfl, rfl⟩
  | some e => exact ⟨rfl, rfl⟩

theorem handle_effects (payload : Payload) (s : Ingest) :
    (handle w a clock relayURL payload s).2.checkpoints =
        s.recordProgress w a clock relayURL (progress w a clock relayURL payload s) ∧
      (handle w a clock relayURL payload s).2.attempts =
        ((route w a clock relayURL payload s.dedup).attempted.map fun e =>
          InsertAttempt.mk relayURL e (insertSucceeds a relayURL e)).toList ++ s.attempts := by
  unfold handle progress
  cases route w a clock relayURL payload s.dedup with
  | cached probe pubkey refreshed => exact handleCached_effects w a clock relayURL _ _ _ s
  | invalid err =>
    simp only [Route.recorded, recordProgress_counted_none]
    exact handleInvalid_effects a clock relayURL err _ s
  | blocked e => exact ⟨checkpoints_mark .., attempts_mark ..⟩
  | census e =>
    cases hc : a.censusFault with
    | some err => simp [Route.recorded, hc, recordProgress_counted_none, Ingest.observe,
        Route.attempted]
    | none =>
      simp only [Route.recorded, hc, Option.isNone_none, if_true]
      exact ⟨checkpoints_mark .., attempts_mark ..⟩
  | gated e => exact ⟨checkpoints_mark .., attempts_mark ..⟩
  | expired e => exact ⟨checkpoints_mark .., attempts_mark ..⟩
  | insert e => exact handleInsert_effects w a clock relayURL e _ (s.observe e.pubkey)

end NostrMash.Live
