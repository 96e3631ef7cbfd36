import NostrMash.Validator

/-!
# The tables of stored events

`events` holds one row for each stored event and `event_relays` the relays it was seen on.
-/

namespace NostrMash.Live
open Nostr

structure EventRow where
  pubkey : String
  createdAt : ℤ
  kind : ℤ
  sig : String
  content : String
  rawJSON : Option Json
  firstSeenAt : ℤ
  insertedAt : ℤ

structure RelaySighting where
  seenAt : ℤ
  pubkey : String

@[ext] structure EventStore where
  events : String → Option EventRow
  /-- By event identifier and relay URL. -/
  eventRelays : String → String → Option RelaySighting
  foreign_key : ∀ id relay, (eventRelays id relay).isSome → (events id).isSome

namespace EventStore

def empty : EventStore :=
  { events := fun _ => none, eventRelays := fun _ _ => none, foreign_key := by simp }

def seen (old : Option RelaySighting) (seenAt : ℤ) (pubkey : String) : RelaySighting :=
  { seenAt := old.elim seenAt fun row => min row.seenAt seenAt, pubkey := pubkey }

def upsertRelay (s : EventStore) (id relay : String) (seenAt : ℤ) (pubkey : String)
    (h : (s.events id).isSome) : EventStore where
  events := s.events
  eventRelays := Function.update s.eventRelays id
    (Function.update (s.eventRelays id) relay (some (seen (s.eventRelays id relay) seenAt pubkey)))
  foreign_key i r hi := by
    by_cases he : i = id
    · exact he ▸ h
    · rw [Function.update_of_ne he] at hi
      exact s.foreign_key i r hi

def upsertEvent (s : EventStore) (id : String) (row : EventRow) : EventStore where
  events := Function.update s.events id
    (some ((s.events id).elim row fun old =>
      { old with firstSeenAt := min old.firstSeenAt row.firstSeenAt }))
  eventRelays := s.eventRelays
  foreign_key i r hi := by
    by_cases he : i = id
    · simp [he]
    · rw [Function.update_of_ne he]
      exact s.foreign_key i r hi

theorem isSome_upsertEvent (s : EventStore) (id : String) (row : EventRow) :
    ((s.upsertEvent id row).events id).isSome := by
  simp [upsertEvent]

def delete (s : EventStore) (purged : String → Bool) : EventStore where
  events id := if purged id then none else s.events id
  eventRelays id relay := if purged id then none else s.eventRelays id relay
  foreign_key id relay h := by
    cases hp : purged id with
    | true => simp [hp] at h
    | false => exact s.foreign_key id relay (by simpa [hp] using h)

/-- One transaction. -/
def insertCanonicalEventWithResult (s : EventStore) (fault : Option String) (e : Event)
    (rawJSON : Option Json) (relayURL : String) (seenAt : ℤ) : Except String (Bool × EventStore) :=
  if trimSpace e.id = "" then .error "event id is required"
  else if trimSpace relayURL = "" then .error "relay url is required"
  else
    match fault with
    | some err => .error err
    | none =>
      let row : EventRow :=
        { pubkey := e.pubkey, createdAt := e.createdAt, kind := e.kind, sig := e.sig,
          content := e.content, rawJSON := rawJSON, firstSeenAt := seenAt, insertedAt := seenAt }
      .ok ((s.events e.id).isNone,
        (s.upsertEvent e.id row).upsertRelay e.id relayURL seenAt e.pubkey
          (s.isSome_upsertEvent e.id row))

def insertEventRelayProvenance (s : EventStore) (fault : Option String) (eventID relayURL : String)
    (seenAt : ℤ) (pubkey : String) : Except String EventStore :=
  if trimSpace eventID = "" then .error "event id is required"
  else if trimSpace relayURL = "" then .error "relay url is required"
  else
    match fault with
    | some err => .error ("upsert event relay provenance: " ++ err)
    | none =>
      if h : (s.events eventID).isSome then .ok (s.upsertRelay eventID relayURL seenAt pubkey h)
      else .error "upsert event relay provenance: event_relays_event_id_fkey"

end EventStore
end NostrMash.Live
