import NostrMash.KeyedTable
import NostrMash.Validator

/-!
# The contact list crawl

For one public key the crawl asks relays for its contact list. Every payload is handed to the
processor, which validates and stores it.
-/

namespace NostrMash.ContactCrawl
open Nostr

/-- A Go slice. -/
structure Slice (α : Type) where
  cells : List α
  len : ℕ

namespace Slice

variable {α : Type}

def zero : Slice α := ⟨[], 0⟩

def elems (s : Slice α) : List α := s.cells.take s.len

def decodeInto (fresh : α) (decode : α → Json → Option α) (old : Slice α) :
    Json → Option (Slice α)
  | .null => some zero
  | .arr [] => some zero
  | .arr items =>
    (items.zipIdx.mapM fun p => decode (old.cells.getD p.2 fresh) p.1).map fun new =>
      ⟨new ++ old.cells.drop items.length, items.length⟩
  | _ => none

end Slice

def foldFieldName (key : String) : String :=
  String.ofList <| key.toList.map fun c =>
    if c.toNat = 0x17F then 's' else if c.toNat = 0x212A then 'k' else c.toLower

structure CrawlFields where
  kind : ℤ
  createdAt : ℤ
  tags : Slice (Slice String)

def decodeCrawlFields (doc : Json) : Option CrawlFields :=
  doc.decodeObject.bind fun fields => fields.foldlM
    (fun event field =>
      if foldFieldName field.1 = "kind" then
        (field.2.decodeInt64Into event.kind).map fun kind => { event with kind := kind }
      else if foldFieldName field.1 = "created_at" then
        (field.2.decodeInt64Into event.createdAt).map fun t => { event with createdAt := t }
      else if foldFieldName field.1 = "tags" then
        (event.tags.decodeInto .zero (Slice.decodeInto "" Json.decodeStringInto) field.2).map
          fun tags => { event with tags := tags }
      else some event)
    { kind := 0, createdAt := 0, tags := .zero }

structure ParsedCrawlEvent where
  createdAt : ℤ
  contacts : List String
  isContact : Bool

def pTagValue : Tag → Option String
  | key :: value :: _ => if key = "p" then some (trimSpace value) else none
  | _ => none

def crawlContacts (author : String) (tags : List Tag) : List String :=
  tags.foldl
    (fun contacts tag =>
      match pTagValue tag with
      | none => contacts
      | some pubkey =>
        if pubkey = author ∨ isLowerHex pubkey 64 = false then contacts
        else if pubkey ∈ contacts then contacts
        else contacts ++ [pubkey])
    []

def parseCrawlEvent (payload : Payload) (author : String) : Option ParsedCrawlEvent :=
  (payload.json.bind decodeCrawlFields).map fun event =>
    if event.kind ≠ 3 then { createdAt := event.createdAt, contacts := [], isContact := false }
    else
      { createdAt := event.createdAt
        contacts := crawlContacts author (event.tags.elems.map Slice.elems)
        isContact := true }

structure Delivery where
  payload : Payload
  fault : Option String

structure Page where
  events : List Delivery
  eoseSeen : Bool

structure RelayAnswer where
  cancelled : Option String
  page : Except String Page

structure Best where
  source : Payload
  parsed : ParsedCrawlEvent

def listOf (pubkey : String) (d : Delivery) : Option ParsedCrawlEvent :=
  (parseCrawlEvent d.payload pubkey).filter (·.isContact)

def choose (pubkey : String) (best : Option Best) (d : Delivery) : Option Best :=
  match listOf pubkey d with
  | none => best
  | some parsed =>
    if best.all fun b => b.parsed.createdAt ≤ parsed.createdAt then some ⟨d.payload, parsed⟩ else best

def readEvents (pubkey : String) (best : Option Best) (events : List Delivery) :
    Except String (Option Best) :=
  events.foldlM
    (fun best d =>
      match d.fault with
      | some err => .error err
      | none => .ok (choose pubkey best d))
    best

def walkRelays (pubkey : String) :
    List RelayAnswer → (lastErr : Option String) → (confirmedMiss : Bool) →
      Except String (Option Best)
  | [], lastErr, confirmedMiss =>
    if confirmedMiss then .ok none
    else .error (lastErr.getD ("no relay confirmed a missing contact list for " ++ pubkey))
  | answer :: rest, lastErr, confirmedMiss =>
    match answer.cancelled with
    | some err => .error err
    | none =>
      match answer.page with
      | .error err => walkRelays pubkey rest (some err) false
      | .ok page =>
        match readEvents pubkey none page.events with
        | .error err => .error err
        | .ok (some best) => .ok (some best)
        | .ok none => walkRelays pubkey rest lastErr (confirmedMiss && page.eoseSeen)

def fetchContactList (relays : List RelayAnswer) (pubkey : String) : Except String (Option Best) :=
  if trimSpace pubkey = "" then .error "pubkey is required"
  else if relays = [] then .error "no relays configured for contact list crawl"
  else walkRelays (trimSpace pubkey) relays none true

structure QueueRow where
  hop : ℤ
  nextEligibleAt : ℤ

abbrev Queue := KeyedTable String QueueRow

def uniqueCrawlPubkeys (pubkeys : List String) : List String :=
  pubkeys.foldl
    (fun out pubkey =>
      if trimSpace pubkey = "" ∨ trimSpace pubkey ∈ out then out else out ++ [trimSpace pubkey])
    []

def enqueueContactListCrawl (now : ℤ) (queue : Queue) (pubkeys : List String)
    (hop maxPending : ℤ) : Queue :=
  let room := maxPending - queue.rows.countP fun row => row.2.nextEligibleAt ≤ now
  if hop < 0 ∨ maxPending ≤ 0 ∨ room ≤ 0 then queue
  else
    let fresh := (uniqueCrawlPubkeys pubkeys).filter fun pubkey => (queue.get pubkey).isNone
    queue.insertAll ((fresh.take room.toNat).map fun pubkey => (pubkey, ⟨hop, now⟩))

structure CrawlConfig where
  maxHops : ℤ
  maxPending : ℤ

structure CrawlEntry where
  pubkey : String
  hop : ℤ

inductive Mark where
  | fetched (found : Bool)
  | failed (cause : String)

structure Crawled where
  /-- The contacts handed to the queue, and the payload they were decoded from. -/
  enqueued : List String
  source : Option Payload
  queue : Queue
  mark : Mark

structure CrawlAnswers where
  relays : List RelayAnswer
  enqueueFault : Option String
  now : ℤ

def crawlOneContactList (cfg : CrawlConfig) (queue : Queue) (entry : CrawlEntry)
    (answers : CrawlAnswers) : Crawled :=
  match fetchContactList answers.relays entry.pubkey with
  | .error err => ⟨[], none, queue, .failed err⟩
  | .ok none => ⟨[], none, queue, .fetched false⟩
  | .ok (some best) =>
    if entry.hop < cfg.maxHops ∧ best.parsed.contacts ≠ [] then
      match answers.enqueueFault with
      | some err => ⟨[], none, queue, .failed err⟩
      | none =>
        ⟨best.parsed.contacts, some best.source, enqueueContactListCrawl answers.now queue
          best.parsed.contacts (entry.hop + 1) cfg.maxPending, .fetched true⟩
    else ⟨[], none, queue, .fetched true⟩

end NostrMash.ContactCrawl
