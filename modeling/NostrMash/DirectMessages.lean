import NostrMash.CursorScan
import NostrMash.KeyedTable
import NostrMash.ReadCommitted
import NostrMash.ReplaceableState

/-!
# Unread direct messages

`ProjectDMUnreadCounts` recomputes the unread counters of a kind-4 event: for each receiver the one
of the sender and the one of all senders. A deletion recomputes those of its target.
-/

namespace NostrMash.DirectMessages
open AuthorStats ReadCommitted Replaceable

section

structure StoredEvent extends EventContent where
  trimmed : trimSpace pubkey = pubkey
  nonblank : pubkey ≠ ""

def pValues (e : EventContent) : List String :=
  ((expandEventTags e.kind e.tags).filter fun tag => tag.tagName = "p" ∧ tag.valueIndex = 0).map
    (·.value)

def receivers (e : EventContent) : List String :=
  normalizeUniqueIDs (((pValues e).map trimSpace).filter (· ≠ ""))

def deletionTarget (e : EventContent) : Option String :=
  ((deriveETagReferences e.tags).map fun ref => trimSpace ref.id).find? (· ≠ "")

structure Cursor where
  lastReadCreatedAt : ℤ
  lastReadEventID : String
  deriving DecidableEq

structure Deletion where
  eventID : String
  deleterPubkey : String
  targetEventID : String
  deriving DecidableEq

structure CounterRow where
  cnt : ℕ
  latestAt : ℤ
  latestEventID : String
  deriving DecidableEq

/-- Counters are keyed by the receiver and the sender; the sender of all is blank. -/
structure Tables where
  events : KeyedTable String StoredEvent
  deletions : List Deletion
  counters : KeyedTable (String × String) CounterRow

def isAfter (cursor : Option Cursor) (id : String) (e : EventContent) : Bool :=
  match cursor with
  | none => true
  | some c => c.lastReadCreatedAt < e.createdAt ∨
      (e.createdAt = c.lastReadCreatedAt ∧ c.lastReadEventID < id)

def deletedByAuthor (T : Tables) (id : String) (e : EventContent) : Bool :=
  T.deletions.any fun d => d.targetEventID = id ∧ d.deleterPubkey = e.pubkey

structure UnreadRow where
  id : String
  createdAt : ℤ
  deriving DecidableEq

/-- `user_pubkey` and `peer_pubkey` are the keys of the cursors. -/
abbrev Cursors := String → String → Option Cursor

variable (cursors : Cursors)

def isUnread (T : Tables) (receiver sender : String) (id : String) (e : EventContent) : Bool :=
  e.kind = 4 ∧ e.pubkey ≠ receiver ∧ (sender = "" ∨ e.pubkey = sender) ∧
    deletedByAuthor T id e = false ∧ isAfter (cursors receiver e.pubkey) id e = true

/-- The join has a row for each tag that names the receiver. -/
def unread (T : Tables) (receiver sender : String) : List UnreadRow :=
  T.events.rows.flatMap fun row =>
    if isUnread cursors T receiver sender row.1 row.2.toEventContent then
      ((pValues row.2.toEventContent).filter (· = receiver)).map fun _ => ⟨row.1, row.2.createdAt⟩
    else []

def counterRow (found : List UnreadRow) : CounterRow :=
  let latest := greatest (fun row => toLex (row.createdAt, row.id)) found
  { cnt := found.length
    latestAt := (latest.map (·.createdAt)).getD 0
    latestEventID := (latest.map (·.id)).getD "" }

end

section

inductive Write where
  | recordDeletion (d : Deletion)
  | upsertCounter (receiver sender : String) (row : CounterRow)

/-- The content of an event does not change: a deletion that is recorded again has the same row. -/
def Write.apply (T : Tables) : Write → Tables
  | .recordDeletion d => { T with deletions := T.deletions.insert d }
  | .upsertCounter receiver sender row =>
    { T with counters := T.counters.upsert (receiver, sender) row fun _ => row }

inductive Lock where
  | deletion (eventID : String)
  | counter (receiver sender : String)
  deriving DecidableEq

def Write.lock : Write → Lock
  | .recordDeletion d => .deletion d.eventID
  | .upsertCounter receiver sender _ => .counter receiver sender

def schema : Schema Tables Write Lock := ⟨Write.apply, Write.lock⟩

/-- The message whose counters are recomputed, by its own projection or by that of a deletion. -/
structure Job where
  id : String
  message : StoredEvent
  projects : Bool

/-- Where a transaction is. -/
inductive Phase where
  | idle
  | deletionRecorded (target : String)
  | targetMissing (target : String)
  | targetOther (target : String)
  | next (job : Job) (todo : List String)
  | pairCounted (job : Job) (receiver : String) (todo : List String) (found : List UnreadRow)
  | pairWritten (job : Job) (receiver : String) (todo : List String)
  | allCounted (job : Job) (receiver : String) (todo : List String) (found : List UnreadRow)

/-- `projected` lists the messages whose projection has come to its end. -/
structure State (τ : Type) where
  db : Session τ Tables Write Phase
  projected : List String

inductive Act (τ : Type) where
  | store (id : String) (e : StoredEvent)
  | project (t : τ) (eventID : String)
  | projectDeletion (t : τ) (eventID : String)
  | loadTarget (t : τ)
  | countPair (t : τ)
  | writePair (t : τ)
  | countAll (t : τ)
  | writeAll (t : τ)
  | commit (t : τ)
  | rollback (t : τ)

variable {τ : Type} [DecidableEq τ] (cursors : Cursors)

def State.goto (s : State τ) (t : τ) (p : Phase) : State τ := { s with db := s.db.goto t p }

def State.write (s : State τ) (t : τ) (ws : List Write) (p : Phase) : Option (State τ) :=
  (s.db.write schema t ws p).map fun db => { s with db := db }

/-- The receivers whose counters are recomputed. -/
def Job.receivers (job : Job) : List String :=
  (DirectMessages.receivers job.message.toEventContent).filter (· ≠ job.message.pubkey)

def startProjection (s : State τ) (t : τ) (id : String) : Option (State τ) :=
  match s.db.committed.events.get id with
  | none => none
  | some e =>
    if id = "" ∨ e.kind ≠ 4 then none
    else if receivers e.toEventContent = [] then some { s with projected := id :: s.projected }
    else some (s.goto t (.next ⟨id, e, true⟩ (Job.receivers ⟨id, e, true⟩)))

def startDeletion (s : State τ) (t : τ) (id : String) : Option (State τ) :=
  match s.db.committed.events.get id with
  | none => none
  | some e =>
    match deletionTarget e.toEventContent with
    | none => none
    | some target =>
      if id = "" ∨ e.kind ≠ 5 then none
      else s.write t [.recordDeletion ⟨id, e.pubkey, target⟩] (.deletionRecorded target)

def loadTarget (T : Tables) (target : String) : Phase :=
  match T.events.get target with
  | none => .targetMissing target
  | some e =>
    if e.kind ≠ 4 then .targetOther target
    else .next ⟨target, e, false⟩ (Job.receivers ⟨target, e, false⟩)

/-- An event is stored with its tags at once. -/
def step (s : State τ) : Act τ → Option (State τ)
  | .store id e =>
    if id ∈ s.db.committed.events.keys then none
    else some { s with db := { s.db with committed := { s.db.committed with
      events := s.db.committed.events.upsert id e fun _ => e } } }
  | .project t eventID =>
    match s.db.phase t with
    | .idle => startProjection s t (trimSpace eventID)
    | _ => none
  | .projectDeletion t eventID =>
    match s.db.phase t with
    | .idle => startDeletion s t (trimSpace eventID)
    | _ => none
  | .loadTarget t =>
    match s.db.phase t with
    | .deletionRecorded target => some (s.goto t (loadTarget (s.db.view schema t) target))
    | _ => none
  | .countPair t =>
    match s.db.phase t with
    | .next job (receiver :: todo) =>
      some (s.goto t (.pairCounted job receiver todo
        (unread cursors (s.db.view schema t) receiver job.message.pubkey)))
    | _ => none
  | .writePair t =>
    match s.db.phase t with
    | .pairCounted job receiver todo found =>
      s.write t [.upsertCounter receiver job.message.pubkey (counterRow found)]
        (.pairWritten job receiver todo)
    | _ => none
  | .countAll t =>
    match s.db.phase t with
    | .pairWritten job receiver todo =>
      some (s.goto t (.allCounted job receiver todo
        (unread cursors (s.db.view schema t) receiver "")))
    | _ => none
  | .writeAll t =>
    match s.db.phase t with
    | .allCounted job receiver todo found =>
      s.write t [.upsertCounter receiver "" (counterRow found)] (.next job todo)
    | _ => none
  | .commit t =>
    match s.db.phase t with
    | .targetMissing _ | .targetOther _ => some { s with db := s.db.commit schema t .idle }
    | .next job [] =>
      some { db := s.db.commit schema t .idle
             projected := if job.projects then job.id :: s.projected else s.projected }
    | _ => none
  | .rollback t => some { s with db := s.db.rollback t .idle }

def init (deletions : List Deletion) : State τ where
  db := Session.start ⟨.empty, deletions, .empty⟩ .idle
  projected := []

end

variable {τ : Type} (cursors : Cursors)

def cnt (T : Tables) (receiver sender : String) : ℕ :=
  ((T.counters.get (receiver, sender)).map (·.cnt)).getD 0

def messages (T : Tables) (receiver sender : String) : List (String × StoredEvent) :=
  T.events.rows.filter fun row =>
    row.2.kind = 4 ∧ row.2.pubkey = sender ∧ receiver ∈ pValues row.2.toEventContent ∧
      deletedByAuthor T row.1 row.2.toEventContent = false ∧
      isAfter (cursors receiver sender) row.1 row.2.toEventContent = true

def senders (T : Tables) (receiver : String) : List String :=
  (T.events.rows.map (·.2.pubkey)).dedup.filter (· ≠ receiver)

def Exact (T : Tables) : Prop :=
  ∀ receiver, trimSpace receiver = receiver → receiver ≠ "" →
    (∀ sender, sender ≠ "" → sender ≠ receiver →
      cnt T receiver sender = (messages cursors T receiver sender).length) ∧
    cnt T receiver "" = ((senders T receiver).map (cnt T receiver)).sum

/-- All transactions have ended and all messages that are stored have been projected. -/
def State.Quiet (s : State τ) : Prop :=
  (∀ t, s.db.phase t = .idle) ∧
    ∀ row ∈ s.db.committed.events.rows, row.2.kind = 4 → row.1 ∈ s.projected

def Touches (e : EventContent) (receiver sender : String) : Prop :=
  e.kind = 4 ∧ receiver ∈ receivers e ∧ receiver ≠ e.pubkey ∧ (sender = "" ∨ sender = e.pubkey)

def Phase.Counting (receiver sender : String) : Phase → Prop
  | .pairCounted job r _ _ => r = receiver ∧ job.message.pubkey = sender
  | .allCounted _ r _ _ => r = receiver ∧ "" = sender
  | _ => False

/-- No message names a receiver twice. -/
def Settled (s : State τ) : Act τ → Prop
  | .store _ e => e.kind = 4 → (pValues e.toEventContent).Nodup ∧
      ∀ t receiver sender, (s.db.phase t).Counting receiver sender →
        ¬ Touches e.toEventContent receiver sender
  | .commit t =>
    match s.db.phase t with
    | .targetMissing target => s.db.committed.events.get target = none
    | .next job [] => job.projects = false → ∀ u ≠ t, ∀ receiver sender,
        (s.db.phase u).Counting receiver sender →
          ¬ Touches job.message.toEventContent receiver sender
    | _ => True
  | _ => True

end NostrMash.DirectMessages
