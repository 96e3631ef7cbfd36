import NostrMash.CursorScan
import NostrMash.KeyedTable
import Mathlib.Data.Prod.Lex
import Mathlib.Data.String.Basic

/-!
# The candidate index of the untrusted-author purge

`syncUntrustedPurgeCandidates` pages the events of authors outside the trust snapshot into an
index, so that the purge never has to compare all events with the snapshot.
-/

namespace NostrMash.UntrustedPurge

def untrustedPurgeKinds : List ℤ :=
  [1, 4, 5, 8, 9, 11, 20, 21, 22, 1063, 1068, 1984, 1985, 9041, 9802,
    10000, 10001, 10003, 10006, 10007, 10009, 10012, 10015, 10019, 10030, 10050, 10063,
    30000, 30002, 30004, 30005, 30008, 30009, 30015, 30023, 30311, 30315, 34235, 34236]

def untrustedPurgePageSize : ℕ := 2000

def unix (t : ℤ) : ℤ := t / 1000000

def toTimestamp (seconds : ℤ) : ℤ := seconds * 1000000

structure EventRow where
  pubkey : String
  kind : ℤ
  createdAt : ℤ
  firstSeenAt : ℤ
  deriving DecidableEq

structure DeferredRow extends EventRow where
  eligibleAt : ℤ
  deriving DecidableEq

abbrev Cursor : Type := ℤ ×ₗ String

def seenKey (e : String × EventRow) : Cursor := toLex (e.2.firstSeenAt, e.1)

def createdKey (e : String × EventRow) : Cursor := toLex (e.2.createdAt, e.1)

def resyncStart : Cursor := toLex (-1, "")

def kindStart : Cursor := toLex (0, "")

structure Tables where
  events : KeyedTable String EventRow
  /-- The `child_event_id` column of `thread_edges`. -/
  threadEdges : List String
  snapshot : List String

structure Index where
  candidates : KeyedTable String EventRow
  deferred : KeyedTable String DeferredRow
  /-- The mirror of the snapshot as the last diff found it. -/
  trustedPubkeys : List String
  authorResync : KeyedTable String Cursor
  kindCursor : ℤ → Cursor

def Tables.IsReply (T : Tables) (id : String) (row : EventRow) : Prop :=
  row.kind = 1 ∧ id ∈ T.threadEdges

instance (T : Tables) (id : String) (row : EventRow) : Decidable (T.IsReply id row) :=
  inferInstanceAs (Decidable (_ ∧ _))

def Tables.eligible (T : Tables) (page : List (String × EventRow)) : List (String × EventRow) :=
  page.filter fun e => e.2.pubkey ∉ T.snapshot ∧ ¬ T.IsReply e.1 e.2

namespace Index

/-- Rows that have aged become candidates, the others are deferred until they have. -/
def record (ix : Index) (rows : List (String × EventRow)) (aged : EventRow → Bool) : Index :=
  { ix with
    candidates := ix.candidates.insertAll (rows.filter fun e => aged e.2)
    deferred := ix.deferred.insertAll ((rows.filter fun e => !aged e.2).map fun e =>
      (e.1, { e.2 with eligibleAt := max e.2.firstSeenAt (toTimestamp e.2.createdAt) })) }

def dropResync (ix : Index) (pubkey : String) : Index :=
  { ix with authorResync := ix.authorResync.delete fun p _ => p = pubkey }

def advanceResync (ix : Index) (pubkey : String) (cursor : Cursor) : Index :=
  { ix with authorResync := ix.authorResync.update (fun p _ => p = pubkey) fun _ => cursor }

def advanceKind (ix : Index) (kind : ℤ) (cursor : Cursor) : Index :=
  { ix with kindCursor := Function.update ix.kindCursor kind cursor }

def nextResync (ix : Index) : Option (String × Cursor) :=
  (scan Prod.fst 1 ix.authorResync.rows).head?

end Index

section
variable (T : Tables) (ix : Index) (olderThan : ℤ)

def diffUntrustedTrustMirror : Index :=
  let removed := ix.trustedPubkeys.filter fun p => p ∉ T.snapshot
  { ix with
    authorResync := ix.authorResync.insertAll (removed.map fun p => (p, resyncStart))
    candidates := ix.candidates.delete fun _ c => c.pubkey ∈ T.snapshot
    deferred := ix.deferred.delete fun _ d => d.pubkey ∈ T.snapshot
    trustedPubkeys := (ix.trustedPubkeys.filter fun p => p ∈ T.snapshot) ++
      T.snapshot.filter fun p => p ∉ ix.trustedPubkeys }

def resyncUntrustedAuthorPage (pubkey : String) (cursor : Cursor) : List (String × EventRow) :=
  scan createdKey untrustedPurgePageSize (T.events.rows.filter fun e =>
    e.2.pubkey = pubkey ∧ e.2.kind ∈ untrustedPurgeKinds ∧ cursor < createdKey e)

def resyncUntrustedAuthor (pubkey : String) (cursor : Cursor) : Index :=
  let page := resyncUntrustedAuthorPage T pubkey cursor
  let ix := ix.record (T.eligible page) fun e =>
    e.createdAt < unix olderThan ∧ e.firstSeenAt < olderThan
  if page.length < untrustedPurgePageSize then ix.dropResync pubkey
  else
    match page.getLast? with
    | none => ix
    | some last => ix.advanceResync pubkey (createdKey last)

def dueDeferred : List (String × DeferredRow) :=
  scan (fun d => (toLex (d.2.eligibleAt, d.1) : Cursor)) untrustedPurgePageSize
    (ix.deferred.rows.filter fun d => d.2.eligibleAt ≤ olderThan)

def promotedDeferred : List (String × EventRow) :=
  ((dueDeferred ix olderThan).map fun d => (d.1, d.2.toEventRow)).filter fun d =>
    T.snapshot ≠ [] ∧ d.2.pubkey ∉ T.snapshot ∧ d.2.createdAt < unix olderThan ∧
      d.2.firstSeenAt < olderThan ∧ ¬ T.IsReply d.1 d.2 ∧ ix.candidates.get d.1 = none

def dropsDeferred (id : String) (d : DeferredRow) : Bool :=
  (id, d) ∈ dueDeferred ix olderThan ∧ T.snapshot ≠ [] ∧
    (id ∈ (promotedDeferred T ix olderThan).map Prod.fst ∨ (ix.candidates.get id).isSome ∨
      d.pubkey ∈ T.snapshot ∨ T.IsReply id d.toEventRow)

def promoteDeferredUntrusted : Index × ℕ :=
  ({ ix with
      candidates := ix.candidates.insertAll (promotedDeferred T ix olderThan)
      deferred := ix.deferred.delete (dropsDeferred T ix olderThan) },
    ix.deferred.rows.countP fun d => dropsDeferred T ix olderThan d.1 d.2)

def backfillPage (kind : ℤ) : List (String × EventRow) :=
  scan seenKey untrustedPurgePageSize (T.events.rows.filter fun e =>
    e.2.kind = kind ∧ ix.kindCursor kind < seenKey e ∧ e.2.firstSeenAt < olderThan)

/-- Nothing is written when the page is empty. -/
def backfillUntrustedKindPage (kind : ℤ) : Option (Index × Bool) :=
  let page := backfillPage T ix olderThan kind
  let rows := if T.snapshot = [] then [] else T.eligible page
  page.getLast?.map fun last =>
    ((ix.record rows fun e => e.createdAt < unix olderThan).advanceKind kind (seenKey last),
      page.length = untrustedPurgePageSize)

end

inductive Stage where
  | diff
  | resync
  | promote
  | backfill (kinds : List ℤ)

inductive Position where
  /-- `untrustedSnapshotPresent` -/
  | check (stage : Stage)
  /-- The first statement of a stage after its check. -/
  | enter (stage : Stage)
  /-- The transaction of `resyncOneUntrustedAuthor` has loaded a queue row. -/
  | resyncTrust (pubkey : String) (cursor : Cursor)
  | resyncPage (pubkey : String) (cursor : Cursor)
  /-- Everything of the transaction is written. -/
  | commit (pending : Index) (next : Stage)

structure Sync where
  olderThan : ℤ
  position : Position

def Sync.loop (olderThan : ℤ) : Stage → Option Sync
  | .backfill [] => none
  | stage => some ⟨olderThan, .check stage⟩

def syncUntrustedPurgeCandidates (T : Tables) (ix : Index) (olderThan : ℤ) :
    Position → Index × Option Sync
  | .check stage => (ix, if T.snapshot = [] then none else some ⟨olderThan, .enter stage⟩)
  | .enter .diff => (diffUntrustedTrustMirror T ix, Sync.loop olderThan .resync)
  | .enter .resync =>
    (ix, match ix.nextResync with
      | none => Sync.loop olderThan .promote
      | some (pubkey, cursor) => some ⟨olderThan, .resyncTrust pubkey cursor⟩)
  | .resyncTrust pubkey cursor =>
    (ix, some ⟨olderThan, if pubkey ∈ T.snapshot then .commit (ix.dropResync pubkey) .resync
      else .resyncPage pubkey cursor⟩)
  | .resyncPage pubkey cursor =>
    (ix, some ⟨olderThan, .commit (resyncUntrustedAuthor T ix olderThan pubkey cursor) .resync⟩)
  | .enter .promote =>
    let (promoted, n) := promoteDeferredUntrusted T ix olderThan
    (promoted, Sync.loop olderThan
      (if n < untrustedPurgePageSize then .backfill untrustedPurgeKinds else .promote))
  | .enter (.backfill []) => (ix, none)
  | .enter (.backfill (kind :: kinds)) =>
    (ix, match backfillUntrustedKindPage T ix olderThan kind with
      | none => Sync.loop olderThan (.backfill kinds)
      | some (pending, full) =>
        some ⟨olderThan, .commit pending (.backfill (if full then kind :: kinds else kinds))⟩)
  | .commit pending next => (pending, Sync.loop olderThan next)

structure State where
  tables : Tables
  index : Index
  sync : Option Sync

def init : State where
  tables := ⟨.empty, [], []⟩
  index := ⟨.empty, .empty, [], .empty, fun _ => kindStart⟩
  sync := none

inductive Action where
  | replaceSnapshot (pubkeys : List String)
  | insertEvent (id : String) (row : EventRow)
  | linkReply (id : String)
  | startSync (olderThan : ℤ)
  | advance
  /-- The sync ends early, and an open transaction is rolled back. -/
  | stop

def Tables.insertEvent (T : Tables) (id : String) (row : EventRow) : Tables :=
  { T with
    events := T.events.upsert id row fun old =>
      { old with firstSeenAt := min old.firstSeenAt row.firstSeenAt } }

def step (s : State) : Action → Option State
  | .replaceSnapshot pubkeys => some { s with tables := { s.tables with snapshot := pubkeys } }
  | .insertEvent id row => some { s with tables := s.tables.insertEvent id row }
  | .linkReply id =>
    some { s with tables := { s.tables with threadEdges := id :: s.tables.threadEdges } }
  -- A second caller finds the advisory lock taken and returns.
  | .startSync olderThan =>
    some { s with sync := s.sync.or (some ⟨olderThan, .check .diff⟩) }
  | .advance => s.sync.map fun y =>
    let (index, sync) := syncUntrustedPurgeCandidates s.tables s.index y.olderThan y.position
    { s with index, sync }
  | .stop => some { s with sync := none }

/-- Every stored event that the cursor of its kind has passed and that should be purged is in the
index, or will be found again through the resync queue or the mirror. -/
def Complete (s : State) : Prop :=
  ∀ id row, s.tables.events.get id = some row → row.kind ∈ untrustedPurgeKinds →
    s.tables.snapshot ≠ [] → row.pubkey ∉ s.tables.snapshot → ¬ s.tables.IsReply id row →
    seenKey (id, row) ≤ s.index.kindCursor row.kind →
    (s.index.candidates.get id).isSome ∨ (s.index.deferred.get id).isSome ∨
      (∃ cursor, s.index.authorResync.get row.pubkey = some cursor ∧
        cursor ≤ createdKey (id, row)) ∨
      row.pubkey ∈ s.index.trustedPubkeys

end NostrMash.UntrustedPurge
