import NostrMash.FollowerDeltas
import NostrMash.ReplaceableState

/-!
# Reversal of profile statistics

A retention purge reverses the statistics of each event of a batch and deletes the events, all in
one transaction.
-/

namespace NostrMash.ContactLists
open AuthorStats KeyedTable Replaceable

/-- An event with its NIP-40 expiration and with the media that its content has. -/
structure RetainedEvent extends EventContent where
  hasImage : Bool
  hasVideo : Bool
  expiresAt : Option ℤ

structure ZapReceipt where
  senderPubkey : String
  receiverPubkey : Option String
  amountSats : ℤ

structure StatTables where
  tables : Tables
  replaceableState : KeyedTable Address Winner

/-- The source of every edge is stored. -/
structure Store where
  events : KeyedTable String RetainedEvent
  zapReceipts : KeyedTable String ZapReceipt
  stats : StatTables
  edge_source : ∀ row ∈ stats.tables.edges.rows, row.2.sourceEventID ∈ events.keys

def StatTables.mapProfiles (S : StatTables)
    (f : KeyedTable String ProfileStats → KeyedTable String ProfileStats) : StatTables :=
  { S with tables := { S.tables with profiles := f S.tables.profiles } }

def updateProfile (pubkey : String) (f : ProfileStats → ProfileStats)
    (T : KeyedTable String ProfileStats) : KeyedTable String ProfileStats :=
  T.update (fun k _ => k = pubkey) f

def profileMediaDelta (e : RetainedEvent) : ℤ :=
  if e.kind = 20 ∨ e.kind = 21 ∨ e.kind = 22 then 1
  else if e.kind = 1 then
    if e.hasImage || e.hasVideo then 1
    else if (expandEventTags e.kind e.tags).any fun tag => toLower tag.tagName = "imeta" then 1
    else 0
  else 0

def adjustProfileZapCounters (pubkey : String) (receivedDelta satsDelta sentDelta : ℤ)
    (T : KeyedTable String ProfileStats) : KeyedTable String ProfileStats :=
  if receivedDelta = 0 ∧ satsDelta = 0 ∧ sentDelta = 0 then T
  else
    T.upsert pubkey
      { zapReceivedCount := max receivedDelta 0, satsZapped := max satsDelta 0
        contentZapCount := max sentDelta 0 }
      fun row => { row with
        zapReceivedCount := max (row.zapReceivedCount + receivedDelta) 0
        satsZapped := max (row.satsZapped + satsDelta) 0
        contentZapCount := max (row.contentZapCount + sentDelta) 0 }

def applyZapProfileCounters (zapReceipts : KeyedTable String ZapReceipt)
    (eventID eventPubkey : String) (sign : ℤ) (T : KeyedTable String ProfileStats) :
    KeyedTable String ProfileStats :=
  match zapReceipts.get eventID with
  | none => T
  | some receipt =>
    let stored := trimSpace receipt.senderPubkey
    let sender := if stored = "" then trimSpace eventPubkey else stored
    match receipt.receiverPubkey.filter (· ≠ "") with
    | none => adjustProfileZapCounters sender 0 0 sign T
    | some receiver =>
      if receiver = sender then
        adjustProfileZapCounters sender sign (receipt.amountSats * sign) sign T
      else
        adjustProfileZapCounters receiver sign (receipt.amountSats * sign) 0
          (adjustProfileZapCounters sender 0 0 sign T)

def reverseIfCurrent (kinds : List ℕ) (eventID pubkey : String)
    (decrement : ProfileStats → ProfileStats) (S : StatTables) : StatTables :=
  if S.replaceableState.rows.any fun row => row.2.eventID = eventID ∧ row.1.kind ∈ kinds then
    { S with
      replaceableState := S.replaceableState.delete fun A row =>
        row.eventID = eventID ∧ A.kind ∈ kinds }.mapProfiles (updateProfile pubkey decrement)
  else S

def reverseLongFormIfCurrent (eventID pubkey : String) (S : StatTables) : StatTables :=
  reverseIfCurrent [30023] eventID pubkey
    (fun row => { row with longFormNoteCount := max (row.longFormNoteCount - 1) 0 }) S

def reverseAddressableMediaIfCurrent (eventID pubkey : String) (S : StatTables) : StatTables :=
  reverseIfCurrent [34235, 34236] eventID pubkey
    (fun row => { row with mediaCount := max (row.mediaCount - 1) 0 }) S

def oldestCreatedAt (events : KeyedTable String RetainedEvent) (pubkey : String)
    (p : String → Bool) : Option ℤ :=
  ((events.rows.filter fun row => row.2.pubkey = pubkey ∧ p row.1).map (·.2.createdAt)).min?

def unapplyProfileDeltas (events : KeyedTable String RetainedEvent)
    (zapReceipts : KeyedTable String ZapReceipt) (eventID : String) (e : RetainedEvent)
    (T : KeyedTable String ProfileStats) : KeyedTable String ProfileStats :=
  let isReply := replyTarget e.toEventContent ≠ ""
  let noteDelta : ℤ := if e.kind = 1 ∧ ¬ isReply then -1 else 0
  let replyDelta : ℤ := if e.kind = 1 ∧ isReply then -1 else 0
  let T := updateProfile e.pubkey (fun row => { row with
    noteCount := max (row.noteCount + noteDelta) 0
    replyCount := max (row.replyCount + replyDelta) 0
    mediaCount := max (row.mediaCount - profileMediaDelta e) 0 }) T
  let T := T.update (fun k row => k = e.pubkey ∧ row.timeJoined = some e.createdAt) fun row =>
    { row with timeJoined := oldestCreatedAt events e.pubkey (· ≠ eventID) }
  if e.kind = 9735 then applyZapProfileCounters zapReceipts eventID e.pubkey (-1) T else T

def reverseIncrementalProfilePublicStats (events : KeyedTable String RetainedEvent)
    (zapReceipts : KeyedTable String ZapReceipt) (eventID : String) (e : RetainedEvent)
    (S : StatTables) : StatTables :=
  let row := (eventID, StatDelta.profilePublicStats)
  let S :=
    if row ∈ S.tables.appliedStatDeltas then
      { S with tables := { S.tables with
        appliedStatDeltas := S.tables.appliedStatDeltas.filter (· ≠ row) } }.mapProfiles
          (unapplyProfileDeltas events zapReceipts eventID e)
    else S
  let S := if e.kind = 30023 then reverseLongFormIfCurrent eventID e.pubkey S else S
  if e.kind = 34235 ∨ e.kind = 34236 then reverseAddressableMediaIfCurrent eventID e.pubkey S
  else S

def reverseIncrementalAuthorStats (events : KeyedTable String RetainedEvent)
    (zapReceipts : KeyedTable String ZapReceipt) (S : StatTables) (eventID : String) :
    StatTables :=
  if trimSpace eventID = "" then S
  else
    match events.get (trimSpace eventID) with
    | none => S
    | some e => reverseIncrementalProfilePublicStats events zapReceipts (trimSpace eventID) e S

def refreshProfileTimeJoined (events : KeyedTable String RetainedEvent) (pubkeys : List String)
    (T : KeyedTable String ProfileStats) : KeyedTable String ProfileStats :=
  pubkeys.foldl (fun T pubkey =>
    let minCreated := oldestCreatedAt events pubkey fun _ => true
    T.update (fun k row => k = pubkey ∧ row.timeJoined ≠ minCreated) fun row =>
      { row with timeJoined := minCreated }) T

def cascade {κ ρ : Type} (ids : List String) (source : κ → ρ → String) (T : KeyedTable κ ρ) :
    KeyedTable κ ρ :=
  T.delete fun k row => source k row ∈ ids

def Store.deleteEventsByID (S : Store) (ids : List String) (stats : StatTables)
    (h : stats.tables.edges = S.stats.tables.edges) : Store where
  events := cascade ids (fun id _ => id) S.events
  zapReceipts := cascade ids (fun id _ => id) S.zapReceipts
  stats :=
    { tables := { stats.tables with
        latest := cascade ids (fun _ row => row.eventID) stats.tables.latest
        edges := cascade ids (fun _ row => row.sourceEventID) stats.tables.edges }
      replaceableState := cascade ids (fun _ row => row.eventID) stats.replaceableState }
  edge_source := by
    rintro ⟨k, row⟩ hrow
    obtain ⟨hmem, hkept⟩ := List.mem_filter.mp hrow
    rw [h] at hmem
    obtain ⟨e, he⟩ := Option.isSome_iff_exists.mp (mem_keys.mp (S.edge_source _ hmem))
    rw [mem_keys, Option.isSome_iff_exists]
    exact ⟨e, (get_delete _).mpr ⟨he, by simpa using hkept⟩⟩

variable {events : KeyedTable String RetainedEvent} {zapReceipts : KeyedTable String ZapReceipt}
  {S : StatTables}

theorem edges_reverseIfCurrent (kinds : List ℕ) (eventID pubkey : String)
    (decrement : ProfileStats → ProfileStats) :
    (reverseIfCurrent kinds eventID pubkey decrement S).tables.edges = S.tables.edges := by
  unfold reverseIfCurrent
  split_ifs <;> rfl

theorem edges_reverseIncrementalAuthorStats (eventID : String) :
    (reverseIncrementalAuthorStats events zapReceipts S eventID).tables.edges = S.tables.edges := by
  unfold reverseIncrementalAuthorStats
  split_ifs with hblank
  · rfl
  · cases events.get (trimSpace eventID) with
    | none => rfl
    | some e =>
      simp only [reverseIncrementalProfilePublicStats, reverseLongFormIfCurrent,
        reverseAddressableMediaIfCurrent, apply_ite StatTables.tables, apply_ite Tables.edges,
        edges_reverseIfCurrent]
      split_ifs <;> rfl

theorem edges_reverseAll (ids : List String) :
    (ids.foldl (reverseIncrementalAuthorStats events zapReceipts) S).tables.edges =
      S.tables.edges := by
  induction ids generalizing S with
  | nil => rfl
  | cons id ids ih => rw [List.foldl_cons, ih, edges_reverseIncrementalAuthorStats]

def Store.mapProfiles (S : Store)
    (f : KeyedTable String ProfileStats → KeyedTable String ProfileStats) : Store where
  events := S.events
  zapReceipts := S.zapReceipts
  stats := S.stats.mapProfiles f
  edge_source := S.edge_source

def Store.authors (S : Store) (ids : List String) : List String :=
  ((S.events.rows.filter fun row => row.1 ∈ ids).map (·.2.pubkey)).dedup

def reverseAndDelete (S : Store) (ids : List String) : Store :=
  if ids = [] then S
  else
    let reversed := ids.foldl (reverseIncrementalAuthorStats S.events S.zapReceipts) S.stats
    let left := S.deleteEventsByID ids reversed (edges_reverseAll ids)
    left.mapProfiles (refreshProfileTimeJoined left.events (S.authors ids))

def selectExpiredNIP40 (S : Store) (expiresBefore : ℤ) (limit : ℕ) : List String :=
  let expired := S.events.rows.filterMap fun row =>
    (row.2.expiresAt.filter (· < expiresBefore)).map fun t => toLex (t, row.1)
  ((expired.insertionSort (· ≤ ·)).take limit).map fun key => (ofLex key).2

def purgeExpiredNIP40Events (S : Store) (expiresBefore : Option ℤ) (limit : ℤ) :
    Except String Store :=
  if limit ≤ 0 then .error "limit must be > 0"
  else
    match expiresBefore with
    | none => .error "expiresBefore is required"
    | some t => .ok (reverseAndDelete S (selectExpiredNIP40 S t limit.toNat))

end NostrMash.ContactLists
