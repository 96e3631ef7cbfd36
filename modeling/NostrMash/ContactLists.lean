import NostrMash.AuthorStats
import NostrMash.KeyedTable

/-!
# Contact lists

`ProjectContactListsLatest` keeps the latest kind-3 event of each author and one row of
`follower_edges` for each pubkey on it.
-/

namespace NostrMash.ContactLists
open AuthorStats

/-- The table of events. -/
structure EventTable where
  content : String → Option EventContent
  pubkey_hex : ∀ {id e}, content id = some e → isLowerHex e.pubkey 64 = true

def contacts (tags : List Tag) : List String :=
  normalizeUniqueIDs (tags.filterMap fun tag =>
    match tag with
    | "p" :: value :: _ => if trimSpace value = "" then none else some (trimSpace value)
    | _ => none)

structure LatestRow where
  eventID : String
  createdAt : ℤ
  contacts : List String
  deriving DecidableEq

structure EdgeRow where
  sourceEventID : String
  contactListCreatedAt : ℤ
  deriving DecidableEq

structure ProfileStats where
  followerCount : ℤ := 0
  followingCount : ℤ := 0
  trustedFollowerCount : ℤ := 0
  noteCount : ℤ := 0
  replyCount : ℤ := 0
  recentActivityAt : Option ℤ := none
  longFormNoteCount : ℤ := 0
  mediaCount : ℤ := 0
  zapReceivedCount : ℤ := 0
  satsZapped : ℤ := 0
  contentZapCount : ℤ := 0
  timeJoined : Option ℤ := none
  deriving DecidableEq

inductive StatDelta where
  | profilePublicStats
  | followerCounts
  | followerGainEvents
  deriving DecidableEq

instance : LawfulBEq (String × StatDelta) := inferInstance

/-- Edges are keyed by the followed pubkey and the follower, as are gains and losses. -/
structure Tables where
  latest : KeyedTable String LatestRow
  edges : KeyedTable (String × String) EdgeRow
  profiles : KeyedTable String ProfileStats
  appliedStatDeltas : List (String × StatDelta)
  followerGainEvents : KeyedTable (String × String) ℤ
  followerLossEvents : KeyedTable (String × String) ℤ
  pendingProfileStatsRecomputes : KeyedTable String ℤ

def Tables.empty : Tables where
  latest := .empty
  edges := .empty
  profiles := .empty
  appliedStatDeltas := []
  followerGainEvents := .empty
  followerLossEvents := .empty
  pendingProfileStatsRecomputes := .empty

/-- What a call reads beside the tables: the clock in Unix seconds, the weighting options and
`min_hops` of the pubkeys in `trust_pubkeys_latest`. -/
structure Environment where
  now : ℤ
  untrustedWeightPositive : Bool
  maxHops : ℤ
  minHops : String → Option (Option ℤ)

def pubkeySet (pubkeys : List String) : List String :=
  ((pubkeys.map trimSpace).filter (· ≠ "")).dedup

structure FollowerDelta where
  follower : ℤ
  following : ℤ
  trustedFollower : ℤ
  deriving DecidableEq

def FollowerDelta.add (d e : FollowerDelta) : FollowerDelta :=
  ⟨d.follower + e.follower, d.following + e.following, d.trustedFollower + e.trustedFollower⟩

abbrev Deltas := KeyedTable String FollowerDelta

def bump (deltas : Deltas) (pubkey : String) (d : FollowerDelta) : Deltas :=
  if trimSpace pubkey = "" then deltas else deltas.upsert (trimSpace pubkey) d (·.add d)

def bumpEdge (author : String) (trustedStep sign : ℤ) (deltas : Deltas) (followed : String) :
    Deltas :=
  let trustedDelta := if followed ≠ author then trustedStep else 0
  bump (bump deltas author ⟨0, sign, 0⟩) followed ⟨sign, 0, sign * trustedDelta⟩

def edgeDeltas (author : String) (trustedStep : ℤ) (prev next : List String) : Deltas :=
  let gained := next.filter (· ∉ prev)
  let lost := prev.filter (· ∉ next)
  lost.foldl (bumpEdge author trustedStep (-1))
    (gained.foldl (bumpEdge author trustedStep 1) .empty)

def FollowerDelta.insert (d : FollowerDelta) : ProfileStats :=
  { followerCount := max d.follower 0, followingCount := max d.following 0
    trustedFollowerCount := max d.trustedFollower 0 }

def FollowerDelta.update (d : FollowerDelta) (row : ProfileStats) : ProfileStats :=
  { row with
    followerCount := max (row.followerCount + d.follower) 0
    followingCount := max (row.followingCount + d.following) 0
    trustedFollowerCount := max (row.trustedFollowerCount + d.trustedFollower) 0 }

def writtenDeltas (deltas : Deltas) : List (String × FollowerDelta) :=
  (deltas.rows.insertionSort fun d e => d.1 ≤ e.1).filter fun d => d.2 ≠ ⟨0, 0, 0⟩

def followerInTrustedAudience (env : Environment) (follower : String) : Bool :=
  if trimSpace follower = "" then false
  else if env.untrustedWeightPositive then true
  else
    match env.minHops (trimSpace follower) with
    | some (some hops) => decide (hops ≤ if env.maxHops ≤ 0 then 3 else env.maxHops)
    | _ => false

def applyFollowerCountDeltas (env : Environment) (eventID author : String)
    (previousFollowed contacts : List String) (S : Tables) : Tables :=
  if (eventID, .followerCounts) ∈ S.appliedStatDeltas then S
  else
    let trustedStep : ℤ := if followerInTrustedAudience env author then 1 else 0
    let deltas := edgeDeltas (trimSpace author) trustedStep (pubkeySet previousFollowed)
      (pubkeySet contacts)
    { S with
      appliedStatDeltas := (eventID, .followerCounts) :: S.appliedStatDeltas
      profiles := S.profiles.upsertAll (writtenDeltas deltas) FollowerDelta.insert
        FollowerDelta.update }

def historicalContactListGainSkipAge : ℤ := 168 * 3600

def recordFollowerGainEvents (env : Environment) (eventID author : String)
    (previousFollowed contacts : List String) (createdAt : ℤ) (S : Tables) : Tables :=
  if (eventID, .followerGainEvents) ∈ S.appliedStatDeltas then S
  else
    let S := { S with appliedStatDeltas := (eventID, .followerGainEvents) :: S.appliedStatDeltas }
    let prev := pubkeySet previousFollowed
    let next := pubkeySet contacts
    if prev = [] ∧ createdAt < env.now - historicalContactListGainSkipAge then S
    else
      let gained := next.filter fun followed => followed ≠ author ∧ followed ∉ prev
      let lost := prev.filter fun followed => followed ≠ author ∧ followed ∉ next
      { S with
        followerLossEvents := S.followerLossEvents.upsertAll
          (lost.map fun followed => ((followed, author), createdAt)) id fun lostAt _ => lostAt
        followerGainEvents := S.followerGainEvents.upsertAll
          (gained.map fun followed => ((followed, author), createdAt)) id
          fun _ gainedAt => gainedAt }

def LatestRow.Replaces (new old : LatestRow) : Prop :=
  old.createdAt < new.createdAt ∨ (new.createdAt = old.createdAt ∧ old.eventID ≤ new.eventID)

instance (new old : LatestRow) : Decidable (new.Replaces old) := inferInstanceAs (Decidable (_ ∨ _))

def Tables.followed (S : Tables) (author : String) : List String :=
  (S.edges.rows.filter fun row => row.1.2 = author).map fun row => row.1.1

def Tables.rewriteEdges (S : Tables) (author : String) (list : LatestRow) : Tables :=
  let edge : EdgeRow := ⟨list.eventID, list.createdAt⟩
  { S with
    edges := (S.edges.delete fun key _ => key.2 = author).upsertAll
      (((list.contacts.map trimSpace).filter (· ≠ "")).map fun followed =>
        ((followed, author), edge))
      id fun new _ => new }

def Tables.markDirty (S : Tables) (now : ℤ) (pubkeys : List String) : Tables :=
  { S with
    pendingProfileStatsRecomputes := S.pendingProfileStatsRecomputes.upsertAll
      ((normalizeUniqueIDs pubkeys).map fun pubkey => (pubkey, now)) id fun markedAt _ => markedAt }

def upsertContactList (env : Environment) (author : String) (list : LatestRow) (S : Tables) :
    Tables :=
  if (S.latest.get author).all fun old => list.Replaces old then
    let previousFollowed := S.followed author
    let S := { S with latest := S.latest.upsert author list fun _ => list }
    let S := S.rewriteEdges author list
    let S := recordFollowerGainEvents env list.eventID author previousFollowed list.contacts
      list.createdAt S
    let S := applyFollowerCountDeltas env list.eventID author previousFollowed list.contacts S
    S.markDirty env.now (author :: previousFollowed ++ list.contacts)
  else S

def projectReplaceableListLatest {σ : Type} (stored : EventTable) (requiredKind : ℕ)
    (derivationName : String) (upsert : String → EventContent → σ → σ) (S : σ)
    (eventID : String) : Except String σ :=
  if trimSpace eventID = "" then .error "event id is required"
  else
    match stored.content (trimSpace eventID) with
    | none => .error ("load event for " ++ derivationName ++ ": no rows in result set")
    | some e => if e.kind ≠ requiredKind then .ok S else .ok (upsert (trimSpace eventID) e S)

def projectContactListsLatest (stored : EventTable) (env : Environment) (S : Tables)
    (eventID : String) : Except String Tables :=
  projectReplaceableListLatest stored 3 "contact_lists_latest"
    (fun id e => upsertContactList env e.pubkey ⟨id, e.createdAt, contacts e.tags⟩) S eventID

def projectAll (stored : EventTable) (calls : List (Environment × String)) : Tables :=
  calls.foldl (fun S c => (projectContactListsLatest stored c.1 S c.2).toOption.getD S) .empty

end NostrMash.ContactLists
