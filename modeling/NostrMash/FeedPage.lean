import Mathlib
import NostrMash.EventActionPaging
import NostrMash.TopRows

/-!
# Feed pages

`getFeedEvents` reads one page of the events of some authors, or of all. Without authors it is one
query. Up to 400 authors it merges the first events of each author, and with more of them the first
events of each chunk of 400 authors.
-/

namespace NostrMash.Feed
open KeysetPaging
open ReadStore (actionLimit)

structure FeedEvent where
  id : String
  pubkey : String
  kind : ℤ
  createdAt : ℤ
  rawJSON : String
  deriving DecidableEq

def FeedEvent.key (e : FeedEvent) : ℤ ×ₗ String := toLex (e.createdAt, e.id)

structure FeedTables where
  events : List FeedEvent
  /-- The child identifiers of `thread_edges`. -/
  threadChildren : List String
  /-- The notes of `note_discovery_stats` with an image. -/
  imageNotes : List String
  /-- `event_id` and `expires_at` of `event_attributes`. -/
  attributes : List (String × Option ℤ)
  now : ℤ
  /-- The `id` and `created_at` that `encoding/json` reads in a stored event. -/
  payload : String → String × ℤ
  events_key : (events.map (·.id)).Nodup
  payload_rawJSON : ∀ e ∈ events, payload e.rawJSON = (e.id, e.createdAt)

structure FeedOptions where
  since : ℤ
  untilTime : ℤ
  includeReplies : Bool
  onlyReplies : Bool
  hasImage : Bool
  deriving DecidableEq

def authorFeedChunkSize : ℕ := 400

section
variable (t : FeedTables) (o : FeedOptions)

def FeedTables.isReply (e : FeedEvent) : Bool := e.id ∈ t.threadChildren

def FeedTables.eventStillLive (e : FeedEvent) : Bool :=
  !t.attributes.any fun row => row.1 = e.id && row.2.any (· ≤ t.now)

def FeedTables.isImage (e : FeedEvent) : Bool :=
  e.kind ∈ [20, 21, 22, 34235, 34236] || e.id ∈ t.imageNotes

def inSpan (e : FeedEvent) : Bool := o.since ≤ e.createdAt && e.createdAt ≤ o.untilTime

def globalRows (kinds : List ℤ) : List FeedEvent :=
  t.events.filter fun e =>
    e.kind ∈ kinds && t.eventStillLive e && inSpan o e &&
    (o.onlyReplies && t.isReply e || !o.onlyReplies && o.includeReplies ||
      !o.onlyReplies && !o.includeReplies && !t.isReply e) &&
    (!o.hasImage || t.isImage e)

def feedVisibility (e : FeedEvent) : Bool :=
  (if o.onlyReplies then t.isReply e else if !o.includeReplies then !t.isReply e else true) &&
    t.eventStillLive e && (if o.hasImage then t.isImage e else true)

def collectKinds : List ℤ → List ℤ → List ℤ
  | [], out => out
  | kind :: kinds, out =>
    if kind < 0 ∨ kind > 65535 then collectKinds kinds out
    else if kind ∈ out then collectKinds kinds out
    else if out.length + 1 = 8 then out ++ [kind]
    else collectKinds kinds (out ++ [kind])

def feedKindLiterals (kinds : List ℤ) : List ℤ :=
  if kinds = [] then [1]
  else if collectKinds kinds [] = [] then [1]
  else collectKinds kinds []

def kindRows (author : String) (kind : ℤ) : List FeedEvent :=
  t.events.filter fun e =>
    e.pubkey = author && e.kind = kind && inSpan o e && feedVisibility t o e

end

variable (t : FeedTables) (o : FeedOptions)

def authorFeedPage (authors : List String) (kinds : List ℤ) (limit offset innerLimit : ℕ) :
    List String :=
  let branch (author : String) (kind : ℤ) : List (ℤ ×ₗ String) :=
    (descending id ((kindRows t o author kind).map FeedEvent.key)).take innerLimit
  let page (author : String) : List (ℤ ×ₗ String) :=
    (descending id ((feedKindLiterals kinds).flatMap (branch author))).take innerLimit
  let chosen := ((descending id (authors.flatMap page)).drop offset).take limit
  let joined := chosen.flatMap fun c =>
    (t.events.filter (·.id = (ofLex c).2)).map fun e => (c, e.rawJSON)
  (descending Prod.fst joined).map Prod.snd

def queryAuthorFeed (authors : List String) (kinds : List ℤ) (limit offset : ℕ) : List String :=
  authorFeedPage t o authors kinds limit offset (min (limit + offset) 100)

def chunkLoop (size : ℕ) (values : List String) : List (List String) :=
  if values = [] ∨ size = 0 then [] else values.take size :: chunkLoop size (values.drop size)
termination_by values.length
decreasing_by
  simp only [not_or] at *
  have := List.length_pos_iff.mpr ‹_ ∧ _›.1
  simp only [List.length_drop]
  omega

def chunkStrings (values : List String) (size : ℕ) : List (List String) :=
  chunkLoop (if size = 0 then values.length else size) values

def rawKey (raw : String) : ℤ ×ₗ String := toLex ((t.payload raw).2, (t.payload raw).1)

def mergeAuthorFeedPages (pages : List (List String)) (limit offset : ℕ) : List String :=
  ((descending (rawKey t) pages.flatten).drop offset).take limit

def getAuthorFeedEvents (authors : List String) (kinds : List ℤ) (limit offset : ℕ) :
    List String :=
  if authors.length ≤ authorFeedChunkSize then queryAuthorFeed t o authors kinds limit offset
  else
    mergeAuthorFeedPages t
      ((chunkStrings authors authorFeedChunkSize).map fun chunk =>
        queryAuthorFeed t o chunk kinds (min (limit + offset) 100) 0)
      limit offset

def FeedOptions.normalized (o : FeedOptions) : FeedOptions :=
  if o.untilTime ≤ 0 then { o with untilTime := 2 ^ 62 } else o

def feedOffset (offset : ℤ) : ℕ :=
  if offset < 0 then 0 else if offset > 10000 then 10000 else offset.toNat

def getFeedEvents (authors : List String) (kinds : List ℤ) (limit offset : ℤ) : List String :=
  let kinds := if kinds = [] then [1] else kinds
  let limit := actionLimit limit
  let offset := feedOffset offset
  let o := o.normalized
  if authors = [] then
    (((descending FeedEvent.key (globalRows t o kinds)).drop offset).take limit).map (·.rawJSON)
  else getAuthorFeedEvents t o authors kinds limit offset

end NostrMash.Feed
