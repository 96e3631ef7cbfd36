import NostrMash.Text
import Mathlib.Data.Prod.Lex

/-!
# Engagement notifications

The tables from which the notifications of a pubkey are read, and the nine branches of the query:
likes, reposts, quotes, zaps, replies, new follows and mentions.
-/

namespace NostrMash.Notifications
open Option

/-- A text without surrounding white space, as the projections write pubkeys and event ids. -/
structure TrimmedText where
  text : String
  trimmed : trimSpace text = text
  deriving DecidableEq

structure EventRow where
  id : TrimmedText
  pubkey : TrimmedText
  kind : ℤ
  createdAt : ℤ
  deriving DecidableEq

structure ReactionRow where
  eventID : String
  targetEventID : TrimmedText
  reactorPubkey : TrimmedText
  createdAt : ℤ
  targetPubkey : Option String
  deriving DecidableEq

structure RepostRow where
  eventID : TrimmedText
  targetEventID : TrimmedText
  reposterPubkey : TrimmedText
  quote : Option String
  createdAt : ℤ
  targetPubkey : Option String
  deriving DecidableEq

structure ZapRow where
  zapReceiptID : String
  createdAt : ℤ
  eventID : Option TrimmedText
  senderPubkey : TrimmedText
  receiverPubkey : Option String
  deriving DecidableEq

structure ReplyRow where
  sourceEventID : TrimmedText
  targetEventID : String
  targetPubkey : Option String
  sourcePubkey : Option TrimmedText
  sourceCreatedAt : Option ℤ
  deriving DecidableEq

structure FollowerGain where
  followedPubkey : String
  followerPubkey : TrimmedText
  gainedAt : ℤ
  deriving DecidableEq

structure EventTag where
  eventID : String
  tagName : String
  tagIndex : ℤ
  valueIndex : ℤ
  value : String
  deriving DecidableEq

inductive Relation where
  | root
  | reply
  | mention
  deriving DecidableEq

structure EventReference where
  sourceEventID : String
  referencedEventID : String
  relation : Relation
  tagIndex : ℤ
  deriving DecidableEq

structure AuthorRecentEvent where
  authorPubkey : String
  eventID : String
  deriving DecidableEq

structure PrimalNotification where
  dedupeKey : String
  pubkey : String
  type : ℤ
  createdAt : ℤ
  whoRepostedIt : Option TrimmedText
  deriving DecidableEq

structure Tables where
  events : List EventRow
  reactionEvents : List ReactionRow
  repostEvents : List RepostRow
  zapReceipts : List ZapRow
  replyCountContributions : List ReplyRow
  followerGainEvents : List FollowerGain
  eventTags : List EventTag
  eventReferences : List EventReference
  authorRecentEvents : List AuthorRecentEvent
  primalNotifications : List PrimalNotification
  events_key : (events.map fun e => e.id.text).Nodup
  reactions_key : (reactionEvents.map fun r => r.eventID).Nodup
  reposts_key : (repostEvents.map fun r => r.eventID.text).Nodup
  zaps_key : (zapReceipts.map fun z => z.zapReceiptID).Nodup
  replies_key : (replyCountContributions.map fun c => (c.sourceEventID.text, c.targetEventID)).Nodup
  gains_key : (followerGainEvents.map fun g => (g.followedPubkey, g.followerPubkey.text)).Nodup
  tags_key : (eventTags.map fun t => (t.eventID, t.tagIndex, t.valueIndex)).Nodup
  references_key : (eventReferences.map fun r =>
    (r.sourceEventID, r.tagIndex, r.referencedEventID, r.relation)).Nodup
  recent_key : (authorRecentEvents.map fun a => (a.authorPubkey, a.eventID)).Nodup
  notifications_key : (primalNotifications.map fun n => n.dedupeKey).Nodup

inductive NotificationType where
  | like
  | repost
  | quote
  | zap
  | reply
  | follow
  | mention
  deriving DecidableEq

def NotificationType.text : NotificationType → String
  | like => "like"
  | repost => "repost"
  | quote => "quote"
  | zap => "zap"
  | reply => "reply"
  | follow => "follow"
  | mention => "mention"

structure Notification where
  type : NotificationType
  createdAt : ℤ
  actorPubkey : String
  eventID : String
  deriving DecidableEq

def btrim (s : String) : String :=
  String.ofList ((s.toList.dropWhile (· = ' ')).rdropWhile (· = ' '))

def splitPart (s : String) (n : ℕ) : String :=
  String.ofList ((s.toList.splitOn ':').getD (n - 1) [])

def notification (type : NotificationType) (createdAt : ℤ) (actor event : TrimmedText) :
    Notification :=
  { type := type, createdAt := createdAt, actorPubkey := actor.text, eventID := event.text }

def noEventID : TrimmedText := { text := "", trimmed := by decide }

namespace Tables

variable (t : Tables) (pubkey : String)

def likes : List Notification :=
  (t.reactionEvents.filter fun r =>
    r.targetPubkey = some pubkey && r.reactorPubkey.text ≠ pubkey).map fun r =>
      notification .like r.createdAt r.reactorPubkey r.targetEventID

def isQuote (r : RepostRow) : Bool := btrim (r.quote.getD "") ≠ ""

def repostsOf : List RepostRow :=
  t.repostEvents.filter fun r => r.targetPubkey = some pubkey && r.reposterPubkey.text ≠ pubkey

def plainReposts : List Notification :=
  ((t.repostsOf pubkey).filter fun r => !isQuote r).map fun r =>
    notification .repost r.createdAt r.reposterPubkey r.targetEventID

def quoteReposts : List Notification :=
  ((t.repostsOf pubkey).filter isQuote).map fun r =>
    notification .quote r.createdAt r.reposterPubkey r.eventID

def zaps : List Notification :=
  (t.zapReceipts.filter fun z =>
    z.receiverPubkey = some pubkey && z.senderPubkey.text ≠ pubkey).filterMap fun z =>
      z.eventID.map fun event => notification .zap z.createdAt z.senderPubkey event

def replies : List Notification :=
  (t.replyCountContributions.filter fun c => c.targetPubkey = some pubkey).filterMap fun c => do
    let source ← c.sourcePubkey
    let createdAt ← c.sourceCreatedAt
    if source.text = pubkey then none
    else some (notification .reply createdAt source c.sourceEventID)

def follows : List Notification :=
  (t.followerGainEvents.filter fun g => g.followedPubkey = pubkey).map fun g =>
    notification .follow g.gainedAt g.followerPubkey noEventID

def isReply (e : EventRow) : Bool :=
  t.replyCountContributions.any fun c =>
    c.sourceEventID.text = e.id.text && c.targetPubkey = some pubkey

def mentionsNote (e : EventRow) : Bool :=
  t.eventReferences.any fun er =>
    er.sourceEventID = e.id.text && er.relation = .mention &&
      t.authorRecentEvents.any fun recent =>
        recent.eventID = er.referencedEventID && recent.authorPubkey = pubkey

def mentions : List Notification :=
  (t.eventTags.filter fun tag =>
    tag.tagName = "p" && tag.valueIndex = 0 && tag.value = pubkey).flatMap
    fun tag => (t.events.filter fun e =>
      e.id.text = tag.eventID && e.pubkey.text ≠ pubkey && e.kind ∉ [3, 6, 7, 16, 9735] &&
        !t.isReply pubkey e && !t.mentionsNote pubkey e).map fun e =>
          notification .mention e.createdAt e.pubkey e.id

def isRepost (e : EventRow) : Bool := t.repostEvents.any fun r => r.eventID.text = e.id.text

def noteQuotes : List Notification :=
  (t.authorRecentEvents.filter fun recent => recent.authorPubkey = pubkey).flatMap fun recent =>
    (t.eventReferences.filter fun er =>
      er.referencedEventID = recent.eventID && er.relation = .mention).flatMap fun er =>
        (t.events.filter fun e =>
          e.id.text = er.sourceEventID && e.pubkey.text ≠ pubkey && !t.isRepost e).map fun e =>
            notification .quote e.createdAt e.pubkey e.id

def whoReposted (n : PrimalNotification) (src : EventRow) : TrimmedText :=
  (n.whoRepostedIt.filter fun who => who.text ≠ "").getD src.pubkey

def genericReposts : List Notification :=
  (t.primalNotifications.filter fun n => n.pubkey = pubkey && n.type = 5).flatMap fun n =>
    (t.events.filter fun src =>
      src.id.text = splitPart n.dedupeKey 3 && src.pubkey.text ≠ pubkey && !t.isRepost src).map
        fun src => notification .quote n.createdAt (whoReposted n src) src.id

def branches : List (List Notification) :=
  [t.likes pubkey, t.plainReposts pubkey, t.quoteReposts pubkey, t.zaps pubkey, t.replies pubkey,
    t.follows pubkey, t.mentions pubkey, t.noteQuotes pubkey, t.genericReposts pubkey]

end Tables

variable {α : Type*} {l : List α} {type : NotificationType}

def OfType (type : NotificationType) (rows : List Notification) : Prop :=
  ∀ n ∈ rows, ∃ createdAt actor event, n = notification type createdAt actor event

theorem ofType_map {createdAt : α → ℤ} {actor event : α → TrimmedText} :
    OfType type (l.map fun a => notification type (createdAt a) (actor a) (event a)) := by
  intro n hn
  obtain ⟨a, -, rfl⟩ := List.mem_map.mp hn
  exact ⟨_, _, _, rfl⟩

theorem ofType_flatMap {f : α → List Notification} (hf : ∀ a, OfType type (f a)) :
    OfType type (l.flatMap f) := by
  intro n hn
  obtain ⟨a, -, hn⟩ := List.mem_flatMap.mp hn
  exact hf a n hn

theorem ofType_filterMap {f : α → Option Notification}
    (hf : ∀ a, OfType type (f a).toList) : OfType type (l.filterMap f) := by
  intro n hn
  obtain ⟨a, -, hn⟩ := List.mem_filterMap.mp hn
  exact hf a n (mem_toList.mpr hn)

theorem ofType_of_mem (t : Tables) {pubkey : String} {rows : List Notification}
    (h : rows ∈ t.branches pubkey) : ∃ type, OfType type rows := by
  simp only [Tables.branches, List.mem_cons, List.not_mem_nil, or_false] at h
  rcases h with rfl | rfl | rfl | rfl | rfl | rfl | rfl | rfl | rfl
  · exact ⟨.like, ofType_map⟩
  · exact ⟨.repost, ofType_map⟩
  · exact ⟨.quote, ofType_map⟩
  · refine ⟨.zap, ofType_filterMap fun z n hn => ?_⟩
    obtain ⟨event, -, rfl⟩ := map_eq_some_iff.mp (mem_toList.mp hn)
    exact ⟨_, _, _, rfl⟩
  · refine ⟨.reply, ofType_filterMap fun c n hn => ?_⟩
    obtain ⟨source, -, hn⟩ := bind_eq_some_iff.mp (mem_toList.mp hn)
    obtain ⟨createdAt, -, hn⟩ := bind_eq_some_iff.mp hn
    split_ifs at hn
    exact ⟨_, _, _, (some.inj hn).symm⟩
  · exact ⟨.follow, ofType_map⟩
  · exact ⟨.mention, ofType_flatMap fun tag => ofType_map⟩
  · exact ⟨.quote, ofType_flatMap fun recent => ofType_flatMap fun er => ofType_map⟩
  · exact ⟨.quote, ofType_flatMap fun n => ofType_map⟩

end NostrMash.Notifications
