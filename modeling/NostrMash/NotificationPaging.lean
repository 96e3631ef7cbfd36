import Mathlib
import NostrMash.BranchPaging
import NostrMash.EventActionPaging
import NostrMash.NotificationTables

/-!
# Pages of engagement notifications

`listEngagementNotifications` merges the branches of the query into one page, newest first. Each
branch is cut to one row more than the page before the merge removes repeated rows.
-/

namespace NostrMash.Notifications
open KeysetPaging List
open ReadStore (actionLimit actionLimit_pos actionLimit_eq)

structure NotificationCursor where
  createdAt : ℤ
  type : String
  actorPubkey : String
  eventID : String
  deriving DecidableEq

abbrev NotificationKey := ℤ ×ₗ String ×ₗ String ×ₗ String

def NotificationCursor.key (c : NotificationCursor) : NotificationKey :=
  toLex (c.createdAt, toLex (c.type, toLex (c.actorPubkey, c.eventID)))

namespace Notification

def cursor (n : Notification) : NotificationCursor :=
  { createdAt := n.createdAt, type := n.type.text, actorPubkey := n.actorPubkey,
    eventID := n.eventID }

def key (n : Notification) : NotificationKey := n.cursor.key

def branchKey (n : Notification) : ℤ ×ₗ String ×ₗ String :=
  toLex (n.createdAt, toLex (n.actorPubkey, n.eventID))

end Notification

def notificationCursorPredicate (cursor : Option NotificationCursor) (n : Notification) : Bool :=
  cursor.all fun c =>
    n.createdAt < c.createdAt ||
    (n.createdAt = c.createdAt && n.type.text < c.type) ||
    (n.createdAt = c.createdAt && n.type.text = c.type && n.actorPubkey < c.actorPubkey) ||
    (n.createdAt = c.createdAt && n.type.text = c.type && n.actorPubkey = c.actorPubkey &&
      n.eventID < c.eventID)

def notificationBranch (cursor : Option NotificationCursor) (rows : ℕ)
    (branch : List Notification) :
    List Notification :=
  (descending Notification.branchKey (branch.filter (notificationCursorPredicate cursor))).take rows

def engagementNotificationPage (t : Tables) (pubkey : String) (cursor : Option NotificationCursor)
    (rows : ℕ) : List Notification :=
  let merged := (t.branches pubkey).flatMap (notificationBranch cursor rows)
  (descending Notification.key (merged.filter (·.actorPubkey ≠ "")).dedup).take rows

def scan (n : Notification) : Option Notification :=
  let row := { n with actorPubkey := trimSpace n.actorPubkey, eventID := trimSpace n.eventID }
  if trimSpace n.type.text = "" ∨ row.actorPubkey = "" then none else some row

def usableCursor (cursor : Option NotificationCursor) : Option NotificationCursor :=
  cursor.filter fun c => trimSpace c.type ≠ "" && trimSpace c.actorPubkey ≠ ""

def listEngagementNotifications (t : Tables) (pubkey : String) (limit : ℤ)
    (cursor : Option NotificationCursor) :
    Except String (List Notification × Option NotificationCursor) :=
  let pubkey := trimSpace pubkey
  if pubkey = "" then .error "pubkey is required"
  else
    let limit := actionLimit limit
    let out :=
      (engagementNotificationPage t pubkey (usableCursor cursor) (limit + 1)).filterMap scan
    if limit < out.length then
      .ok (out.take limit, (out.take limit).getLast?.map Notification.cursor)
    else .ok (out, none)

def collect (t : Tables) (pubkey : String) (limit : ℤ) :
    ℕ → Option NotificationCursor → Option (List Notification)
  | 0, _ => none
  | n + 1, cursor =>
    match listEngagementNotifications t pubkey limit cursor with
    | .error _ => none
    | .ok (rows, none) => some rows
    | .ok (rows, some next) => (collect t pubkey limit n (some next)).map (rows ++ ·)

def notifications (t : Tables) (pubkey : String) : List Notification :=
  descending Notification.key (unionRows (t.branches pubkey) (·.actorPubkey ≠ ""))

section
variable {t : Tables} {pubkey : String} {limit : ℤ} {n : Notification}

theorem text_injective : Function.Injective NotificationType.text := by
  intro a b h
  cases a <;> cases b <;> first | rfl | exact nomatch h

theorem key_injective : Function.Injective Notification.key := by
  rintro ⟨type, createdAt, actor, event⟩ ⟨type', createdAt', actor', event'⟩ h
  simp only [Notification.key, Notification.cursor, NotificationCursor.key, toLex_inj,
    Prod.mk.injEq] at h
  obtain ⟨rfl, htype, rfl, rfl⟩ := h
  rw [text_injective htype]

theorem cursorPredicate_eq (cursor : Option NotificationCursor) :
    notificationCursorPredicate cursor =
      below Notification.key (cursor.map NotificationCursor.key) := by
  funext n
  cases cursor with
  | none => rfl
  | some c =>
    rw [Bool.eq_iff_iff]
    simp only [notificationCursorPredicate, below, Notification.key, Notification.cursor,
      NotificationCursor.key, Prod.Lex.toLex_lt_toLex, Option.all_some, Option.map_some,
      Bool.or_eq_true, Bool.and_eq_true, decide_eq_true_eq]
    tauto

theorem notificationBranch_eq {rows : List Notification} (h : rows ∈ t.branches pubkey)
    (cursor : Option NotificationCursor) (k : ℕ) :
    notificationBranch cursor k rows = (descending Notification.key
      (rows.filter (below Notification.key (cursor.map NotificationCursor.key)))).take k := by
  obtain ⟨type, htype⟩ := ofType_of_mem t h
  unfold notificationBranch
  rw [cursorPredicate_eq, descending_congr (fun a _ b _ h => key_injective h)]
  intro a ha b hb
  obtain ⟨createdAt, actor, event, rfl⟩ := htype a (mem_filter.mp ha).1
  obtain ⟨createdAt', actor', event', rfl⟩ := htype b (mem_filter.mp hb).1
  simp [Notification.branchKey, Notification.key, Notification.cursor, NotificationCursor.key,
    notification, Prod.Lex.toLex_le_toLex]

variable (t pubkey) in
def pageQuery (rows : ℕ) : Option NotificationKey → List Notification :=
  branchQuery Notification.key (t.branches pubkey) (·.actorPubkey ≠ "") rows

theorem engagementNotificationPage_eq (cursor : Option NotificationCursor) (rows : ℕ) :
    engagementNotificationPage t pubkey cursor (rows + 1) = (descending Notification.key
        (pageQuery t pubkey rows (cursor.map NotificationCursor.key))).take (rows + 1) := by
  unfold engagementNotificationPage pageQuery branchQuery
  rw [flatMap_congr fun branch hb => notificationBranch_eq hb cursor (rows + 1)]

theorem trimmed_of_mem {rows : ℕ} {cursor : Option NotificationKey}
    (h : n ∈ pageQuery t pubkey rows cursor) :
    trimSpace n.actorPubkey = n.actorPubkey ∧ trimSpace n.eventID = n.eventID ∧
      n.actorPubkey ≠ "" := by
  obtain ⟨⟨hmem, -⟩, -⟩ := (mem_branchQuery key_injective).mp h
  obtain ⟨hmem, hactor⟩ := mem_filter.mp (mem_dedup.mp hmem)
  obtain ⟨branch, hb, hn⟩ := mem_flatten.mp hmem
  obtain ⟨type, htype⟩ := ofType_of_mem t hb
  obtain ⟨createdAt, actor, event, rfl⟩ := htype n hn
  exact ⟨actor.trimmed, event.trimmed, by simpa using hactor⟩

theorem type_text_not_blank (type : NotificationType) : trimSpace type.text ≠ "" := by
  cases type <;> decide

theorem scan_eq {rows : ℕ} {cursor : Option NotificationKey}
    (h : n ∈ pageQuery t pubkey rows cursor) : scan n = some n := by
  obtain ⟨hactor, hevent, hne⟩ := trimmed_of_mem h
  simp [scan, hactor, hevent, hne, type_text_not_blank]

theorem usableCursor_eq {rows : ℕ} {cursor : Option NotificationKey}
    (h : n ∈ pageQuery t pubkey rows cursor) : usableCursor (some n.cursor) = some n.cursor := by
  obtain ⟨hactor, -, hne⟩ := trimmed_of_mem h
  simp [usableCursor, Notification.cursor, hactor, hne, type_text_not_blank]

def cursorOfKey (k : NotificationKey) : NotificationCursor :=
  { createdAt := (ofLex k).1, type := (ofLex (ofLex k).2).1,
    actorPubkey := (ofLex (ofLex (ofLex k).2).2).1, eventID := (ofLex (ofLex (ofLex k).2).2).2 }

theorem listEngagementNotifications_eq (hp : trimSpace pubkey ≠ "")
    (cursor : Option NotificationCursor) : listEngagementNotifications t pubkey limit cursor =
      .ok ((page Notification.key (pageQuery t (trimSpace pubkey) (actionLimit limit))
          (actionLimit limit) ((usableCursor cursor).map NotificationCursor.key)).1,
        (page Notification.key (pageQuery t (trimSpace pubkey) (actionLimit limit))
          (actionLimit limit) ((usableCursor cursor).map NotificationCursor.key)).2.map
            cursorOfKey) := by
  have hscan : ∀ n ∈ engagementNotificationPage t (trimSpace pubkey) (usableCursor cursor)
      (actionLimit limit + 1), scan n = some n := by
    intro n hn
    rw [engagementNotificationPage_eq] at hn
    exact scan_eq ((perm_descending _).mem_iff.mp (mem_of_mem_take hn))
  simp only [listEngagementNotifications, if_neg hp]
  rw [filterMap_congr hscan, filterMap_some, engagementNotificationPage_eq]
  simp only [page]
  split_ifs with hmore
  · rw [Option.map_map]
    rfl
  · rfl

theorem collect_eq (hp : trimSpace pubkey ≠ "") (m : ℕ) (cursor : Option NotificationCursor) :
    collect t pubkey limit m cursor =
      follow Notification.key (pageQuery t (trimSpace pubkey) (actionLimit limit))
        (actionLimit limit) m ((usableCursor cursor).map NotificationCursor.key) := by
  induction m generalizing cursor with
  | zero => rfl
  | succ m ih =>
    rw [collect, listEngagementNotifications_eq hp, follow]
    cases hpage : page Notification.key (pageQuery t (trimSpace pubkey) (actionLimit limit))
        (actionLimit limit) ((usableCursor cursor).map NotificationCursor.key) with
    | mk out next =>
      cases next with
      | none => rfl
      | some k =>
        obtain ⟨row, hrow, rfl⟩ := page_cursor (congrArg Prod.snd hpage)
        have hcursor : usableCursor (some (cursorOfKey row.key)) = some row.cursor :=
          usableCursor_eq hrow
        simp only [Option.map_some, ih, hcursor]
        rfl

/-- Following the cursors lists every notification exactly once and in order, after finitely many
pages, exactly when every page is reached. -/
theorem collect_notifications_iff (hp : trimSpace pubkey ≠ "") (hl : 0 < limit) :
    (∃ m, collect t pubkey limit m none = some (notifications t (trimSpace pubkey))) ↔
      ∀ number, PageReached Notification.key (t.branches (trimSpace pubkey)) (min limit 100).toNat
        (notifications t (trimSpace pubkey)) number := by
  simp only [collect_eq hp]
  rw [← actionLimit_eq hl]
  exact follow_branches_iff key_injective (actionLimit_pos limit)

theorem pageReached_of_branches_nodup (h : ∀ rows ∈ t.branches pubkey,
    rows.Nodup ∧ ∀ n ∈ rows, n.actorPubkey ≠ "") (limit number : ℕ) :
    PageReached Notification.key (t.branches pubkey) limit (notifications t pubkey) number := by
  refine pageReached_of_nodup key_injective (fun rows hrows => ?_) number
  exact ⟨(h rows hrows).1, fun n hn => decide_eq_true ((h rows hrows).2 n hn)⟩

end

def hexText (text : String) (h : isLowerHex text 64 = true) : TrimmedText :=
  { text := text, trimmed := trimSpace_of_isLowerHex h }

def aliceKey : String := "79be667ef9dcbbac55a06295ce870b07029bfcdb2dce28d959f2815b16f81798"

def bobKey : TrimmedText :=
  hexText "c6047f9441ed7d6d3045406e95c07cd85c778e4b8cef3ca7abac09b95c709ee5" (by decide)

def bobNotes : List EventRow :=
  [{ id := hexText "e493dbf1c10d80f3581e4904930b1404cc6c13900ee0758474fa94abe8c4cd13" (by decide)
     pubkey := bobKey, kind := 1, createdAt := 1700000060 },
   { id := hexText "2f8bde4d1a07209355b4a7250a5c5128e88b84bddc619ab7cba8d569b240efe4" (by decide)
     pubkey := bobKey, kind := 1, createdAt := 1700000000 }]

def aliceTags (later earlier : ℕ) : List EventTag :=
  let tag (note : String) (i : ℕ) : EventTag :=
    { eventID := note, tagName := "p", tagIndex := i, valueIndex := 0, value := aliceKey }
  (List.range later).map
      (tag "e493dbf1c10d80f3581e4904930b1404cc6c13900ee0758474fa94abe8c4cd13") ++
    (List.range earlier).map
      (tag "2f8bde4d1a07209355b4a7250a5c5128e88b84bddc619ab7cba8d569b240efe4")

def mentionTables (tags : List EventTag)
    (h : (tags.map fun t => (t.eventID, t.tagIndex, t.valueIndex)).Nodup) : Tables :=
  { events := bobNotes, reactionEvents := [], repostEvents := [], zapReceipts := []
    replyCountContributions := [], followerGainEvents := [], eventTags := tags
    eventReferences := [], authorRecentEvents := [], primalNotifications := []
    events_key := by decide, reactions_key := nodup_nil, reposts_key := nodup_nil
    zaps_key := nodup_nil, replies_key := by simp, gains_key := by simp
    tags_key := h, references_key := nodup_nil, recent_key := by simp
    notifications_key := nodup_nil }

def singleTags : Tables := mentionTables (aliceTags 1 1) (by decide)

def repeatedTags : Tables := mentionTables (aliceTags 2 1) (by decide)

theorem collect_singleTags : ∃ m, collect singleTags aliceKey 1 m none =
      some (notifications singleTags (trimSpace aliceKey)) :=
  (collect_notifications_iff (by decide) (by decide)).mpr
    (pageReached_of_branches_nodup (by decide) _)

theorem firstPage_repeatedTags :
    (listEngagementNotifications repeatedTags aliceKey 1 none).toOption.map
      (fun p => (p.1.length, p.2)) = some (1, none) := by
  decide

/-- The first page has no cursor, and the earlier note is never listed. -/
theorem repeated_tag_hides_mention :
    trimSpace aliceKey ≠ "" ∧ (notifications repeatedTags (trimSpace aliceKey)).length = 2 ∧
      ¬ ∃ m, collect repeatedTags aliceKey 1 m none =
        some (notifications repeatedTags (trimSpace aliceKey)) := by
  have hlen : (notifications repeatedTags (trimSpace aliceKey)).length = 2 := by decide
  refine ⟨by decide, hlen, ?_⟩
  rintro ⟨m, hm⟩
  cases m with
  | zero => cases hm
  | succ m =>
    have hfirst := firstPage_repeatedTags
    cases hp : listEngagementNotifications repeatedTags aliceKey 1 none with
    | error err => simp [hp, Except.toOption] at hfirst
    | ok p =>
      obtain ⟨rows, next⟩ := p
      obtain ⟨hrows, rfl⟩ : rows.length = 1 ∧ next = none := by
        simpa [hp, Except.toOption] using hfirst
      rw [collect, hp] at hm
      rw [← Option.some.inj hm] at hlen
      omega

end NostrMash.Notifications
