import NostrMash.KeysetPaging
import NostrMash.TiedPages

/-!
# Trending feeds of the Primal gateway

A trending page lists notes by a discovery score or by what they were zapped. The response carries
the rounded rank of its last note, and the client asks for the next page with this rank and an
offset of one.
-/

namespace NostrMash.Primal
open KeysetPaging List TiedPages

structure NoteStats where
  eventID : String
  authorPubkey : String
  createdAt : ℤ
  zapMSats : ℤ
  score24h : ℚ
  score7d : ℚ
  deriving DecidableEq

inductive ScoreColumn where
  | score24h
  | score7d
  deriving DecidableEq

/-- The tables a trending query reads. -/
structure TrendingTables where
  noteDiscoveryStats : List NoteStats
  eventKind : String → Option ℤ
  hasThreadEdge : String → Bool
  authorKnown : String → Bool
  nodup_ids : (noteDiscoveryStats.map NoteStats.eventID).Nodup

structure TrendingNote where
  note : NoteStats
  score : ℤ
  deriving DecidableEq

section
variable (byZaps : Bool) (column : ScoreColumn)

def roundHalfEven (x : ℚ) : ℤ :=
  if Int.fract x = 1 / 2 then (if ⌊x⌋ % 2 = 0 then ⌊x⌋ else ⌊x⌋ + 1) else round x

def orderColumn (n : NoteStats) : ℚ :=
  if byZaps then n.zapMSats
  else match column with
    | .score24h => n.score24h
    | .score7d => n.score7d

def scoreExpr (n : NoteStats) : ℤ :=
  if byZaps then round ((n.zapMSats : ℚ) / 1000) else roundHalfEven (orderColumn false column n)

def primalTrendingCursorValue (maxRank : ℤ) : ℚ :=
  if byZaps then ((maxRank : ℚ) + 1 / 2) * 1000 else (maxRank : ℚ) + 1 / 2

def listingKey (n : NoteStats) : ℚ ×ₗ ℤ ×ₗ Stringᵒᵈ :=
  toLex (orderColumn byZaps column n, toLex (n.createdAt, OrderDual.toDual n.eventID))

def TrendingTables.listed (T : TrendingTables) (minCreatedAt : ℤ) (n : NoteStats) : Bool :=
  minCreatedAt ≤ n.createdAt && T.eventKind n.eventID = some 1 &&
    !T.hasThreadEdge n.eventID && T.authorKnown n.authorPubkey && (!byZaps || 0 < n.zapMSats)

def getPrimalTrendingNotes (T : TrendingTables) (minCreatedAt limit offset : ℤ)
    (maxRank : Option ℤ) : List TrendingNote :=
  let limit := if limit ≤ 0 then 20 else min limit 100
  let offset := max offset 0
  let rows := T.noteDiscoveryStats.filter fun n => T.listed byZaps minCreatedAt n &&
    maxRank.all fun r => orderColumn byZaps column n < primalTrendingCursorValue byZaps r
  (((descending (listingKey byZaps column) rows).drop offset.toNat).take limit.toNat).map fun n =>
    { note := n, score := scoreExpr byZaps column n }

end

structure FeedPage where
  events : List String
  sinceScore : Option ℤ
  untilScore : Option ℤ
  deriving DecidableEq

structure FeedRequest where
  byZaps : Bool
  column : ScoreColumn
  minCreatedAt : ℤ
  kinds : List ℤ
  limit : ℤ
  untilScore : Option ℤ
  offset : ℤ

def TrendingTables.feedPage (T : TrendingTables) (kinds : List ℤ) (notes : List TrendingNote) :
    FeedPage where
  events := (notes.map fun n => n.note.eventID).filter fun id =>
    kinds = [] || (T.eventKind id).any (· ∈ kinds)
  sinceScore := notes.getLast?.map TrendingNote.score
  untilScore := notes.head?.map TrendingNote.score

/-- The notes behind a trending page. -/
def TrendingTables.scoredNotes (T : TrendingTables) (q : FeedRequest) : List TrendingNote :=
  let maxRank := q.untilScore.map fun cursor => max cursor 0
  let offset := if maxRank = none then 0 else min (max q.offset 0) 100
  getPrimalTrendingNotes q.byZaps q.column T q.minCreatedAt q.limit offset maxRank

def TrendingTables.scoredFeedPage (T : TrendingTables) (q : FeedRequest) : FeedPage :=
  T.feedPage q.kinds (T.scoredNotes q)

structure ZappedFeed where
  tables : TrendingTables
  column : ScoreColumn
  minCreatedAt : ℤ
  kinds : List ℤ
  limit : ℕ
  limit_pos : 0 < limit
  limit_le : limit ≤ 100

namespace ZappedFeed

variable (F : ZappedFeed)

def request (cursor : Option ℤ) : FeedRequest where
  byZaps := true
  column := F.column
  minCreatedAt := F.minCreatedAt
  kinds := F.kinds
  limit := F.limit
  untilScore := cursor
  offset := if cursor.isSome then 1 else 0

def pageAt : ℕ → FeedPage
  | 0 => F.tables.scoredFeedPage (F.request none)
  | n + 1 =>
    match (pageAt n).sinceScore with
    | none => { events := [], sinceScore := none, untilScore := none }
    | some cursor => F.tables.scoredFeedPage (F.request (some cursor))

def kindWanted : Bool := F.kinds = [] || 1 ∈ F.kinds

def qualifying : List NoteStats :=
  F.tables.noteDiscoveryStats.filter fun n => F.tables.listed true F.minCreatedAt n && F.kindWanted

def sats (n : NoteStats) : ℤ := round ((n.zapMSats : ℚ) / 1000)

def ShownBy (n : ℕ) : Prop :=
  ∀ note ∈ F.qualifying, ∃ m ≤ n, note.eventID ∈ (F.pageAt m).events

/-- The pages show every note, and none repeats the one before while notes are missing. -/
def PagesThroughEverything : Prop :=
  (∃ n, F.ShownBy n) ∧ ∀ n, (F.pageAt (n + 1)).events = (F.pageAt n).events → F.ShownBy n

/-- No more notes than fit a page share their rounded sats, except that the notes with the least
sats may be one more. -/
def FewTies : Prop :=
  ∀ note ∈ F.qualifying, (F.qualifying.countP fun n => sats n = sats note) ≤ F.limit ∨
    (F.qualifying.countP fun n => sats n ≤ sats note) ≤ F.limit + 1

end ZappedFeed

theorem lt_cursorValue_iff (n : NoteStats) (r : ℤ) (column : ScoreColumn) :
    orderColumn true column n < primalTrendingCursorValue true r ↔ ZappedFeed.sats n ≤ r := by
  simp only [orderColumn, primalTrendingCursorValue, if_true, ZappedFeed.sats, round_eq]
  rw [← Int.lt_add_one_iff, Int.floor_lt]
  push_cast
  constructor <;> intro h <;> linarith

variable {a b : NoteStats}

theorem sats_mono (h : a.zapMSats ≤ b.zapMSats) :
    ZappedFeed.sats a ≤ ZappedFeed.sats b := by
  have : (a.zapMSats : ℚ) ≤ b.zapMSats := by exact_mod_cast h
  unfold ZappedFeed.sats
  simp only [round_eq]
  exact Int.floor_le_floor (by linarith)

theorem listingKey_injOn (T : TrendingTables) (byZaps : Bool) (column : ScoreColumn) :
    (T.noteDiscoveryStats.map (listingKey byZaps column)).Nodup := by
  have hids := T.nodup_ids
  rw [List.Nodup, pairwise_map] at hids ⊢
  refine hids.imp fun hne heq => hne ?_
  simpa [listingKey] using congrArg (fun k => (ofLex (ofLex k).2).2) heq

namespace ZappedFeed

variable (F : ZappedFeed) {n : NoteStats}

def listing : List NoteStats :=
  descending (listingKey true F.column)
    (F.tables.noteDiscoveryStats.filter fun n => F.tables.listed true F.minCreatedAt n)

def trendingNote (n : NoteStats) : TrendingNote := { note := n, score := sats n }

theorem mem_listing : n ∈ F.listing ↔ n ∈ F.tables.noteDiscoveryStats ∧
      F.tables.listed true F.minCreatedAt n = true := by
  rw [listing, (perm_descending _).mem_iff, mem_filter]

theorem nodup_listing_map_key : (F.listing.map (listingKey true F.column)).Nodup := by
  have hsub := (filter_sublist (p := fun n => F.tables.listed true F.minCreatedAt n)
    (l := F.tables.noteDiscoveryStats)).map (listingKey true F.column)
  exact ((perm_descending _).map _).nodup_iff.mpr
    ((listingKey_injOn F.tables true F.column).sublist hsub)

theorem eventID_inj (ha : a ∈ F.listing) (hb : b ∈ F.listing) (h : a.eventID = b.eventID) : a = b :=
  inj_on_of_nodup_map F.tables.nodup_ids (F.mem_listing.mp ha).1 (F.mem_listing.mp hb).1 h

theorem pairwise_listing : F.listing.Pairwise fun a b => sats b ≤ sats a := by
  refine (pairwise_descending _).imp fun {a b} hab => sats_mono ?_
  have hle : orderColumn true F.column b ≤ orderColumn true F.column a :=
    (Prod.Lex.le_iff.mp hab).elim le_of_lt fun h => h.1.le
  simpa [orderColumn] using hle

theorem sats_nonneg (h : n ∈ F.listing) : 0 ≤ sats n := by
  have hzap : 0 < n.zapMSats := by
    have hl := (F.mem_listing.mp h).2
    simp only [TrendingTables.listed, Bool.and_eq_true, Bool.not_true, Bool.false_or,
      decide_eq_true_eq] at hl
    exact hl.2
  have h0 : sats { n with zapMSats := 0 } ≤ sats n := sats_mono hzap.le
  simpa [sats] using h0

theorem limit_clamped :
    (if (F.limit : ℤ) ≤ 0 then 20 else min (F.limit : ℤ) 100).toNat = F.limit := by
  have := F.limit_pos
  have := F.limit_le
  omega

theorem descending_below (r : ℤ) :
    descending (listingKey true F.column) (F.tables.noteDiscoveryStats.filter fun n =>
      F.tables.listed true F.minCreatedAt n && decide (sats n ≤ r)) =
      F.listing.filter fun n => sats n ≤ r := by
  refine descending_eq ?_ ((pairwise_descending _).sublist filter_sublist)
    (F.nodup_listing_map_key.sublist (filter_sublist.map _))
  have hperm : F.listing.Perm
      (F.tables.noteDiscoveryStats.filter fun n => F.tables.listed true F.minCreatedAt n) :=
    perm_descending _
  have hfilter := hperm.filter fun n => decide (sats n ≤ r)
  rw [filter_filter] at hfilter
  refine .trans ?_ hfilter.symm
  rw [filter_congr fun n _ => Bool.and_comm ..]

theorem scoredNotes_first : F.tables.scoredNotes (F.request none) =
    (TiedPages.pageFrom sats F.limit F.listing none).map trendingNote := by
  have hquery : F.tables.scoredNotes (F.request none) =
    getPrimalTrendingNotes true F.column F.tables F.minCreatedAt F.limit 0 none := rfl
  simp only [hquery, getPrimalTrendingNotes, Option.all_none, Bool.and_true, limit_clamped]
  rfl

theorem scoredNotes_next {r : ℤ} (hr : 0 ≤ r) : F.tables.scoredNotes (F.request (some r)) =
    (TiedPages.pageFrom sats F.limit F.listing (some r)).map trendingNote := by
  have hquery : F.tables.scoredNotes (F.request (some r)) =
    getPrimalTrendingNotes true F.column F.tables F.minCreatedAt F.limit 1 (some (max r 0)) := rfl
  simp only [hquery, max_eq_left hr, getPrimalTrendingNotes, Option.all_some, limit_clamped,
    lt_cursorValue_iff, descending_below]
  rfl

theorem pageAt_eq (n : ℕ) : F.pageAt n = F.tables.feedPage F.kinds
    ((TiedPages.pageAt sats F.limit F.listing n).map trendingNote) := by
  induction n with
  | zero => rw [pageAt, TrendingTables.scoredFeedPage, scoredNotes_first]; rfl
  | succ n ih =>
    rw [pageAt, TiedPages.pageAt, ih]
    cases hlast : (TiedPages.pageAt sats F.limit F.listing n).getLast? with
    | none => simp [TrendingTables.feedPage, hlast]
    | some a =>
      have ha : a ∈ F.listing :=
        pageAt_subset n (List.mem_of_getLast? hlast)
      have hscore : (F.tables.feedPage F.kinds ((TiedPages.pageAt sats F.limit F.listing n).map
          trendingNote)).sinceScore = some (sats a) := by
        simp [TrendingTables.feedPage, hlast, trendingNote]
      rw [hscore]
      exact congrArg (F.tables.feedPage F.kinds) (F.scoredNotes_next (F.sats_nonneg ha))

theorem events_of_wanted (h : F.kindWanted = true) (n : ℕ) : (F.pageAt n).events =
    (TiedPages.pageAt sats F.limit F.listing n).map NoteStats.eventID := by
  rw [pageAt_eq, TrendingTables.feedPage, map_map, filter_eq_self.mpr]
  · rfl
  · intro id hid
    obtain ⟨note, hnote, rfl⟩ := mem_map.mp hid
    have hl := (F.mem_listing.mp (pageAt_subset n hnote)).2
    simp only [TrendingTables.listed, Bool.and_eq_true, decide_eq_true_eq] at hl
    simpa [hl.1.1.1.2, trendingNote, kindWanted] using h

theorem perm_qualifying (h : F.kindWanted = true) : F.qualifying.Perm F.listing := by
  simp only [qualifying, h, Bool.and_true]
  exact (perm_descending _).symm

theorem qualifying_eq_nil (h : ¬ F.kindWanted = true) : F.qualifying = [] := by
  simp [qualifying, h]

theorem shownBy_iff (h : F.kindWanted = true) (n : ℕ) : F.ShownBy n ↔
    ∀ a ∈ F.listing, ∃ m ≤ n, a ∈ TiedPages.pageAt sats F.limit F.listing m := by
  simp only [ShownBy, (F.perm_qualifying h).mem_iff, F.events_of_wanted h, mem_map]
  refine forall₂_congr fun a ha => exists_congr fun m => and_congr_right fun _ => ?_
  constructor
  · rintro ⟨b, hb, heq⟩
    exact F.eventID_inj (pageAt_subset m hb) ha heq ▸ hb
  · exact fun hm => ⟨a, hm, rfl⟩

theorem events_eq_iff (h : F.kindWanted = true) (n m : ℕ) :
    (F.pageAt n).events = (F.pageAt m).events ↔
      TiedPages.pageAt sats F.limit F.listing n = TiedPages.pageAt sats F.limit F.listing m := by
  rw [F.events_of_wanted h, F.events_of_wanted h]
  refine ⟨fun heq => ext_getElem (by simpa using congrArg List.length heq) fun i h₁ h₂ => ?_,
    congrArg _⟩
  refine F.eventID_inj (pageAt_subset n (getElem_mem h₁))
    (pageAt_subset m (getElem_mem h₂)) ?_
  simpa [h₁, h₂] using congrArg (·[i]?) heq

theorem fewTies_iff (h : F.kindWanted = true) :
    F.FewTies ↔ TiedPages.FewTies sats F.limit F.listing := by
  have hp := F.perm_qualifying h
  simp only [FewTies, TiedPages.FewTies, TiedPages.tied, hp.mem_iff, hp.countP_eq]
  refine forall₂_congr fun a _ => or_congr_right ?_
  have hsplit : F.listing.length = _ :=
    length_eq_countP_add_countP fun n => decide (sats a < sats n)
  simp only [not_lt, decide_eq_true_eq] at hsplit
  rw [TiedPages.above]
  omega

/-- Reading with `until` and an offset of one shows every zapped note, and never a page twice
before the end, exactly when few enough notes share their rounded sats. -/
theorem pagesThroughEverything_iff_fewTies : F.PagesThroughEverything ↔ F.FewTies := by
  by_cases h : F.kindWanted = true
  · have hcomplete : (∃ n, F.ShownBy n) ↔ F.FewTies := by
      simp only [F.shownBy_iff h, F.fewTies_iff h]
      exact complete_iff F.limit_pos F.pairwise_listing F.nodup_listing_map_key.of_map
    rw [← hcomplete, PagesThroughEverything, and_iff_left_of_imp]
    rintro hc n heq
    simp only [F.shownBy_iff h, F.events_eq_iff h] at hc heq ⊢
    exact shown_of_repeated hc heq
  · have hall : ∀ n, F.ShownBy n := fun n note hn => by simp [F.qualifying_eq_nil h] at hn
    exact iff_of_true ⟨⟨0, hall 0⟩, fun n _ => hall n⟩ fun note hn => by
      simp [F.qualifying_eq_nil h] at hn

def sampleNote (id : String) (zapMSats : ℤ) : NoteStats where
  eventID := id
  authorPubkey := "alice"
  createdAt := 1700000000
  zapMSats := zapMSats
  score24h := 0
  score7d := 0

def sampleFeed : ZappedFeed where
  tables := { noteDiscoveryStats := [sampleNote "a" 1200, sampleNote "b" 900, sampleNote "c" 100]
              eventKind := fun _ => some 1
              hasThreadEdge := fun _ => false
              authorKnown := fun _ => true
              nodup_ids := by decide }
  column := .score24h
  minCreatedAt := 1699900000
  kinds := []
  limit := 1
  limit_pos := by decide
  limit_le := by decide

/-- Two notes of one rounded sat stop a client that reads one note at a time. -/
theorem third_note_behind_tied_notes : ¬ sampleFeed.PagesThroughEverything := by
  rintro ⟨-, hrepeat⟩
  have hpages : (sampleFeed.pageAt 0).events = ["a"] ∧ (sampleFeed.pageAt 1).events = ["b"] ∧
      (sampleFeed.pageAt 2).events = ["b"] := by decide +kernel
  obtain ⟨h0, h1, h2⟩ := hpages
  obtain ⟨m, hm, hshown⟩ := hrepeat 1 (h2.trans h1.symm) (sampleNote "c" 100) (by decide)
  obtain rfl | rfl : m = 0 ∨ m = 1 := by omega
  · simp [h0, sampleNote] at hshown
  · simp [h1, sampleNote] at hshown

end ZappedFeed
end NostrMash.Primal
