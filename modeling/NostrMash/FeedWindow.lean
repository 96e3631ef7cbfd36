import NostrMash.FeedListing

/-!
# Feed pages as slices of the listing

All three paths of `getFeedEvents` read a slice of the same listing of matching events as long as
the slice ends within the first 100 events.
-/

namespace NostrMash.Feed
open KeysetPaging List
open ReadStore (actionLimit)
variable {e : FeedEvent}

section
variable (t : FeedTables) (o : FeedOptions) in
/-- Fewer than 100 events of the group of its author stand before each event up to the end. -/
def WithinWindows (authors : List String) (kinds : List ℤ) (last : ℕ) : Prop :=
  ∀ group ∈ windowGroups authors, ∀ e ∈ (feedListing t o authors kinds).take last,
    e.pubkey ∈ group →
      ((above FeedEvent.key (feedListing t o authors kinds) e).filter
        (·.pubkey ∈ group)).length < 100

variable {t : FeedTables} {o : FeedOptions} {kinds ks : List ℤ} {authors : List String}
  {limit offset : ℤ}

theorem rawJSON_injOn {l l' : List FeedEvent} (h : ∀ e ∈ l, e ∈ t.events)
    (h' : ∀ e ∈ l', e ∈ t.events) : l.map (·.rawJSON) = l'.map (·.rawJSON) ↔ l = l' := by
  refine ⟨fun heq => ReadStore.map_injOn (fun e he e' he' hraw => ?_) heq, fun heq => heq ▸ rfl⟩
  have hpayload := congrArg t.payload hraw
  rw [t.payload_rawJSON e (h e he), t.payload_rawJSON e' (h' e' he')] at hpayload
  exact inj_on_of_nodup_map t.events_key (h e he) (h' e' he') (Prod.mk.inj hpayload).1

theorem feedListing_eq (hne : authors ≠ []) : feedListing t o authors kinds =
      descending FeedEvent.key (t.eventsOf o.normalized (requestedKinds kinds) authors) := by
  simp only [feedListing, FeedTables.eventsOf, hne, decide_false, Bool.false_or]

theorem length_above_group {group : List String} (hg : group ∈ windowGroups authors)
    (e : FeedEvent) : (above FeedEvent.key (t.eventsOf o ks group) e).length =
      ((above FeedEvent.key (descending FeedEvent.key (t.eventsOf o ks authors)) e).filter
        (·.pubkey ∈ group)).length := by
  have hsub : ∀ a ∈ group, a ∈ authors := fun a ha => by
    rw [← flatten_windowGroups authors]
    exact mem_flatten.mpr ⟨group, hg, ha⟩
  have hgroup : t.eventsOf o ks group =
      (t.eventsOf o ks authors).filter (·.pubkey ∈ group) := by
    unfold FeedTables.eventsOf
    rw [filter_filter]
    refine filter_congr fun x _ => ?_
    by_cases hx : x.pubkey ∈ group
    · simp [hx, hsub _ hx]
    · simp [hx]
  have hperm : (descending FeedEvent.key (t.eventsOf o ks authors)).Perm
      (t.eventsOf o ks authors) :=
    perm_descending _
  rw [hgroup]
  unfold above
  rw [filter_comm]
  exact ((hperm.filter _).filter _).length_eq.symm

theorem group_unique (hauthors : authors.Nodup) {g g' : List String} {author : String}
    (hg : g ∈ windowGroups authors) (hg' : g' ∈ windowGroups authors) (h : author ∈ g)
    (h' : author ∈ g') : g = g' := by
  have hflat := (flatten_windowGroups authors).symm ▸ hauthors
  have : Std.Symm (List.Disjoint (α := String)) := ⟨fun _ _ hd => hd.symm⟩
  by_contra hne
  exact (nodup_flatten.mp hflat).2.forall hg hg' hne h h'

theorem inWindow_iff {n : ℕ} (hauthors : authors.Nodup) (he : e ∈ t.eventsOf o ks authors) :
    InWindow FeedEvent.key (groupRows t o ks (windowGroups authors)) n e ↔
      ∀ group ∈ windowGroups authors, e.pubkey ∈ group →
        ((above FeedEvent.key (descending FeedEvent.key (t.eventsOf o ks authors)) e).filter
          (·.pubkey ∈ group)).length < n := by
  obtain ⟨hmem, hauthor, hwanted⟩ : e ∈ t.events ∧ e.pubkey ∈ authors ∧ t.wanted o ks e = true := by
    simpa [FeedTables.eventsOf] using he
  constructor
  · rintro ⟨rows, hrows, hin, hlt⟩ group hg hpub
    obtain ⟨g, hgm, rfl⟩ := mem_map.mp hrows
    have hpub' : e.pubkey ∈ g := by
      have := (mem_filter.mp hin).2
      simp only [Bool.and_eq_true, decide_eq_true_eq] at this
      exact this.1
    obtain rfl := group_unique hauthors hg hgm hpub hpub'
    rwa [← length_above_group hg]
  · intro h
    rw [← flatten_windowGroups authors] at hauthor
    obtain ⟨group, hg, hpub⟩ := mem_flatten.mp hauthor
    refine ⟨_, mem_map.mpr ⟨group, hg, rfl⟩, ?_, ?_⟩
    · simp [FeedTables.eventsOf, hmem, hpub, hwanted]
    · rw [length_above_group hg]
      exact h group hg hpub

theorem getAuthorFeedEvents_eq_filter (hne : kinds ≠ []) (hkinds : ∀ k ∈ kinds, 0 ≤ k ∧ k ≤ 65535)
    (hlen : kinds.length ≤ 8) (hauthors : authors.Nodup) (limit offset : ℕ) :
    getAuthorFeedEvents t o authors kinds limit offset =
      ((((descending FeedEvent.key (t.eventsOf o kinds authors)).filter fun e =>
        decide (InWindow FeedEvent.key (groupRows t o kinds (windowGroups authors))
          (min (limit + offset) 100) e)).drop offset).take limit).map (·.rawJSON) := by
  have hgroups : (windowGroups authors).flatten.Nodup :=
    (flatten_windowGroups authors).symm ▸ hauthors
  rw [getAuthorFeedEvents_eq hne hkinds hlen hauthors,
    descending_windows (keyed_groupRows _) (nodup_groupRows hgroups), descending_groupRows hgroups,
    flatten_windowGroups]

theorem getAuthorFeedEvents_slice_iff (hne : kinds ≠ []) (hkinds : ∀ k ∈ kinds, 0 ≤ k ∧ k ≤ 65535)
    (hlen : kinds.length ≤ 8) (hauthors : authors.Nodup) {limit offset : ℕ} (hlimit : 0 < limit) :
    getAuthorFeedEvents t o authors kinds limit offset =
        (((descending FeedEvent.key (t.eventsOf o kinds authors)).drop offset).take limit).map
          (·.rawJSON) ↔ (t.eventsOf o kinds authors).length ≤ offset ∨
        ∀ e ∈ (descending FeedEvent.key (t.eventsOf o kinds authors)).take (offset + limit),
          InWindow FeedEvent.key (groupRows t o kinds (windowGroups authors))
            (min (limit + offset) 100) e := by
  have hevents : ∀ e ∈ descending FeedEvent.key (t.eventsOf o kinds authors), e ∈ t.events :=
    fun e he => (mem_filter.mp ((perm_descending _).mem_iff.mp he)).1
  have hslice : ∀ l : List FeedEvent, (∀ e ∈ l, e ∈ t.events) →
      ∀ e ∈ (l.drop offset).take limit, e ∈ t.events := fun l h e he =>
    h e (mem_of_mem_drop (mem_of_mem_take he))
  have hnd : (descending FeedEvent.key (t.eventsOf o kinds authors)).Nodup :=
    descending_nodup ((nodup_events t).filter _)
  rw [getAuthorFeedEvents_eq_filter hne hkinds hlen hauthors,
    rawJSON_injOn (hslice _ fun e he => hevents e (mem_filter.mp he).1) (hslice _ hevents),
    slice_filter_iff hnd _ offset hlimit, (perm_descending _).length_eq]
  simp only [decide_eq_true_eq]

theorem inWindow_of_short (hauthors : authors.Nodup) {n : ℕ}
    (he : e ∈ (descending FeedEvent.key (t.eventsOf o kinds authors)).take n) :
    InWindow FeedEvent.key (groupRows t o kinds (windowGroups authors)) n e := by
  have hgroups : (windowGroups authors).flatten.Nodup :=
    (flatten_windowGroups authors).symm ▸ hauthors
  apply inWindow_of_mem_take (keyed_groupRows _)
  rwa [descending_groupRows hgroups, flatten_windowGroups]

/-- Every path reads the slice of the listing exactly when it needs no merge, ends within the first
100 events, is empty or stays within the windows. -/
theorem getFeedEvents_eq_slice_iff (hauthors : authors.Nodup)
    (hkinds : ∀ k ∈ kinds, 0 ≤ k ∧ k ≤ 65535) (hlen : kinds.length ≤ 8) (hlimit : 1 ≤ limit)
    (hlimit' : limit ≤ 100) (hoffset : 0 ≤ offset) (hoffset' : offset ≤ 10000) :
    getFeedEvents t o authors kinds limit offset =
        (((feedListing t o authors kinds).drop offset.toNat).take limit.toNat).map (·.rawJSON) ↔
      authors = [] ∨ offset + limit ≤ 100 ∨ ((feedListing t o authors kinds).length : ℤ) ≤ offset ∨
        WithinWindows t o authors kinds (offset + limit).toNat := by
  have hl : actionLimit limit = limit.toNat := by
    unfold actionLimit
    split_ifs
    all_goals omega
  have ho : feedOffset offset = offset.toNat := by
    unfold feedOffset
    split_ifs
    all_goals omega
  obtain ⟨hne, hkinds, hlen⟩ : requestedKinds kinds ≠ [] ∧
      (∀ k ∈ requestedKinds kinds, 0 ≤ k ∧ k ≤ 65535) ∧ (requestedKinds kinds).length ≤ 8 := by
    unfold requestedKinds
    split_ifs with h
    · decide
    · exact ⟨h, hkinds, hlen⟩
  by_cases hall : authors = []
  · subst hall
    refine iff_of_true ?_ (.inl rfl)
    unfold getFeedEvents
    rw [if_pos rfl, hl, ho, globalRows_eq]
    simp only [feedListing, decide_true, Bool.true_or, Bool.true_and]
    rfl
  · have hget : getFeedEvents t o authors kinds limit offset = getAuthorFeedEvents t o.normalized
        authors (requestedKinds kinds) limit.toNat offset.toNat := by
      unfold getFeedEvents
      rw [if_neg hall, hl, ho]
      rfl
    have hlast : (offset + limit).toNat = offset.toNat + limit.toNat := by omega
    rw [hget, feedListing_eq hall,
      getAuthorFeedEvents_slice_iff hne hkinds hlen hauthors (by omega)]
    have hmem : ∀ e ∈ (descending FeedEvent.key (t.eventsOf o.normalized (requestedKinds kinds)
        authors)).take (offset.toNat + limit.toNat),
          e ∈ t.eventsOf o.normalized (requestedKinds kinds) authors := fun e he =>
      (perm_descending _).mem_iff.mp (mem_of_mem_take he)
    by_cases hshort : offset + limit ≤ 100
    · refine iff_of_true (.inr fun e he => ?_) (.inr (.inl hshort))
      rw [Nat.min_eq_left (by omega), Nat.add_comm]
      exact inWindow_of_short hauthors he
    · rw [Nat.min_eq_right (by omega), (perm_descending _).length_eq]
      simp only [hall, hshort, false_or, WithinWindows, feedListing_eq hall, hlast]
      refine or_congr (by omega) ?_
      constructor
      · intro h group hg e he hpub
        exact (inWindow_iff hauthors (hmem e he)).mp (h e he) group hg hpub
      · intro h e he
        exact (inWindow_iff hauthors (hmem e he)).mpr fun group hg hpub => h group hg e he hpub

end

def hexDigit (n : ℕ) : Char := "0123456789abcdef".toList.getD n '0'

def noteID (n : ℕ) : String :=
  String.ofList (List.replicate 62 '0' ++ [hexDigit (n / 16), hexDigit (n % 16)])

def authorExample : String := "79be667ef9dcbbac55a06295ce870b07029bfcdb2dce28d959f2815b16f81798"

def notesOf (count : ℕ) : List FeedEvent :=
  (List.range count).map fun i =>
    { id := noteID i, pubkey := authorExample, kind := 1, createdAt := 1700000000 - i
      rawJSON := noteID i }

def readNote (notes : List FeedEvent) (raw : String) : String × ℤ :=
  ((notes.find? (·.rawJSON = raw)).map fun e => (e.id, e.createdAt)).getD ("", 0)

theorem readNote_eq {notes : List FeedEvent} (h : (notes.map (·.rawJSON)).Nodup) (he : e ∈ notes) :
    readNote notes e.rawJSON = (e.id, e.createdAt) := by
  obtain ⟨e', he'⟩ := Option.isSome_iff_exists.mp
    (List.find?_isSome.mpr ⟨e, he, decide_eq_true rfl⟩ :
      (notes.find? (·.rawJSON = e.rawJSON)).isSome)
  have hraw : e'.rawJSON = e.rawJSON := by simpa using List.find?_some he'
  obtain rfl : e' = e := inj_on_of_nodup_map h (List.mem_of_find?_eq_some he') he hraw
  simp [readNote, he']

def noteTables (notes : List FeedEvent) (hid : (notes.map (·.id)).Nodup)
    (hraw : (notes.map (·.rawJSON)).Nodup) : FeedTables :=
  { events := notes, threadChildren := [], imageNotes := [], attributes := [], now := 1700000001
    payload := readNote notes, events_key := hid, payload_rawJSON := fun _ => readNote_eq hraw }

def allNotes : FeedOptions :=
  { since := 0, untilTime := 0, includeReplies := true, onlyReplies := false, hasImage := false }

def threeNotes : FeedTables := noteTables (notesOf 3) (by decide) (by decide)

theorem getFeedEvents_threeNotes : getFeedEvents threeNotes allNotes [authorExample] [1] 2 1 =
      (((feedListing threeNotes allNotes [authorExample] [1]).drop 1).take 2).map (·.rawJSON) :=
  (getFeedEvents_eq_slice_iff (nodup_singleton _) (by decide) (by decide) (by decide)
    (by decide) (by decide) (by decide)).mpr (.inr (.inl (by decide)))

theorem hexDigit_injOn : ∀ m < 16, ∀ n < 16, hexDigit m = hexDigit n → m = n := by decide

theorem nodup_manyNotes : ((notesOf 101).map (·.id)).Nodup := by
  rw [notesOf, map_map]
  refine List.Nodup.map_on (fun m hm n hn h => ?_) nodup_range
  obtain ⟨hhigh, hlow⟩ :
      hexDigit (m / 16) = hexDigit (n / 16) ∧ hexDigit (m % 16) = hexDigit (n % 16) := by
    simpa [noteID, String.ofList_inj] using h
  rw [mem_range] at hm hn
  have := hexDigit_injOn (m / 16) (by omega) (n / 16) (by omega) hhigh
  have := hexDigit_injOn (m % 16) (by omega) (n % 16) (by omega) hlow
  omega

def manyNotes : FeedTables := noteTables (notesOf 101) nodup_manyNotes nodup_manyNotes

/-- The page after the first 100 notes of one author is empty, although there is one more note. -/
theorem hundred_and_first_note_missing :
    getFeedEvents manyNotes allNotes [authorExample] [1] 1 100 = [] ∧
      (((feedListing manyNotes allNotes [authorExample] [1]).drop 100).take 1).map (·.rawJSON) =
        [noteID 100] := by
  decide

end NostrMash.Feed
