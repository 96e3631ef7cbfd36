import NostrMash.FeedPage

/-!
# The merged feed pages

The matching events are listed by author, by chunk of authors or at once. The merged pages read a
slice of the first events of each group of authors, where a group is one author, or a chunk when
there are more than 400 authors.
-/

namespace NostrMash.Feed
open KeysetPaging List

section
variable (t : FeedTables) (o : FeedOptions)

def FeedTables.wanted (kinds : List ℤ) (e : FeedEvent) : Bool :=
  e.kind ∈ kinds && t.eventStillLive e && inSpan o e &&
    (if o.onlyReplies then t.isReply e else o.includeReplies || !t.isReply e) &&
    (!o.hasImage || t.isImage e)

def FeedTables.eventsOf (kinds : List ℤ) (authors : List String) : List FeedEvent :=
  t.events.filter fun e => e.pubkey ∈ authors && t.wanted o kinds e

def requestedKinds (kinds : List ℤ) : List ℤ := if kinds = [] then [1] else kinds

def feedListing (authors : List String) (kinds : List ℤ) : List FeedEvent :=
  descending FeedEvent.key (t.events.filter fun e =>
    (authors = [] || e.pubkey ∈ authors) && t.wanted o.normalized (requestedKinds kinds) e)

def windowGroups (authors : List String) : List (List String) :=
  if authors.length ≤ authorFeedChunkSize then authors.map fun author => [author]
  else chunkStrings authors authorFeedChunkSize

end

variable {e : FeedEvent}

section
variable {t : FeedTables} {o : FeedOptions} {kinds : List ℤ} {authors : List String}

theorem globalRows_eq : globalRows t o kinds = t.events.filter (t.wanted o kinds) := by
  unfold globalRows FeedTables.wanted
  congr 1
  funext e
  cases o.onlyReplies <;> cases o.includeReplies <;> simp

theorem mem_kindRows {author : String} {kind : ℤ} (hk : kind ∈ kinds) :
    e ∈ kindRows t o author kind ↔ e ∈ t.eventsOf o kinds [author] ∧ e.kind = kind := by
  have hvisible : feedVisibility t o e = (t.eventStillLive e &&
      (if o.onlyReplies then t.isReply e else o.includeReplies || !t.isReply e) &&
      (!o.hasImage || t.isImage e)) := by
    unfold feedVisibility
    cases o.onlyReplies <;> cases o.includeReplies <;> cases o.hasImage <;>
      simp [Bool.and_comm]
  simp only [kindRows, FeedTables.eventsOf, FeedTables.wanted, hvisible, mem_filter,
    mem_singleton, Bool.and_eq_true, decide_eq_true_eq]
  constructor
  · rintro ⟨hmem, ⟨⟨hauthor, rfl⟩, hspan⟩, ⟨hlive, hreply⟩, himage⟩
    exact ⟨⟨hmem, hauthor, ⟨⟨⟨hk, hlive⟩, hspan⟩, hreply⟩, himage⟩, rfl⟩
  · rintro ⟨⟨hmem, hauthor, ⟨⟨⟨-, hlive⟩, hspan⟩, hreply⟩, himage⟩, rfl⟩
    exact ⟨hmem, ⟨⟨hauthor, rfl⟩, hspan⟩, ⟨hlive, hreply⟩, himage⟩

theorem collectKinds_spec (hkinds : ∀ k ∈ kinds, 0 ≤ k ∧ k ≤ 65535) {out : List ℤ}
    (hout : out.Nodup) (hlen : out.length + kinds.length ≤ 8) : (collectKinds kinds out).Nodup ∧
      ∀ k, k ∈ collectKinds kinds out ↔ k ∈ out ∨ k ∈ kinds := by
  induction kinds generalizing out with
  | nil => simp [collectKinds, hout]
  | cons kind kinds ih =>
    obtain ⟨hlow, hhigh⟩ := hkinds kind (.head _)
    have hrest : ∀ k ∈ kinds, 0 ≤ k ∧ k ≤ 65535 := fun k hk => hkinds k (.tail _ hk)
    rw [length_cons] at hlen
    have hconcat : kind ∉ out → (out ++ [kind]).Nodup := fun h => by
      rw [← concat_eq_append]
      exact List.Nodup.concat h hout
    rw [collectKinds, if_neg (by omega)]
    split_ifs with hseen hfull
    · obtain ⟨hnd, hmem⟩ := ih hrest hout (by omega)
      refine ⟨hnd, fun k => ?_⟩
      rw [hmem, mem_cons]
      constructor
      · rintro (h | h)
        · exact .inl h
        · exact .inr (.inr h)
      · rintro (h | rfl | h)
        · exact .inl h
        · exact .inl hseen
        · exact .inr h
    · have hnil : kinds = [] := length_eq_zero_iff.mp (by omega)
      subst hnil
      exact ⟨hconcat hseen, fun k => mem_append⟩
    · obtain ⟨hnd, hmem⟩ := ih hrest (hconcat hseen) (by simp; omega)
      refine ⟨hnd, fun k => ?_⟩
      rw [hmem, mem_append, mem_singleton, mem_cons, or_assoc]

theorem feedKindLiterals_spec (hne : kinds ≠ []) (hkinds : ∀ k ∈ kinds, 0 ≤ k ∧ k ≤ 65535)
    (hlen : kinds.length ≤ 8) :
    (feedKindLiterals kinds).Nodup ∧ ∀ k, k ∈ feedKindLiterals kinds ↔ k ∈ kinds := by
  obtain ⟨hnd, hmem⟩ := collectKinds_spec hkinds nodup_nil (by simpa using hlen)
  simp only [not_mem_nil, false_or] at hmem
  have hsome : collectKinds kinds [] ≠ [] := by
    obtain ⟨k, hk⟩ := exists_mem_of_ne_nil kinds hne
    exact ne_nil_of_mem ((hmem k).mpr hk)
  rw [feedKindLiterals, if_neg hne, if_neg hsome]
  exact ⟨hnd, hmem⟩

theorem keyed_events (t : FeedTables) : Keyed FeedEvent.key t.events := by
  intro a ha b hb h
  exact inj_on_of_nodup_map t.events_key ha hb (Prod.mk.inj (toLex.injective h)).2

theorem nodup_events (t : FeedTables) : t.events.Nodup := t.events_key.of_map

theorem flatten_chunkLoop {size : ℕ} (hs : 0 < size) (values : List String) :
    (chunkLoop size values).flatten = values := by
  fun_induction chunkLoop size values with
  | case1 values h =>
    rcases h with rfl | h
    · rfl
    · omega
  | case2 values h ih =>
    rw [flatten_cons, ih, take_append_drop]

theorem flatten_singletons (authors : List String) :
    (authors.map fun author => [author]).flatten = authors := by
  rw [← flatMap_def, flatMap_singleton']

theorem flatten_windowGroups (authors : List String) :
    (windowGroups authors).flatten = authors := by
  unfold windowGroups
  split_ifs
  · exact flatten_singletons authors
  · exact flatten_chunkLoop (by simp [authorFeedChunkSize]) authors

end

variable {t : FeedTables} {o : FeedOptions} {kinds : List ℤ} {authors : List String}
  {groups : List (List String)}

theorem keyed_filter (t : FeedTables) (p : FeedEvent → Bool) :
    Keyed FeedEvent.key (t.events.filter p) :=
  (keyed_events t).mono fun _ h => (mem_filter.mp h).1

def groupRows (t : FeedTables) (o : FeedOptions) (kinds : List ℤ) (groups : List (List String)) :
    List (List FeedEvent) :=
  groups.map (t.eventsOf o kinds)

theorem mem_flatten_groupRows :
    e ∈ (groupRows t o kinds groups).flatten ↔ e ∈ t.eventsOf o kinds groups.flatten := by
  simp only [groupRows, FeedTables.eventsOf, mem_flatten, mem_map, mem_filter,
    Bool.and_eq_true, decide_eq_true_eq]
  constructor
  · rintro ⟨_, ⟨group, hg, rfl⟩, he⟩
    obtain ⟨hmem, hauthor, hwanted⟩ :
        e ∈ t.events ∧ e.pubkey ∈ group ∧ t.wanted o kinds e = true := by
      simpa using he
    exact ⟨hmem, ⟨group, hg, hauthor⟩, hwanted⟩
  · rintro ⟨hmem, ⟨group, hg, hauthor⟩, hwanted⟩
    exact ⟨_, ⟨group, hg, rfl⟩, by simp [hmem, hauthor, hwanted]⟩

theorem keyed_groupRows (groups : List (List String)) :
    Keyed FeedEvent.key (groupRows t o kinds groups).flatten :=
  (keyed_events t).mono fun _ h => (mem_filter.mp (mem_flatten_groupRows.mp h)).1

theorem nodup_groupRows (h : groups.flatten.Nodup) :
    (groupRows t o kinds groups).flatten.Nodup := by
  rw [nodup_flatten] at h ⊢
  refine ⟨?_, ?_⟩
  · intro rows hrows
    obtain ⟨group, -, rfl⟩ := mem_map.mp hrows
    exact (nodup_events t).filter _
  · refine pairwise_map.mpr (h.2.imp fun {g g'} hd e he he' => ?_)
    simp only [FeedTables.eventsOf, mem_filter, Bool.and_eq_true, decide_eq_true_eq] at he he'
    exact hd he.2.1 he'.2.1

theorem mem_events_of_windows {n : ℕ}
    (h : e ∈ windows FeedEvent.key n (groupRows t o kinds groups)) : e ∈ t.events := by
  have hrows := ((mem_windows (keyed_groupRows groups)).mp h).1
  exact (mem_filter.mp (mem_flatten_groupRows.mp hrows)).1

theorem descending_groupRows (h : groups.flatten.Nodup) :
    descending FeedEvent.key (groupRows t o kinds groups).flatten =
      descending FeedEvent.key (t.eventsOf o kinds groups.flatten) :=
  descending_eq_descending (keyed_filter t _) ((nodup_events t).filter _) (nodup_groupRows h)
    fun _ => mem_flatten_groupRows

theorem descending_keys (l : List FeedEvent) :
    descending id (l.map FeedEvent.key) = (descending FeedEvent.key l).map FeedEvent.key :=
  descending_map fun _ _ => rfl

theorem kind_mem_of_mem_eventsOf (h : e ∈ t.eventsOf o kinds authors) :
    e.kind ∈ kinds := by
  simp only [FeedTables.eventsOf, FeedTables.wanted, mem_filter, Bool.and_eq_true,
    decide_eq_true_eq] at h
  exact h.2.2.1.1.1.1

theorem authorPage_eq (hne : kinds ≠ []) (hkinds : ∀ k ∈ kinds, 0 ≤ k ∧ k ≤ 65535)
    (hlen : kinds.length ≤ 8) (author : String) (n : ℕ) :
    (descending id ((feedKindLiterals kinds).flatMap fun kind =>
        (descending id ((kindRows t o author kind).map FeedEvent.key)).take n)).take n =
      ((descending FeedEvent.key (t.eventsOf o kinds [author])).take n).map FeedEvent.key := by
  obtain ⟨hnd, hmem⟩ := feedKindLiterals_spec hne hkinds hlen
  have hrow : ∀ kind ∈ feedKindLiterals kinds, ∀ e, e ∈ kindRows t o author kind ↔
      e ∈ t.eventsOf o kinds [author] ∧ e.kind = kind := fun kind hkind e =>
    mem_kindRows ((hmem kind).mp hkind)
  have hflat : ∀ e, e ∈ ((feedKindLiterals kinds).map (kindRows t o author)).flatten ↔
      e ∈ t.eventsOf o kinds [author] := by
    intro e
    rw [← flatMap_def, mem_flatMap]
    constructor
    · rintro ⟨kind, hkind, he⟩
      exact ((hrow kind hkind e).mp he).1
    · intro he
      have hkind : e.kind ∈ feedKindLiterals kinds := (hmem _).mpr (kind_mem_of_mem_eventsOf he)
      exact ⟨e.kind, hkind, (hrow _ hkind e).mpr ⟨he, rfl⟩⟩
  have hnodup : ((feedKindLiterals kinds).map (kindRows t o author)).flatten.Nodup := by
    rw [← flatMap_def]
    refine nodup_flatMap.mpr ⟨fun kind _ => (nodup_events t).filter _, ?_⟩
    refine hnd.imp_of_mem fun {kind kind'} hkind hkind' hne e he he' => hne ?_
    exact ((hrow kind hkind e).mp he).2.symm.trans ((hrow kind' hkind' e).mp he').2
  have hkeyed : Keyed FeedEvent.key ((feedKindLiterals kinds).map (kindRows t o author)).flatten :=
    (keyed_events t).mono fun e he => (mem_filter.mp ((hflat e).mp he)).1
  have hbranch : ((feedKindLiterals kinds).flatMap fun kind =>
      (descending id ((kindRows t o author kind).map FeedEvent.key)).take n) =
        (windows FeedEvent.key n ((feedKindLiterals kinds).map (kindRows t o author))).map
          FeedEvent.key := by
    rw [map_windows]
    simp only [descending_keys, map_take]
  rw [hbranch, descending_keys, ← map_take, take_descending_windows hkeyed hnodup le_rfl,
    descending_eq_descending (keyed_filter t _) ((nodup_events t).filter _) hnodup hflat,
    FeedTables.eventsOf]

theorem joined_eq {chosen : List FeedEvent} (hsub : ∀ e ∈ chosen, e ∈ t.events)
    (hsorted : chosen.Pairwise fun a b => b.key ≤ a.key) (hnd : chosen.Nodup) :
    (descending Prod.fst ((chosen.map FeedEvent.key).flatMap fun c =>
      (t.events.filter (·.id = (ofLex c).2)).map fun e => (c, e.rawJSON))).map Prod.snd =
        chosen.map (·.rawJSON) := by
  have hone : ∀ e ∈ chosen, t.events.filter (·.id = e.id) = [e] := by
    intro e he
    refine perm_singleton.mp ((perm_ext_iff_of_nodup ((nodup_events t).filter _)
      (nodup_singleton e)).mpr fun x => ?_)
    rw [mem_filter, decide_eq_true_eq, mem_singleton]
    constructor
    · rintro ⟨hx, hid⟩
      exact inj_on_of_nodup_map t.events_key hx (hsub e he) hid
    · rintro rfl
      exact ⟨hsub x he, rfl⟩
  have hjoin : ((chosen.map FeedEvent.key).flatMap fun c =>
      (t.events.filter (·.id = (ofLex c).2)).map fun e => (c, e.rawJSON)) =
        chosen.map fun e => (e.key, e.rawJSON) := by
    rw [flatMap_map, ← flatMap_pure_eq_map]
    refine flatMap_congr fun e he => ?_
    have hid : (ofLex e.key).2 = e.id := rfl
    rw [hid, hone e he]
    rfl
  have hkeys : (chosen.map FeedEvent.key).Nodup := List.Nodup.map_on
    (fun a ha b hb => keyed_events t a (hsub a ha) b (hsub b hb)) hnd
  have hlisted : descending FeedEvent.key chosen = chosen :=
    descending_eq (List.Perm.refl _) hsorted hkeys
  have hmap : descending Prod.fst (chosen.map fun e => (e.key, e.rawJSON)) =
      (descending FeedEvent.key chosen).map fun e => (e.key, e.rawJSON) :=
    descending_map fun _ _ => rfl
  rw [hjoin, hmap, hlisted, map_map]
  rfl

theorem authorFeedPage_eq (hne : kinds ≠ []) (hkinds : ∀ k ∈ kinds, 0 ≤ k ∧ k ≤ 65535)
    (hlen : kinds.length ≤ 8) (hauthors : authors.Nodup) (limit offset n : ℕ) :
    authorFeedPage t o authors kinds limit offset n =
      (((descending FeedEvent.key (windows FeedEvent.key n
        (groupRows t o kinds (authors.map fun author => [author])))).drop offset).take limit).map
          (·.rawJSON) := by
  have hchosen : authors.flatMap (fun author =>
      (descending id ((feedKindLiterals kinds).flatMap fun kind =>
        (descending id ((kindRows t o author kind).map FeedEvent.key)).take n)).take n) =
      (windows FeedEvent.key n (groupRows t o kinds (authors.map fun author => [author]))).map
        FeedEvent.key := by
    rw [groupRows, map_map, map_windows]
    exact flatMap_congr fun author _ => authorPage_eq hne hkinds hlen author n
  have hnd : (groupRows t o kinds (authors.map fun author => [author])).flatten.Nodup :=
    nodup_groupRows ((flatten_singletons authors).symm ▸ hauthors)
  have hsub : ∀ l : List FeedEvent, ((l.drop offset).take limit).Sublist l := fun l =>
    (take_sublist _ _).trans (drop_sublist _ _)
  unfold authorFeedPage
  dsimp only
  rw [hchosen, descending_keys, ← map_drop, ← map_take]
  refine joined_eq (fun e he => ?_) ((pairwise_descending _).sublist (hsub _))
    ((descending_nodup (nodup_windows hnd)).sublist (hsub _))
  exact mem_events_of_windows ((perm_descending _).mem_iff.mp ((hsub _).subset he))

theorem chunkPage_eq (hne : kinds ≠ []) (hkinds : ∀ k ∈ kinds, 0 ≤ k ∧ k ≤ 65535)
    (hlen : kinds.length ≤ 8) (hauthors : authors.Nodup) {n : ℕ} (hn : n ≤ 100) :
    queryAuthorFeed t o authors kinds n 0 =
      ((descending FeedEvent.key (t.eventsOf o kinds authors)).take n).map (·.rawJSON) := by
  have hgroups : (authors.map fun author => [author]).flatten.Nodup :=
    (flatten_singletons authors).symm ▸ hauthors
  rw [queryAuthorFeed, authorFeedPage_eq hne hkinds hlen hauthors, Nat.add_zero,
    Nat.min_eq_left hn, drop_zero, take_descending_windows (keyed_groupRows _)
      (nodup_groupRows hgroups) le_rfl, descending_groupRows hgroups, flatten_singletons]

theorem getAuthorFeedEvents_eq (hne : kinds ≠ []) (hkinds : ∀ k ∈ kinds, 0 ≤ k ∧ k ≤ 65535)
    (hlen : kinds.length ≤ 8) (hauthors : authors.Nodup) (limit offset : ℕ) :
    getAuthorFeedEvents t o authors kinds limit offset =
      (((descending FeedEvent.key (windows FeedEvent.key (min (limit + offset) 100)
        (groupRows t o kinds (windowGroups authors)))).drop offset).take limit).map
          (·.rawJSON) := by
  unfold getAuthorFeedEvents windowGroups
  split_ifs with hsize
  · exact authorFeedPage_eq hne hkinds hlen hauthors limit offset _
  · set n := min (limit + offset) 100 with hn
    have hchunks : (chunkStrings authors authorFeedChunkSize).flatten = authors :=
      flatten_chunkLoop (by simp [authorFeedChunkSize]) authors
    have hpages : ((chunkStrings authors authorFeedChunkSize).map fun chunk =>
        queryAuthorFeed t o chunk kinds n 0).flatten =
          (windows FeedEvent.key n (groupRows t o kinds
            (chunkStrings authors authorFeedChunkSize))).map (·.rawJSON) := by
      rw [groupRows, map_windows, ← flatMap_def]
      refine flatMap_congr fun chunk hchunk => ?_
      have hnodup : chunk.Nodup :=
        (nodup_flatten.mp (hchunks.symm ▸ hauthors)).1 chunk hchunk
      exact chunkPage_eq hne hkinds hlen hnodup (by omega)
    have hkey : ∀ e ∈ windows FeedEvent.key n (groupRows t o kinds
        (chunkStrings authors authorFeedChunkSize)), rawKey t e.rawJSON = e.key := by
      intro e he
      rw [rawKey, t.payload_rawJSON e (mem_events_of_windows he)]
      rfl
    rw [mergeAuthorFeedPages, hpages, descending_map hkey, ← map_drop, ← map_take]

end NostrMash.Feed
