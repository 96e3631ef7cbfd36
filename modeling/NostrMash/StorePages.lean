import NostrMash.RankedPages
import NostrMash.RearrangedCompleteness
import NostrMash.SearchPaging

/-!
# Pages of a store

The responses of the handler to a client that follows `next_cursor` are the pages of a keyset
listing: the store fetches the rows below the cursor, and ranking and the author cap arrange them.
-/

namespace NostrMash.Search

namespace Service

variable {S : Service} {C : Contents} {p : NotesSearchParams}

theorem searchNotesCollected_eq (hmeili : S.hasMeilisearch = false) :
    S.searchNotesCollected C p = S.searchNotesPage C p := by
  simp only [searchNotesCollected, supplementFreshNotes, shouldMergeRecent, hmeili, Bool.false_and,
    Bool.false_eq_true, false_and, if_false, if_true]
  cases S.searchNotesPage C p <;> rfl

theorem searchNotesPage_overStore_offset (store : NoteStore) (hsort : p.sort = .latest)
    (hbefore : trimSpace p.beforeID = "")
    (hmiss : S.overStore.queryIsObviousMiss (store.contents C) p.query = false) :
    S.overStore.searchNotesPage (store.contents C) p =
      store.searchNotes p.query p.window p.language p.limit p.offset := by
  have hindex : S.overStore.hasMeilisearch = false := rfl
  have hreader : S.overStore.hasNotesSearch = true := rfl
  have hanswer :
      (store.contents C).storeNotes p.query .latest p.window p.language p.limit p.offset =
      store.searchNotes p.query p.window p.language p.limit p.offset := by
    simp only [NoteStore.contents]
  rw [searchNotesPage, if_neg fun h => h.2.1 hbefore, searchNotesByOffset, hmiss,
    if_neg Bool.false_ne_true, hindex, if_neg Bool.false_ne_true, searchNotesFromStore, hreader,
    if_pos rfl, hsort, hanswer]

theorem searchNotesPage_overStore_before (store : NoteStore) (hsort : p.sort = .latest)
    (hbefore : trimSpace p.beforeID ≠ "") (hquery : trimSpace p.query ≠ "") :
    S.overStore.searchNotesPage (store.contents C) p =
      store.searchNotesBefore p.query p.window p.language p.limit p.beforeCreatedAt p.beforeID := by
  have hreader : S.overStore.hasNotesSearchBefore = true := rfl
  have hanswer : (store.contents C).storeNotesBefore = store.searchNotesBefore := by
    simp only [NoteStore.contents]
  rw [searchNotesPage, if_pos ⟨hsort, hbefore, hreader⟩, hanswer, NoteStore.searchNotesBefore,
    if_neg hquery, if_neg hbefore]

end Service

namespace StaticSearch
open RearrangedPages List Service
variable (X : StaticSearch)

/-- The query is answered without a search, because no hashtag matches it. -/
def ObviousMiss : Prop :=
  X.engine.queryIsObviousMiss X.contents (trimSpace X.request.query) = true ∨
    X.engine.queryIsObviousMiss X.contents X.query = true

def frequency : ℤ :=
  (X.engine.chooseQueryCorrection X.contents X.reader (trimSpace X.request.query)).2

def params (cursor : Option SearchCursor) : NotesSearchParams :=
  { X.request.params cursor with query := X.query }

def pager : Pager RawNote (ℤ ×ₗ String) where
  key n := (eventIdentity n).position
  rows := X.matching.map RawNote.ofFields
  keeps := X.engine.keepsNote X.contents X.query X.request.window
  arrange o events :=
    let ranked := X.engine.rankNoteEvents X.contents (X.params none) events
    if o = 0 then capAuthorPage ranked X.request.limit noteAuthorCap else ranked
  limit := X.request.limit
  total := X.frequency.toNat
  maxOffset := 5000

def toCursor (next : ℕ × (ℤ ×ₗ String)) : SearchCursor :=
  { offset := next.1, createdAt := (ofLex next.2).1, id := (ofLex next.2).2 }

variable {X} {F shown : List RawNote} {o : ℕ}

section
variable (cursor : Option SearchCursor)
include cursor

theorem params_query : (X.params cursor).query = X.query := by
  simp only [params]

theorem params_window : (X.params cursor).window = X.request.window := rfl

theorem params_limit : (X.params cursor).limit = X.request.limit := rfl

theorem params_language : (X.params cursor).language = X.request.language := rfl

end

theorem matching_perm : X.matching.Perm (X.store.notes.filter
      (X.store.finds (trimSpace X.query) X.request.window X.request.language)) :=
  KeysetPaging.perm_descending _

theorem id_of_mem_rows {n : RawNote} (hn : n ∈ X.pager.rows) :
    ∃ f ∈ X.store.notes, n = RawNote.ofFields f := by
  obtain ⟨f, hf, rfl⟩ := mem_map.mp hn
  exact ⟨f, (mem_filter.mp (matching_perm.subset hf)).1, rfl⟩

theorem matching_ids_nodup : (X.matching.map NoteFields.id).Nodup := by
  rw [(matching_perm.map NoteFields.id).nodup_iff]
  exact (filter_sublist.map NoteFields.id).nodup X.store.nodup_ids

theorem rows_keys_nodup : (X.pager.rows.map noteKey).Nodup := by
  have hids : (X.pager.rows.map noteKey).map Prod.fst = X.matching.map NoteFields.id := by
    simp only [pager, map_map]
    rfl
  exact List.Nodup.of_map Prod.fst (hids ▸ matching_ids_nodup)

theorem rows_sorted : X.pager.rows.Pairwise fun a b => X.pager.key b < X.pager.key a := by
  have hle : X.matching.Pairwise fun a b => b.position ≤ a.position :=
    KeysetPaging.pairwise_descending _
  have hne : X.matching.Pairwise fun a b => a.id ≠ b.id :=
    pairwise_map.mp matching_ids_nodup
  refine pairwise_map.mpr ((hle.and hne).imp fun {a b} hab => ?_)
  refine lt_of_le_of_ne hab.1 fun heq => hab.2 ?_
  exact (congrArg (fun k => (ofLex k).2) heq).symm

section
variable (hF : X.pager.Fetched F)
include hF

theorem fetched_keys_nodup : (F.map noteKey).Nodup :=
  (hF.1.map noteKey).nodup rows_keys_nodup

theorem ranked_perm :
    (X.engine.rankNoteEvents X.contents (X.params none) F).Perm (F.filter X.pager.keeps) := by
  have hperm := rankNoteEvents_perm (S := X.engine) (C := X.contents) (p := X.params none)
    (fetched_keys_nodup hF)
  rw [params_query, params_window] at hperm
  exact hperm

theorem length_ranked_le :
    (X.engine.rankNoteEvents X.contents (X.params none) F).length ≤ X.request.limit := by
  rw [(ranked_perm hF).length_eq]
  exact (length_filter_le _ _).trans hF.2

theorem arrange_zero : X.pager.arrange 0 F =
      uncapped noteAuthor [] (X.engine.rankNoteEvents X.contents (X.params none) F) := by
  rw [← capAuthorPage_eq (length_ranked_le hF)]
  rfl

end

theorem arrange_pos (ho : 0 < o) (F : List RawNote) :
    X.pager.arrange o F = X.engine.rankNoteEvents X.contents (X.params none) F :=
  if_neg ho.ne'

theorem pager_lawful (hpos : 0 < X.request.limit) : X.pager.Lawful where
  sorted := rows_sorted
  limit_pos := hpos
  subperm o F hF := by
    rcases Nat.eq_zero_or_pos o with rfl | ho
    · rw [arrange_zero hF]
      exact uncapped_sublist.subperm.trans (ranked_perm hF).subperm
    · rw [arrange_pos ho]
      exact (ranked_perm hF).subperm
  later o F ho hF := by
    rw [arrange_pos ho]
    exact ranked_perm hF
  ne_nil F hF hne := by
    have hranked : X.engine.rankNoteEvents X.contents (X.params none) F ≠ [] := by
      intro hnil
      exact hne (nil_perm.mp (hnil ▸ ranked_perm hF))
    obtain ⟨n, rest, hn⟩ := exists_cons_of_ne_nil hranked
    have hmem : n ∈ X.pager.arrange 0 F := by
      simp only [pager, hn, if_true]
      exact head_mem_capAuthorPage n rest _ _
    exact ne_nil_of_mem hmem

theorem lastEventKeyset_eq (hsub : shown ⊆ X.pager.rows) :
    lastEventKeyset shown = shown.getLast?.map fun n => ofLex (X.pager.key n) := by
  cases hlast : shown.getLast? with
  | none => rw [lastEventKeyset, hlast]; rfl
  | some n =>
    obtain ⟨f, hf, rfl⟩ := id_of_mem_rows (hsub (List.mem_of_getLast? hlast))
    have hid := X.store.ids_trimmed f hf
    rw [lastEventKeyset, hlast]
    simp only [Option.bind_some, RawNote.ofFields, hid.2, if_neg hid.1, Option.map_some]
    rfl

theorem searchPageCursor_eq (hsub : shown ⊆ X.pager.rows) :
    searchPageCursor .latest o shown.length X.request.limit
        (noteCorpusTotal X.frequency X.frequency shown.length) shown =
      if X.pager.Followed o shown.length then
        shown.getLast?.map fun n => toCursor (o + shown.length, X.pager.key n)
      else none := by
  have hmore : (shown.length = X.request.limit ∨
      noteCorpusTotal X.frequency X.frequency shown.length > (o + shown.length : ℕ)) ↔
        shown.length = X.pager.limit ∨ o + shown.length < X.pager.total := by
    simp only [noteCorpusTotal, pager]
    omega
  rw [searchPageCursor, if_pos rfl, lastEventKeyset_eq hsub]
  cases hlast : shown.getLast? with
  | none =>
    rw [List.getLast?_eq_none_iff] at hlast
    subst hlast
    simp
  | some n =>
    have hne : shown.length ≠ 0 := by
      intro h0
      rw [length_eq_zero_iff.mp h0] at hlast
      cases hlast
    simp only [if_neg hne, hmore, Option.map_some]
    by_cases hf : X.pager.Followed o shown.length
    · have hmax : ¬ o + shown.length > 5000 := not_lt.mpr hf.2
      rw [if_neg (not_not.mpr hf.1), if_neg hmax, if_pos hf, toCursor]
    · rw [if_neg hf]
      by_cases hm : shown.length = X.pager.limit ∨ o + shown.length < X.pager.total
      · have hmax : o + shown.length > 5000 := not_le.mp fun hle => hf ⟨hm, hle⟩
        rw [if_neg (not_not.mpr hm), if_pos hmax]
      · rw [if_pos hm]

theorem clampSearchLimit_eq {limit : ℕ} (hpos : 0 < limit) (hle : limit ≤ 100) :
    clampSearchLimit limit = limit := by
  rw [clampSearchLimit, if_neg hpos.ne', Nat.min_eq_left hle]

variable (h : X.AsksStore) (hle : X.request.limit ≤ 100) {c : Option (ℤ ×ₗ String)}
  {cursor : Option SearchCursor} {a : RawNote}

include h

theorem page_next {next : ℕ × (ℤ ×ₗ String)} (hpage : X.pager.page o c = (shown, some next)) :
    next.1 ≤ 5000 ∧ ∃ a ∈ X.pager.rows, next.2 = X.pager.key a := by
  have hF := Pager.fetched_take (Pager.below_sublist (P := X.pager) c)
  rw [Pager.page] at hpage
  split_ifs at hpage with hf
  · obtain ⟨a, ha, rfl⟩ := Option.map_eq_some_iff.mp (Prod.mk.inj hpage).2
    refine ⟨hf.2, a, hF.1.subset ?_, rfl⟩
    exact (pager_lawful h.limit_pos).arrange_subset o hF (List.mem_of_getLast? ha)
  · cases (Prod.mk.inj hpage).2

include hle

theorem AsksStore.accepted :
    ¬ (trimSpace X.request.query = "" ∨ X.request.limit = 0 ∨ X.request.limit > 100) := by
  have hpos := h.limit_pos
  rintro (hquery | hlimit)
  · exact h.query_ne hquery
  · omega

theorem normalize_params (hoff : (X.request.params cursor).offset ≤ 5000) :
    Service.normalizeNotesSearchParams (X.request.params cursor) =
      .ok (X.request.params cursor) := by
  have hlimit : (X.request.params cursor).limit = X.request.limit := rfl
  have hquery : trimSpace (X.request.params cursor).query = (X.request.params cursor).query :=
    trimSpace_trimSpace _
  rw [Service.normalizeNotesSearchParams, if_neg (not_lt.mpr hoff), hquery, hlimit,
    clampSearchLimit_eq h.limit_pos hle, ← hlimit]

theorem searchNotes_eq
    (hraw : X.engine.queryIsObviousMiss X.contents (trimSpace X.request.query) = false)
    (hoff : (X.request.params cursor).offset ≤ 5000) :
    X.engine.searchNotes X.contents X.reader (X.request.params cursor) =
      (X.engine.finishNotePage X.contents (X.params cursor), X.frequency) := by
  have hquery : (X.request.params cursor).query = trimSpace X.request.query := rfl
  have hprepare : X.engine.prepareQuery X.contents X.reader (trimSpace X.request.query) =
      X.query := by
    rw [Service.prepareQuery, trimSpace_trimSpace]
    rfl
  have hne : X.query ≠ "" := fun h0 => h.searched_ne (by rw [h0]; decide)
  rw [Service.searchNotes, normalize_params h hle hoff]
  simp only [hquery, if_neg h.query_ne, h.identifier, hraw, hprepare, if_neg hne,
    trimSpace_trimSpace]
  have htrust : X.engine.searchNotesTrustAware X.contents (X.params cursor) =
      X.engine.finishNotePage X.contents (X.params cursor) := by
    rw [Service.searchNotesTrustAware, if_pos (Or.inr _)]
    simp [params, NotesRequest.params]
  rw [← htrust]
  rfl

omit h hle in
theorem finishNotePage_eq (hrows : X.engine.searchNotesPage X.contents (X.params cursor) = .ok F)
    (hF : X.pager.Fetched F) : X.engine.finishNotePage X.contents (X.params cursor) =
      .ok (X.pager.arrange (X.request.params cursor).offset F) := by
  have hcollected : X.engine.searchNotesCollected X.contents (X.params cursor) = .ok F := by
    rw [searchNotesCollected_eq rfl, hrows]
  have hrank : X.engine.rankNoteEvents X.contents (X.params cursor) F =
      X.engine.rankNoteEvents X.contents (X.params none) F :=
    rankNoteEvents_congr ((params_query cursor).trans (params_query none).symm)
      ((params_window cursor).trans (params_window none).symm) rfl F
  have htake := take_of_length_le (length_ranked_le hF)
  have hoffset : (X.params cursor).offset = (X.request.params cursor).offset := rfl
  rw [Service.finishNotePage, hcollected]
  simp only [hrank, hoffset, params_limit, htake, pager]
  split_ifs <;> rfl

omit h hle in
theorem beforeID_first : trimSpace (X.params none).beforeID = "" := by
  simp only [params, NotesRequest.params, Option.map_none, Option.getD_none]
  decide

theorem searchNotesPage_first (hmiss : X.engine.queryIsObviousMiss X.contents X.query = false) :
    X.engine.searchNotesPage X.contents (X.params none) =
      .ok ((X.pager.below none).take X.pager.limit) := by
  have hpage := searchNotesPage_overStore_offset (S := X.service) (C := X.answers)
    X.store (p := X.params none) rfl beforeID_first (by rw [params_query]; exact hmiss)
  have hoffset : (X.params none).offset = 0 := rfl
  rw [params_query, params_window, hoffset, params_limit, params_language, NoteStore.searchNotes,
    if_neg h.searched_ne, if_neg (Nat.not_lt_zero _), clampSearchLimit_eq h.limit_pos hle,
    drop_zero, map_take] at hpage
  exact hpage

theorem searchNotesPage_later (o : ℕ) (ha : a ∈ X.pager.rows) :
    X.engine.searchNotesPage X.contents (X.params (some (toCursor (o, X.pager.key a)))) =
      .ok ((X.pager.below (some (X.pager.key a))).take X.pager.limit) := by
  obtain ⟨f, hf, rfl⟩ := id_of_mem_rows ha
  have hid := X.store.ids_trimmed f hf
  have hbefore : (X.params (some (toCursor (o, X.pager.key (RawNote.ofFields f))))).beforeID =
      f.id := rfl
  have hpage := searchNotesPage_overStore_before (S := X.service) (C := X.answers)
    X.store (p := X.params (some (toCursor (o, X.pager.key (RawNote.ofFields f))))) rfl
    (by rw [hbefore, hid.2]; exact hid.1) (by rw [params_query]; exact h.searched_ne)
  have hcreated : (X.params (some (toCursor (o, X.pager.key
      (RawNote.ofFields f))))).beforeCreatedAt = f.createdAt := rfl
  rw [params_query, params_window, hbefore, hcreated, params_limit, params_language,
    NoteStore.searchNotesBefore, if_neg h.searched_ne, hid.2, if_neg hid.1,
    clampSearchLimit_eq h.limit_pos hle, map_take] at hpage
  refine hpage.trans (congrArg (fun l => Except.ok (List.take X.request.limit l)) ?_)
  have hbelow : X.pager.below (some (X.pager.key (RawNote.ofFields f))) =
      (X.matching.map RawNote.ofFields).filter fun n =>
        X.pager.key n < X.pager.key (RawNote.ofFields f) := rfl
  rw [hbelow, filter_map]
  rfl

theorem handler_eq_page (hmiss : ¬ X.ObviousMiss)
    (cursor : Option SearchCursor) (hoff : (X.request.params cursor).offset ≤ 5000)
    (hrows : X.engine.searchNotesPage X.contents (X.params cursor) =
      .ok ((X.pager.below c).take X.pager.limit)) :
    searchNotesHandler X.engine X.contents X.reader X.request cursor =
      some ((X.pager.page (X.request.params cursor).offset c).1,
        (X.pager.page (X.request.params cursor).offset c).2.map toCursor) := by
  have hF := Pager.fetched_take (Pager.below_sublist (P := X.pager) c)
  have hsub := fun o =>
    List.Subset.trans ((pager_lawful h.limit_pos).arrange_subset o hF) hF.1.subset
  have hraw : X.engine.queryIsObviousMiss X.contents (trimSpace X.request.query) = false := by
    simpa using fun hm => hmiss (.inl hm)
  rw [searchNotesHandler, if_neg (h.accepted hle), searchNotes_eq h hle hraw hoff,
    finishNotePage_eq hrows hF]
  simp only [searchPageCursor_eq (hsub _), Pager.page]
  split_ifs with hf
  · rw [Option.map_map]
    rfl
  · rfl

theorem handler_first (hmiss : ¬ X.ObviousMiss) :
    searchNotesHandler X.engine X.contents X.reader X.request none =
      some ((X.pager.page 0 none).1, (X.pager.page 0 none).2.map toCursor) := by
  have hsearched : X.engine.queryIsObviousMiss X.contents X.query = false := by
    simpa using fun hm => hmiss (.inr hm)
  exact handler_eq_page h hle hmiss none (Nat.zero_le 5000) (searchNotesPage_first h hle hsearched)

theorem handler_later (hmiss : ¬ X.ObviousMiss) (ho : o ≤ 5000) (ha : a ∈ X.pager.rows) :
    searchNotesHandler X.engine X.contents X.reader X.request
        (some (toCursor (o, X.pager.key a))) = some ((X.pager.page o (some (X.pager.key a))).1,
        (X.pager.page o (some (X.pager.key a))).2.map toCursor) :=
  handler_eq_page h hle hmiss (some (toCursor (o, X.pager.key a))) ho
    (searchNotesPage_later h hle o ha)

theorem handler_obviousMiss (hmiss : X.ObviousMiss) :
    searchNotesHandler X.engine X.contents X.reader X.request none = some ([], none) := by
  have hoff : (X.request.params none).offset ≤ 5000 := Nat.zero_le 5000
  have hempty : ∃ frequency, X.engine.searchNotes X.contents X.reader (X.request.params none) =
      (.ok [], frequency) := by
    by_cases hraw : X.engine.queryIsObviousMiss X.contents (trimSpace X.request.query) = true
    · have hquery : (X.request.params none).query = trimSpace X.request.query := rfl
      refine ⟨0, ?_⟩
      rw [Service.searchNotes, normalize_params h hle hoff]
      simp only [hquery, if_neg h.query_ne, h.identifier, hraw, if_true]
    · have hsearched := hmiss.resolve_left hraw
      have hrows : X.engine.searchNotesPage X.contents (X.params none) = .ok [] := by
        rw [Service.searchNotesPage, if_neg fun hb => hb.2.1 beforeID_first,
          Service.searchNotesByOffset, params_query, if_pos hsearched]
      have hnil : X.pager.Fetched [] := ⟨nil_sublist _, Nat.zero_le _⟩
      have harrange : ∀ o, X.pager.arrange o [] = [] := fun o =>
        subset_nil.mp ((pager_lawful h.limit_pos).arrange_subset o hnil)
      refine ⟨X.frequency, ?_⟩
      rw [searchNotes_eq h hle (by simpa using hraw) hoff,
        finishNotePage_eq hrows hnil, harrange]
  obtain ⟨frequency, hsearch⟩ := hempty
  rw [searchNotesHandler, if_neg (h.accepted hle), hsearch]
  rfl

omit hle in
theorem followNextCursor_step {n : ℕ}
    (hresponse : searchNotesHandler X.engine X.contents X.reader X.request cursor =
      some ((X.pager.page o c).1, (X.pager.page o c).2.map toCursor))
    (ih : ∀ o' ≤ 5000, ∀ a ∈ X.pager.rows, followNextCursor X.engine X.contents X.reader X.request n
        (some (toCursor (o', X.pager.key a))) = X.pager.follow n o' (some (X.pager.key a))) :
    followNextCursor X.engine X.contents X.reader X.request (n + 1) cursor =
      X.pager.follow (n + 1) o c := by
  rw [followNextCursor, hresponse, Pager.follow]
  rcases hpage : X.pager.page o c with ⟨shown, next⟩
  cases next with
  | none => rfl
  | some next =>
    obtain ⟨hmax, a, ha, hkey⟩ := page_next h hpage
    have hnext : next = (next.1, X.pager.key a) := by rw [← hkey]
    simp only [Option.map_some]
    rw [hnext, ih _ hmax a ha]

theorem followNextCursor_later (hmiss : ¬ X.ObviousMiss) (n : ℕ) : ∀ o ≤ 5000, ∀ a ∈ X.pager.rows,
      followNextCursor X.engine X.contents X.reader X.request n
        (some (toCursor (o, X.pager.key a))) = X.pager.follow n o (some (X.pager.key a)) := by
  induction n with
  | zero => exact fun o _ a _ => rfl
  | succ n ih =>
    intro o ho a ha
    exact followNextCursor_step h (handler_later h hle hmiss ho ha) ih

theorem pagesThroughEverything_iff_complete (hmiss : ¬ X.ObviousMiss) :
    X.PagesThroughEverything ↔ X.pager.Complete := by
  have hfollow : ∀ n, followNextCursor X.engine X.contents X.reader X.request n none =
      X.pager.follow n 0 none := by
    intro n
    cases n with
    | zero => rfl
    | succ n =>
      exact followNextCursor_step h (handler_first h hle hmiss)
        (followNextCursor_later h hle hmiss n)
  simp only [PagesThroughEverything, hfollow]
  rfl

end StaticSearch
end NostrMash.Search
