import NostrMash.SearchSupplement
import NostrMash.StorePages

/-!
# When latest search pages through everything

Following `next_cursor` shows every matching note exactly once if and only if the pages show the
matching notes in order, up to the order within each page. Three things break this order.
-/

namespace NostrMash.Search

theorem getLast?_eq_iff_map {α β : Type} {f : α → β} {A B l : List α} (hl : (l.map f).Nodup)
    (hA : A ⊆ l) (hB : B ⊆ l) :
    A.getLast? = B.getLast? ↔ (A.map f).getLast? = (B.map f).getLast? := by
  rw [List.getLast?_map, List.getLast?_map]
  refine ⟨congrArg _, fun h => ?_⟩
  cases ha : A.getLast? with
  | none =>
    rw [ha, Option.map_none, eq_comm, Option.map_eq_none_iff] at h
    exact h.symm
  | some a =>
    rw [ha, Option.map_some, eq_comm, Option.map_eq_some_iff] at h
    obtain ⟨b, hb, hab⟩ := h
    have hmem := List.inj_on_of_nodup_map hl (hB (List.mem_of_getLast? hb))
      (hA (List.mem_of_getLast? ha)) hab
    rw [hb, hmem]

def NoteFields.key (n : NoteFields) : String × String := (n.id, n.pubkey)

namespace StaticSearch
open RearrangedPages List Pager Service

section
variable (X : StaticSearch)

def inputs (notes : List NoteFields) : List NoteScoreInput :=
  X.engine.noteInputs X.contents X.query (notes.map RawNote.ofFields)

def notesFrom (o : ℕ) : List NoteFields := (X.matching.drop o).take X.request.limit

/-- The notes of the first page with fewer than two notes of their author before them, in the latest
order: newest first, with the automated notes and the near duplicates behind the others. -/
def firstPage : List NoteScoreInput :=
  uncapped NoteScoreInput.author []
    (settledNotes X.engine.rules X.query (X.inputs (X.notesFrom 0)) X.contents.now)

def GoesOn (o len : ℕ) : Prop :=
  (len = X.request.limit ∨ (o + len : ℕ) < X.frequency) ∧ o + len ≤ 5000

instance (o len : ℕ) : Decidable (X.GoesOn o len) := inferInstanceAs (Decidable ((_ ∨ _) ∧ _))

/-- The pages show the matching notes in order, up to the order within each page. -/
structure ShownInOrder : Prop where
  /-- The ranker drops no note for a quoted phrase, and no note leaves the window. -/
  kept : ∀ n ∈ X.matching,
    X.engine.keepsNote X.contents X.query X.request.window (RawNote.ofFields n) = true
  /-- What the author cap leaves of the first page are the newest notes. -/
  newest : (X.firstPage.map NoteScoreInput.key).Perm
    ((X.matching.take X.firstPage.length).map NoteFields.key)
  /-- The first page is followed by another one unless it shows all matching notes. -/
  goesOn : X.firstPage.length < X.matching.length → X.GoesOn 0 X.firstPage.length
  /-- The oldest note that a followed first page shows comes last. -/
  oldest : X.GoesOn 0 X.firstPage.length → (X.firstPage.map NoteScoreInput.key).getLast? =
    ((X.matching.take X.firstPage.length).map NoteFields.key).getLast?
  /-- Later pages are issued up to the last matching note, and the oldest note of a followed one
  comes last. -/
  later : ∀ k, X.firstPage.length + k * X.request.limit < X.matching.length →
    (0 < k → X.firstPage.length + k * X.request.limit ≤ 5000) ∧
      (X.GoesOn (X.firstPage.length + k * X.request.limit)
          (X.notesFrom (X.firstPage.length + k * X.request.limit)).length →
        OldestLast X.engine.rules X.query
          (X.inputs (X.notesFrom (X.firstPage.length + k * X.request.limit))) X.contents.now)

end

variable {X : StaticSearch}

section
variable (hkept : ∀ n ∈ X.matching,
  X.engine.keepsNote X.contents X.query X.request.window (RawNote.ofFields n) = true)

theorem part_eq (o : ℕ) : X.pager.part o = (X.notesFrom o).map RawNote.ofFields := by
  rw [notesFrom, map_take, map_drop]
  rfl

theorem notesFrom_sublist (o : ℕ) : (X.notesFrom o).Sublist X.matching :=
  (take_sublist _ _).trans (drop_sublist _ _)

theorem goesOn_iff {o len : ℕ} : X.GoesOn o len ↔ X.pager.Followed o len := by
  have htotal : ((o + len : ℕ) : ℤ) < X.frequency ↔ o + len < X.pager.total := by
    simp only [pager]
    omega
  rw [GoesOn, htotal]
  rfl

theorem inputs_pairwise (o : ℕ) : (X.inputs (X.notesFrom o)).Pairwise fun a b =>
    b.features.createdAt ≤ a.features.createdAt := by
  apply noteInputs_pairwise
  have hle : X.matching.Pairwise fun a b => b.position ≤ a.position :=
    KeysetPaging.pairwise_descending _
  refine pairwise_map.mpr ((hle.sublist (notesFrom_sublist o)).imp fun {a b} hab => ?_)
  rcases Prod.Lex.le_iff.mp hab with hlt | heq
  · exact hlt.le
  · exact heq.1.le

theorem map_key_inputs (notes : List NoteFields) :
    (X.inputs notes).map NoteScoreInput.key = notes.map NoteFields.key := by
  rw [inputs, map_key_noteInputs, map_map]
  rfl

include hkept in
theorem inputs_phrases (o : ℕ) : ∀ n ∈ X.inputs (X.notesFrom o),
    X.engine.rules.contentMatchesPhrases n.features.content
      (X.engine.rules.parseSearchQuery X.query).phrases = true := by
  intro n hn
  have hfacts := mem_map_of_mem (f := Service.noteInputFacts) hn
  rw [inputs, map_facts_noteInputs, map_map] at hfacts
  obtain ⟨f, hf, hfn⟩ := mem_map.mp hfacts
  have hcontent : f.content = n.features.content := congrArg (fun facts => facts.2.2) hfn
  rw [← hcontent]
  exact (Bool.and_eq_true_iff.mp (hkept f ((notesFrom_sublist o).subset hf))).2

include hkept in
theorem map_noteKey_ranked (o : ℕ) :
    (X.engine.rankNoteEvents X.contents (X.params none) (X.pager.part o)).map noteKey =
      (rankNotes X.engine.rules X.query (X.inputs (X.notesFrom o)) .latest X.contents.now).map
        NoteScoreInput.key := by
  have hwindow : filterNotesToWindow X.contents.now (X.pager.part o) X.request.window =
      X.pager.part o := by
    rw [filterNotesToWindow_eq, filter_eq_self, part_eq]
    intro n hn
    obtain ⟨f, hf, rfl⟩ := mem_map.mp hn
    exact (Bool.and_eq_true_iff.mp (hkept f ((notesFrom_sublist o).subset hf))).1
  have hsort : (X.params none).sort = .latest := rfl
  rw [map_noteKey_rankNoteEvents (fetched_keys_nodup (fetched_part o)),
    params_window, hwindow, params_query, hsort, part_eq]
  rfl

include hkept in
theorem map_noteKey_first : (X.pager.arrange 0 (X.pager.part 0)).map noteKey =
      X.firstPage.map NoteScoreInput.key := by
  rw [arrange_zero (fetched_part 0), noteAuthor_eq, ← uncapped_map,
    map_noteKey_ranked hkept 0, uncapped_map, ← NoteScoreInput.author_eq,
    uncapped_rankNotes_latest (inputs_pairwise 0) (inputs_phrases hkept 0)]
  rfl

theorem map_key_rows (m : ℕ) :
    (X.pager.rows.take m).map noteKey = (X.matching.take m).map NoteFields.key := by
  have hrows : X.pager.rows.map noteKey = X.matching.map NoteFields.key := by
    simp only [pager, map_map]
    rfl
  rw [map_take, hrows, map_take]

include hkept in
theorem getLast?_later_iff {o : ℕ} (ho : 0 < o) :
    (X.pager.arrange o (X.pager.part o)).getLast? = (X.pager.part o).getLast? ↔
      OldestLast X.engine.rules X.query (X.inputs (X.notesFrom o)) X.contents.now := by
  have hF := fetched_part (P := X.pager) o
  have hnd : ((X.inputs (X.notesFrom o)).map NoteScoreInput.key).Nodup := by
    have hkeys := fetched_keys_nodup hF
    rw [part_eq, map_map] at hkeys
    rw [map_key_inputs]
    exact hkeys
  have hsub : rankNotes X.engine.rules X.query (X.inputs (X.notesFrom o)) .latest
      X.contents.now ⊆ X.inputs (X.notesFrom o) := fun n hn => (mem_rankNotes.mp hn).1
  rw [← getLast?_rankNotes_latest (inputs_pairwise o) (inputs_phrases hkept o),
    getLast?_eq_iff_map hnd hsub (List.Subset.refl _), ← map_noteKey_ranked hkept o,
    map_key_inputs, arrange_pos ho,
    getLast?_eq_iff_map (fetched_keys_nodup hF) (rankNoteEvents_subset _)
      (List.Subset.refl _)]
  have hpart : (X.pager.part o).map noteKey = (X.notesFrom o).map NoteFields.key := by
    rw [part_eq, map_map]
    rfl
  rw [hpart]

end

theorem length_rows : X.pager.rows.length = X.matching.length := length_map _

theorem firstPage_pos (hpos : 0 < X.request.limit) (hkept : ∀ n ∈ X.matching,
    X.engine.keepsNote X.contents X.query X.request.window (RawNote.ofFields n) = true)
    (hne : 0 < X.matching.length) : 0 < X.firstPage.length := by
  have hkeep : (X.pager.part 0).filter X.pager.keeps = X.pager.part 0 := by
    rw [filter_eq_self, part_eq]
    intro n hn
    obtain ⟨f, hf, rfl⟩ := mem_map.mp hn
    exact hkept f ((notesFrom_sublist 0).subset hf)
  have hpart : X.pager.part 0 ≠ [] := by
    rw [← length_pos_iff, length_part, length_rows]
    exact lt_min hpos hne
  have hshown := (pager_lawful hpos).ne_nil _ (fetched_part 0) (by rwa [hkeep])
  have hlen := congrArg List.length (map_noteKey_first hkept)
  rw [length_map, length_map] at hlen
  rw [← hlen]
  exact length_pos_of_ne_nil hshown

theorem inOrder_iff (hpos : 0 < X.request.limit) :
    X.pager.InOrder (X.pager.arrange 0 (X.pager.part 0)) ↔ X.ShownInOrder := by
  have hkeeps : (∀ n ∈ X.pager.rows, X.pager.keeps n = true) ↔ ∀ n ∈ X.matching,
      X.engine.keepsNote X.contents X.query X.request.window (RawNote.ofFields n) = true :=
    forall_mem_map
  by_cases hkept : ∀ n ∈ X.matching,
      X.engine.keepsNote X.contents X.query X.request.window (RawNote.ofFields n) = true
  swap
  · exact iff_of_false (fun h => hkept (hkeeps.mp h.keeps)) fun h => hkept h.kept
  have hfirst := map_noteKey_first hkept
  have hlen : (X.pager.arrange 0 (X.pager.part 0)).length = X.firstPage.length := by
    simpa using congrArg List.length hfirst
  have hsub := List.Subset.trans
    ((pager_lawful hpos).arrange_subset 0 (fetched_part 0)) (fetched_part 0).1.subset
  have htake := take_sublist X.firstPage.length X.pager.rows
  have htop : (X.pager.arrange 0 (X.pager.part 0)).Perm (X.pager.rows.take X.firstPage.length) ↔
      (X.firstPage.map NoteScoreInput.key).Perm
        ((X.matching.take X.firstPage.length).map NoteFields.key) := by
    rw [← hfirst, ← map_key_rows]
    exact ⟨fun h => h.map noteKey, perm_of_map_perm rows_keys_nodup hsub htake⟩
  have hlast : (X.pager.arrange 0 (X.pager.part 0)).getLast? =
      (X.pager.rows.take X.firstPage.length).getLast? ↔
        (X.firstPage.map NoteScoreInput.key).getLast? =
          ((X.matching.take X.firstPage.length).map NoteFields.key).getLast? := by
    rw [← hfirst, ← map_key_rows]
    exact getLast?_eq_iff_map rows_keys_nodup hsub htake.subset
  have hlater : X.pager.LaterInPlace X.firstPage.length ↔
      ∀ k, X.firstPage.length + k * X.request.limit < X.matching.length →
        (0 < k → X.firstPage.length + k * X.request.limit ≤ 5000) ∧
          (X.GoesOn (X.firstPage.length + k * X.request.limit)
              (X.notesFrom (X.firstPage.length + k * X.request.limit)).length →
            OldestLast X.engine.rules X.query
              (X.inputs (X.notesFrom (X.firstPage.length + k * X.request.limit)))
              X.contents.now) := by
    refine forall_congr' fun k => ?_
    rw [length_rows]
    refine imp_congr_right fun hk => and_congr_right fun _ => ?_
    have hfirstPos := firstPage_pos hpos hkept (Nat.zero_lt_of_lt hk)
    rw [Pager.InPlace, getLast?_later_iff hkept (Nat.add_pos_left hfirstPos _), goesOn_iff,
      part_eq, length_map]
    rfl
  constructor
  · rintro ⟨-, top, goesOn, last, later⟩
    rw [hlen] at top goesOn last later
    refine ⟨hkept, htop.mp top, ?_, ?_, hlater.mp later⟩
    · rwa [goesOn_iff, ← length_rows]
    · rwa [goesOn_iff, ← hlast]
  · rintro ⟨-, newest, goesOn, oldest, later⟩
    rw [goesOn_iff] at goesOn oldest
    constructor
    · exact hkeeps.mpr hkept
    · rw [hlen]
      exact htop.mpr newest
    · rwa [hlen, length_rows]
    · rwa [hlen, hlast]
    · rw [hlen]
      exact hlater.mpr later

/-- The paging shows every matching note exactly once if and only if the handler accepts the limit,
the store is asked unless nothing matches, and the pages show the notes in order. -/
theorem pagesThroughEverything_iff_shownInOrder (h : X.AsksStore) :
    X.PagesThroughEverything ↔ X.request.limit ≤ 100 ∧ (X.ObviousMiss → X.matching = []) ∧
      X.ShownInOrder := by
  by_cases hle : X.request.limit ≤ 100
  swap
  · refine iff_of_false ?_ fun hall => hle hall.1
    rintro ⟨n, shown, hn, -⟩
    cases n with
    | zero => cases hn
    | succ n =>
      rw [followNextCursor, searchNotesHandler, if_pos (.inr (.inr (not_le.mp hle)))] at hn
      cases hn
  rw [and_iff_right hle, ← inOrder_iff h.limit_pos]
  by_cases hmiss : X.ObviousMiss
  · have hfollow : ∀ n, followNextCursor X.engine X.contents X.reader X.request (n + 1) none =
        some [] := by
      intro n
      rw [followNextCursor, handler_obviousMiss h hle hmiss]
    constructor
    · rintro ⟨n, shown, hn, hperm⟩
      cases n with
      | zero => cases hn
      | succ n =>
        rw [hfollow] at hn
        cases hn
        have hnil : X.matching = [] := map_eq_nil_iff.mp (nil_perm.mp hperm)
        refine ⟨fun _ => hnil, inOrder_of_nil (pager_lawful h.limit_pos) ?_⟩
        exact map_eq_nil_iff.mpr hnil
    · rintro ⟨hnil, -⟩
      refine ⟨1, [], hfollow 0, ?_⟩
      rw [hnil hmiss]
      exact List.Perm.refl _
  · rw [pagesThroughEverything_iff_complete h hle hmiss,
      complete_iff (pager_lawful h.limit_pos) rfl]
    exact ⟨fun hin => ⟨fun hm => absurd hm hmiss, hin⟩, fun hin => hin.2⟩

theorem not_pagesThroughEverything_of_short (len : ℕ)
    (hpage : (searchNotesHandler X.engine X.contents X.reader X.request none).map
      (fun response => (response.1.length, response.2.isNone)) = some (len, true))
    (hlen : len ≠ X.matching.length) : ¬ X.PagesThroughEverything := by
  obtain ⟨⟨events, next⟩, hresponse, hfields⟩ := Option.map_eq_some_iff.mp hpage
  obtain ⟨rfl, hnone⟩ := Prod.mk.inj hfields
  obtain rfl : next = none := Option.isNone_iff_eq_none.mp hnone
  rintro ⟨n, shown, hn, hperm⟩
  cases n with
  | zero => cases hn
  | succ n =>
    rw [followNextCursor, hresponse] at hn
    cases hn
    exact hlen (by simpa using hperm.length_eq)

def bitcoinNote (id pubkey : String) (createdAt : ℤ) : NoteFields :=
  { id := id, pubkey := pubkey, content := "bitcoin", createdAt := createdAt, replyCount := 0,
    repostCount := 0, reactionCount := 0, zapCount := 0 }

def threeNotes (first second third : String) : NoteStore where
  notes := [bitcoinNote "n1" first 1700000001, bitcoinNote "n2" second 1700000002,
    bitcoinNote "n3" third 1700000003]
  finds _ _ _ _ := true
  nodup_ids := by simp [bitcoinNote]
  ids_trimmed := by
    intro n hn
    simp only [mem_cons, not_mem_nil, or_false] at hn
    rcases hn with rfl | rfl | rfl
    · simp only [bitcoinNote]
      decide
    · simp only [bitcoinNote]
      decide
    · simp only [bitcoinNote]
      decide

def plainReader : QueryReader :=
  { canonicalizeEventIdentifier := fun _ => none
    getEventByID := fun _ => .ok none
    isRelayHost := fun _ => false
    chooseCorrection := fun _ _ => none }

def searchOf (store : NoteStore) (limit : ℕ) : StaticSearch :=
  { store := store
    service := Service.strictService false
    answers := Service.twoDocuments
    reader := plainReader
    request := { query := "bitcoin", window := none, language := "", limit := limit } }

def oneAuthor : StaticSearch := searchOf (threeNotes "alice" "alice" "alice") 10

def twoAuthors : StaticSearch := searchOf (threeNotes "alice" "bob" "alice") 2

theorem twoAuthors_shownInOrder : twoAuthors.ShownInOrder where
  kept := by decide
  newest := by decide
  goesOn := by decide
  oldest := by decide
  later := by
    have hfirst : twoAuthors.firstPage.length = 2 := by decide
    have hmatching : twoAuthors.matching.length = 3 := by decide
    have hlimit : twoAuthors.request.limit = 2 := rfl
    intro k hk
    obtain rfl : k = 0 := by
      rw [hfirst, hmatching, hlimit] at hk
      omega
    exact ⟨fun h => absurd h (Nat.lt_irrefl 0), by decide⟩

/-- A page of two authors and a third note on the second page. -/
theorem twoAuthors_pagesThroughEverything : twoAuthors.PagesThroughEverything :=
  (pagesThroughEverything_iff_shownInOrder ⟨by decide, by decide, rfl, by decide⟩).mpr
    ⟨by decide, fun hmiss => absurd hmiss (by rw [ObviousMiss]; decide),
      twoAuthors_shownInOrder⟩

/-- Three notes of one author: the first page shows two of them and carries no cursor. -/
theorem third_note_never_shown :
    oneAuthor.AsksStore ∧ oneAuthor.request.limit ≤ 100 ∧ ¬ oneAuthor.PagesThroughEverything :=
  ⟨⟨by decide, by decide, rfl, by decide⟩, by decide,
    not_pagesThroughEverything_of_short 2 (by decide) (by decide)⟩

end StaticSearch
end NostrMash.Search
