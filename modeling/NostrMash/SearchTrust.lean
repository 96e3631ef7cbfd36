import NostrMash.SearchService

/-!
# Trusted authors in note search

The scan loop keeps notes of trusted authors only, and ranking and paging choose from what they are
given. A trusted-only search that reaches no supplement therefore shows trusted authors only.
-/

namespace NostrMash.Search.Service
open List
variable {S : Service} {C : Contents} {p : NotesSearchParams}

section
variable (S C p)

/-- `GetTrustQualification` under the search policy reports the author as trusted. -/
def ReportsTrusted (author : String) : Prop :=
  ∃ rows q, S.getTrustQualification C [author] S.searchTrustPolicy = .ok rows ∧
    rows.lookup author = some q ∧ q.trusted = true

def TrustedPage : Prop :=
  ∀ notes, S.searchNotesTrustAware C p = .ok notes → ∀ n ∈ notes, S.ReportsTrusted C n.pubkey

/-- The query is a single token that the hashtag feed can be asked for. -/
def ReachesHashtagFeed : Prop :=
  trimSpace p.language = "" ∧ S.hasHashtagNotes = true ∧
    ∃ token, S.rules.hashtagSupplementToken p.query = some token ∧
      (S.rules.normalizeHashtag token).isSome = true

/-- A first page on a service with an index, and one of the three supplements: the latest window of
the index, the store scan, or the hashtag feed. -/
def ReachesSupplement : Prop :=
  S.shouldMergeRecent p = true ∧
    (p.window.all (· > hours (7 * 24)) = true ∨ S.hasNotesSearch = true ∨ S.ReachesHashtagFeed p)

end

theorem getTrustQualification_eq (S : Service) (C : Contents) (policy : TrustQualificationPolicy) :
    ∃ answer : Except SearchError (String → TrustQualification), ∀ pubkeys,
      S.getTrustQualification C pubkeys policy =
        if normalizeUniqueStrings pubkeys = [] then .ok []
        else answer.map fun q => (normalizeUniqueStrings pubkeys).map fun k => (k, q k) := by
  unfold getTrustQualification
  cases hs : if S.hasTrustState then C.trustStates else .error .failed with
  | ok states => exact ⟨.ok _, fun pubkeys => rfl⟩
  | error e =>
    by_cases hq : S.hasTrustQualification = true
    · cases ht : C.trustQualifications policy with
      | ok rows => exact ⟨.ok _, fun pubkeys => by simp only [hq]; rfl⟩
      | error e => exact ⟨.error e, fun pubkeys => by simp only [hq]; rfl⟩
    · exact ⟨.error (.unsupportedCapability "trust qualification"), fun pubkeys => by
        simp only [hq]; rfl⟩

theorem mem_normalizeUniqueStrings {values : List String} {x : String} :
    x ∈ normalizeUniqueStrings values ↔ x ≠ "" ∧ ∃ v ∈ values, trimSpace v = x := by
  simp [normalizeUniqueStrings, and_comm]

theorem lookup_map_self {β : Type} (f : String → β) {keys : List String} {k : String} {b : β}
    (h : (keys.map fun k => (k, f k)).lookup k = some b) : k ∈ keys ∧ f k = b := by
  have hk : k ∈ keys := by
    by_contra hk
    rw [lookup_eq_none_iff.mpr] at h
    · exact nomatch h
    · rintro ⟨a, c⟩ hp
      obtain ⟨a', ha, he⟩ := mem_map.mp hp
      cases he
      simpa using fun hka : k = a => hk (hka ▸ ha)
  rw [lookup_graph f hk] at h
  exact ⟨hk, Option.some.inj h⟩

theorem reportsTrusted_of_batch {pubkeys : List String} {rows : List (String × TrustQualification)}
    {author : String} {q : TrustQualification}
    (hrows : S.getTrustQualification C pubkeys S.searchTrustPolicy = .ok rows)
    (hq : rows.lookup author = some q) (ht : q.trusted = true) : S.ReportsTrusted C author := by
  obtain ⟨answer, hanswer⟩ := getTrustQualification_eq S C S.searchTrustPolicy
  rw [hanswer] at hrows
  split_ifs at hrows with he
  · cases hrows
    exact nomatch hq
  cases answer with
  | error e => cases hrows
  | ok f =>
    cases hrows
    obtain ⟨hmem, rfl⟩ := lookup_map_self f hq
    obtain ⟨hne, v, -, hv⟩ := mem_normalizeUniqueStrings.mp hmem
    have htrim : trimSpace author = author := by rw [← hv, trimSpace_trimSpace]
    have hone : author ∈ normalizeUniqueStrings [author] :=
      mem_normalizeUniqueStrings.mpr ⟨hne, author, mem_singleton_self _, htrim⟩
    refine ⟨(normalizeUniqueStrings [author]).map fun k => (k, f k), f author, ?_,
      lookup_graph f hone, ht⟩
    rw [hanswer, if_neg (ne_nil_of_mem hone)]
    rfl

theorem reportsTrusted_of_qualified {batch : List RawNote}
    {qualified : List TrustedSearchNoteCandidate} {c : TrustedSearchNoteCandidate}
    (h : S.qualifySearchNoteBatch C batch = .ok qualified) (hc : c ∈ qualified)
    (ht : c.trusted = true) : S.ReportsTrusted C c.note.pubkey := by
  unfold qualifySearchNoteBatch at h
  split at h
  · cases h
  · next rows hrows =>
    cases h
    obtain ⟨row, -, rfl⟩ := mem_map.mp hc
    simp only [Bool.and_eq_true, Option.any_eq_true] at ht
    obtain ⟨-, q, hq, htrust⟩ := ht
    exact reportsTrusted_of_batch hrows hq htrust

theorem scanCandidates_trusted (hmode : S.searchTrustMode = .trustedOnly)
    {target budget fuel fetched : ℕ} {acc candidates : List TrustedSearchNoteCandidate}
    (hacc : ∀ c ∈ acc, S.ReportsTrusted C c.note.pubkey)
    (h : S.scanCandidates C p target budget fuel fetched acc = .ok candidates) :
    ∀ c ∈ candidates, S.ReportsTrusted C c.note.pubkey := by
  induction fuel generalizing fetched acc with
  | zero =>
    cases h
    exact hacc
  | succ fuel ih =>
    rw [scanCandidates] at h
    dsimp only at h
    split_ifs at h
    · split at h
      · cases h
      · cases h
        exact hacc
      · next row rows _ =>
        split at h
        · cases h
        · next qualified hqualified =>
          have hkeep : ∀ c ∈ acc ++ S.keepByMode qualified, S.ReportsTrusted C c.note.pubkey := by
            intro c hc
            rw [keepByMode, if_pos hmode, mem_append, mem_filter] at hc
            rcases hc with hc | ⟨hc, ht⟩
            · exact hacc c hc
            · exact reportsTrusted_of_qualified hqualified hc ht
          split_ifs at h
          · cases h
            exact hkeep
          · exact ih hkeep h
    · cases h
      exact hacc

theorem hashtagSupplement_of_not_reaches (h : ¬ S.ReachesHashtagFeed p) :
    S.hashtagSupplement C p = [] := by
  unfold hashtagSupplement
  split
  · next token htoken =>
    split_ifs with hl
    · unfold hashtagRecentNotes getHashtagNotes
      cases hn : S.rules.normalizeHashtag token with
      | none => rfl
      | some tag =>
        have hfeed : ¬ S.hasHashtagNotes = true :=
          fun hf => h ⟨hl, hf, token, htoken, by rw [hn]; rfl⟩
        simp only [if_neg hfeed]
    · rfl
  · rfl

theorem supplementFreshNotes_of_not_reaches (h : ¬ S.ReachesSupplement p) (rows : List RawNote) :
    S.supplementFreshNotes C p rows = rows := by
  unfold supplementFreshNotes
  split_ifs with hm hf hw
  · rfl
  · exact absurd ⟨by simpa using hm, .inl hw⟩ h
  · rfl
  · have hfeed : ¬ S.ReachesHashtagFeed p :=
      fun hfeed => h ⟨by simpa using hm, .inr (.inr hfeed)⟩
    have hstore : ¬ S.hasNotesSearch = true :=
      fun hstore => h ⟨by simpa using hm, .inr (.inl hstore)⟩
    simp [supplementStaleNotes, hashtagSupplement_of_not_reaches hfeed, recentNotesFromStore,
      hstore]

theorem rankNoteEvents_subset (events : List RawNote) : S.rankNoteEvents C p events ⊆ events := by
  intro n hn
  apply filterNotesToWindow_subset C.now events p.window
  unfold rankNoteEvents at hn
  dsimp only at hn
  split_ifs at hn
  · exact hn
  all_goals
    have hraw := reorderNotes_subset _ _ hn
    simpa [parseNoteInputs] using hraw

theorem rowsByMode_trustedOnly (rows : List TrustedSearchNoteCandidate) :
    trustedSearchNoteRowsByMode rows .trustedOnly = rows.map (·.note) := rfl

theorem trustedPage_of_not_reaches (hmode : S.searchTrustMode = .trustedOnly)
    (hqual : S.hasTrustQualification = true) (hsort : p.sort = .relevant)
    (h : ¬ S.ReachesSupplement p) : S.TrustedPage C p := by
  intro notes hnotes n hn
  simp only [searchNotesTrustAware, hmode, hsort, hqual, ne_eq, not_true_eq_false, or_false,
    reduceCtorEq, if_false, Bool.true_eq_false] at hnotes
  split at hnotes
  · cases hnotes
  · next candidates hc =>
    have htrusted := scanCandidates_trusted hmode (by simp) hc
    have hsub : notes ⊆ candidates.map (·.note) := by
      rw [supplementFreshNotes_of_not_reaches h, rowsByMode_trustedOnly] at hnotes
      split_ifs at hnotes
      · cases hnotes
        exact fun m hm => rankNoteEvents_subset _ (mem_of_mem_drop (mem_of_mem_take hm))
      · cases hnotes
        exact fun m hm => rankNoteEvents_subset _ (by simpa using mem_of_mem_foldl_capNote hm)
    obtain ⟨c, hmem, rfl⟩ := mem_map.mp (hsub hn)
    exact htrusted c hmem

end NostrMash.Search.Service
