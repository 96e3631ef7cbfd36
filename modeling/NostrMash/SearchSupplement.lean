import NostrMash.SearchTrust

/-!
# Supplements of a trusted-only search

The notes that `supplementFreshNotes` blends in are not qualified.
-/

namespace NostrMash.Search.Service
open List
variable {S : Service} {C : Contents} {p : NotesSearchParams}

section
variable (S C p)

def plainNote (who content : String) : RawNote :=
  RawNote.ofFields
    { id := who, pubkey := who, content := content, createdAt := 0, replyCount := 0,
      repostCount := 0, reactionCount := 0, zapCount := 0 }

theorem id_plainNote (who content : String) : (eventIdentity (plainNote who content)).id = who :=
  rfl

def plainTrending (who content : String) : TrendingNote :=
  { eventID := who, authorPubkey := who, createdAt := 0, content := content, replyCount := 0,
    repostCount := 0, reactionCount := 0, zapCount := 0 }

structure FixedAnswers where
  now : ℤ
  relevant : List RawNote
  latest : List RawNote
  stored : List RawNote
  feed : List TrendingNote

variable (a : FixedAnswers) {text : String}

def fixedContents : Contents :=
  { now := a.now
    indexNotes := fun _ sort _ _ _ _ =>
      match sort with
      | .relevant => .ok a.relevant
      | .latest => .ok a.latest
    storeNotes := fun _ _ _ _ _ _ => .ok a.stored
    storeNotesBefore := fun _ _ _ _ _ _ => .error .failed
    eventsByContent := fun _ _ => .error .failed
    hashtagFrequency := fun _ => .ok 1
    hashtagNotes := fun _ _ _ _ _ => .ok a.feed
    engineScore := fun _ => 0
    eventCounts := .error .failed
    profileSignals := .error .failed
    trustStates := .ok fun k =>
      if k = "t" then
        some { unknownState k with
          qualified := true
          score := some S.searchTrustPolicy.minimumScore }
      else none
    trustQualifications := fun _ => .ok fun k =>
      if k = "t" then some { unknownQualification k with trusted := true } else none }

theorem trustStateTrusted_minimum (policy : TrustQualificationPolicy) (k : String) :
    trustStateTrusted { unknownState k with qualified := true, score := some policy.minimumScore }
      (normalizeTrustPolicy policy) = true := by
  by_cases h : policy.minimumScore < 0
  · simp [trustStateTrusted, unknownState, normalizeTrustPolicy, h]
  · simp [trustStateTrusted, unknownState, normalizeTrustPolicy, h]

theorem getTrustQualification_fixed (hqual : S.hasTrustQualification = true) {k : String}
    (hk : normalizeUniqueStrings [k] = [k]) : ∃ q, S.getTrustQualification (S.fixedContents a) [k]
        S.searchTrustPolicy = .ok [(k, q)] ∧ q.trusted = decide (k = "t") := by
  unfold getTrustQualification
  rw [hk]
  by_cases hs : S.hasTrustState = true
  · refine ⟨_, by simp only [hs]; rfl, ?_⟩
    by_cases ht : k = "t"
    · simp [ht, trustQualificationFromState, trustStateTrusted_minimum]
    · simp [ht, trustQualificationFromState, trustStateTrusted, unknownState]
  · refine ⟨_, by simp only [hs, hqual]; rfl, ?_⟩
    by_cases ht : k = "t"
    · simp [ht]
    · simp [ht, unknownQualification]

theorem not_reportsTrusted_u (hqual : S.hasTrustQualification = true) :
    ¬ S.ReportsTrusted (S.fixedContents a) "u" := by
  rintro ⟨rows, q, hrows, hq, ht⟩
  obtain ⟨q', hq', htrust⟩ := getTrustQualification_fixed S a hqual (k := "u") (by decide)
  rw [hq'] at hrows
  cases hrows
  simp only [lookup_cons, beq_self_eq_true, Option.some.injEq] at hq
  rw [hq, ht] at htrust
  exact nomatch htrust

theorem qualify_fixed (hqual : S.hasTrustQualification = true) (text : String) :
    S.qualifySearchNoteBatch (S.fixedContents a)
      [plainNote "t" text] = .ok [⟨plainNote "t" text, true⟩] := by
  obtain ⟨q, hq, htrust⟩ := getTrustQualification_fixed S a hqual (k := "t")
    (by decide)
  simp [qualifySearchNoteBatch, plainNote, RawNote.ofFields, hq, htrust]

theorem searchNotesPage_fixed (hindex : S.hasMeilisearch = true) (hsort : p.sort = .relevant)
    (limit offset : ℕ) :
    S.searchNotesPage (S.fixedContents a) { p with limit := limit, offset := offset } =
      .ok a.relevant := by
  have hmiss : S.queryIsObviousMiss (S.fixedContents a) p.query = false := by
    simp [queryIsObviousMiss, noHashtagPostings, fixedContents]
  simp only [searchNotesPage, searchNotesByOffset, hsort, hmiss, hindex]
  simp [fixedContents]

theorem scanCandidates_fixed_nil (hindex : S.hasMeilisearch = true) (hsort : p.sort = .relevant)
    (ha : a.relevant = []) (target budget fuel : ℕ) :
    S.scanCandidates (S.fixedContents a) p target budget fuel 0 [] = .ok [] := by
  cases fuel with
  | zero => rfl
  | succ fuel =>
    rw [scanCandidates]
    split_ifs
    · simp only [searchNotesPage_fixed S p a hindex hsort, ha]
    · rfl

theorem scanCandidates_fixed_single (hindex : S.hasMeilisearch = true)
    (hqual : S.hasTrustQualification = true) (hmode : S.searchTrustMode = .trustedOnly)
    (hsort : p.sort = .relevant) (ha : a.relevant = [plainNote "t" text]) {target budget fuel : ℕ}
    (htarget : 0 < target) (hbudget : target ≤ budget) (hfuel : 0 < fuel) :
    S.scanCandidates (S.fixedContents a) p target budget fuel 0 [] =
      .ok [⟨plainNote "t" text, true⟩] := by
  obtain ⟨fuel, rfl⟩ := Nat.exists_eq_add_of_lt hfuel
  rw [Nat.zero_add, scanCandidates, if_pos (by omega)]
  simp only [searchNotesPage_fixed S p a hindex hsort, ha, qualify_fixed S a hqual, keepByMode,
    hmode, if_true, nil_append, filter_cons, filter_nil]
  refine if_pos ?_
  simp only [length_cons, length_nil]
  omega

theorem filterNotesToWindow_plain (now : ℤ) (rows : List RawNote) (window : Option ℤ)
    (h : ∀ n ∈ rows, (eventIdentity n).createdAt = 0) :
    filterNotesToWindow now rows window = rows := by
  unfold filterNotesToWindow
  split
  · rfl
  · split_ifs
    · rfl
    · exact filter_eq_self.mpr fun n hn => by simp [h n hn]

theorem attachNoteSignals_fixed (inputs : List NoteScoreInput) :
    S.attachNoteSignals (S.fixedContents a) inputs = inputs := by
  have hone : ∀ note, S.attachProfileSignal (S.fixedContents a)
      (S.attachEventCounts (S.fixedContents a) note) = note := by
    intro note
    simp [attachProfileSignal, attachEventCounts, fixedContents]
  simp [attachNoteSignals, hone]

theorem rankNoteEvents_fixed_pair (hsort : p.sort = .relevant)
    (ht : S.rules.contentMatchesPhrases text (S.rules.parseSearchQuery p.query).phrases = true) :
    S.rankNoteEvents (S.fixedContents a) p [plainNote "u" text, plainNote "t" text] =
      [plainNote "u" text, plainNote "t" text] := by
  have hfilter : filterNotesToWindow (S.fixedContents a).now
      [plainNote "u" text, plainNote "t" text] p.window =
      [plainNote "u" text, plainNote "t" text] :=
    filterNotesToWindow_plain _ _ _ (by simp [plainNote])
  simp only [rankNoteEvents, hfilter, attachNoteSignals_fixed]
  split_ifs
  · rfl
  all_goals
    rw [hsort]
    simp only [parseNoteInputs, map_cons, map_nil]
    rw [rankNotes_pair (by simp [withEngineScore, fixedContents, plainNote])
      (by simp [withEngineScore, fixedContents, plainNote])
      (by simpa [withEngineScore, fixedContents, plainNote] using ht)]
    simp [reorderNotes, withEngineScore, fixedContents, plainNote]

theorem rankNoteEvents_fixed_single
    (ht : S.rules.contentMatchesPhrases text (S.rules.parseSearchQuery p.query).phrases = true) :
    S.rankNoteEvents (S.fixedContents a) p [plainNote "u" text] = [plainNote "u" text] := by
  have hfilter : filterNotesToWindow (S.fixedContents a).now [plainNote "u" text] p.window =
      [plainNote "u" text] := filterNotesToWindow_plain _ _ _ (by simp [plainNote])
  simp only [rankNoteEvents, hfilter, attachNoteSignals_fixed]
  split_ifs
  · rfl
  all_goals
    simp only [parseNoteInputs, map_cons, map_nil]
    rw [rankNotes_single (by simpa [withEngineScore, fixedContents, plainNote] using ht)]
    simp [reorderNotes, withEngineScore, fixedContents, plainNote]

theorem not_trustedPage_of_first (hmode : S.searchTrustMode = .trustedOnly)
    (hqual : S.hasTrustQualification = true) (hsort : p.sort = .relevant) (hoffset : p.offset = 0)
    {candidates : List TrustedSearchNoteCandidate}
    (hscan : S.scanCandidates (S.fixedContents a) p (targetRows p) (S.scanBudget p)
      (S.scanBudget p) 0 [] = .ok candidates) (rest : List RawNote) (text : String)
    (hrank : S.rankNoteEvents (S.fixedContents a) p (S.supplementFreshNotes (S.fixedContents a) p
      (candidates.map (·.note))) = plainNote "u" text :: rest) :
    ¬ S.TrustedPage (S.fixedContents a) p := by
  intro h
  refine not_reportsTrusted_u S a hqual (h _ ?_ (plainNote "u" text)
    (head_mem_capAuthorPage _ rest p.limit noteAuthorCap))
  simp only [searchNotesTrustAware, hmode, hsort, hqual, hscan, hoffset, ne_eq, not_true_eq_false,
    or_false, reduceCtorEq, if_false, Bool.true_eq_false, rowsByMode_trustedOnly, hrank,
    gt_iff_lt, lt_self_iff_false]

theorem shouldMergeRecent_iff : S.shouldMergeRecent p = true ↔
    S.hasMeilisearch = true ∧ p.sort = .relevant ∧ p.offset = 0 ∧ trimSpace p.beforeID = "" := by
  simp [shouldMergeRecent, and_assoc]

theorem targetRows_pos : 0 < targetRows p := by
  unfold targetRows
  split_ifs with h
  · decide
  · omega

def leakText : String := phraseText (S.rules.parseSearchQuery p.query).phrases

theorem leakText_matches : S.rules.contentMatchesPhrases (S.leakText p)
    (S.rules.parseSearchQuery p.query).phrases = true := contentMatchesPhrases_phraseText _ _

theorem hashtagSupplement_fixed_nil (ha : a.feed = []) :
    S.hashtagSupplement (S.fixedContents a) p = [] := by
  have hnotes : ∀ token, S.hashtagRecentNotes (S.fixedContents a) token = [] := by
    intro token
    unfold hashtagRecentNotes getHashtagNotes
    cases S.rules.normalizeHashtag token with
    | none => rfl
    | some tag =>
      by_cases h : S.hasHashtagNotes = true
      · simp [h, fixedContents, ha, trendingNotesAsEvents]
      · simp [h]
  unfold hashtagSupplement
  split
  · split_ifs
    · exact hnotes _
    · rfl
  · rfl

variable {S p a} (hmode : S.searchTrustMode = .trustedOnly)
  (hqual : S.hasTrustQualification = true) (hmerge : S.shouldMergeRecent p = true)

include hmode hqual hmerge

theorem leaks_of_supplement (ha : a.relevant = [plainNote "t" (S.leakText p)])
    (hsupp : S.supplementFreshNotes (S.fixedContents a) p [plainNote "t" (S.leakText p)] =
      [plainNote "u" (S.leakText p), plainNote "t" (S.leakText p)]) :
    ¬ S.TrustedPage (S.fixedContents a) p := by
  obtain ⟨hindex, hsort, hoffset, -⟩ := (shouldMergeRecent_iff S p).mp hmerge
  have hbudget : targetRows p ≤ S.scanBudget p := le_max_left _ _
  have hscan := scanCandidates_fixed_single S p a hindex hqual hmode hsort ha (targetRows_pos p)
    hbudget ((targetRows_pos p).trans_le hbudget)
  refine not_trustedPage_of_first S p a hmode hqual hsort hoffset hscan
    [plainNote "t" (S.leakText p)] (S.leakText p) ?_
  simp only [map_cons, map_nil, hsupp]
  exact rankNoteEvents_fixed_pair S p a hsort (leakText_matches S p)

theorem latest_window_leaks (hwindow : p.window.all (· > hours (7 * 24)) = true) :
    ∃ C, ¬ S.TrustedPage C p := by
  obtain ⟨hindex, -⟩ := (shouldMergeRecent_iff S p).mp hmerge
  refine ⟨S.fixedContents
    { now := 0
      relevant := [plainNote "t" (S.leakText p)]
      latest := [plainNote "u" (S.leakText p)]
      stored := []
      feed := [] }, leaks_of_supplement hmode hqual hmerge rfl ?_⟩
  have hfresh : notesAreFresh 0 [plainNote "t" (S.leakText p)] noteFreshWindow = true := by
    simp [notesAreFresh, plainNote, noteFreshWindow, hours, unixTime, second]
  simp only [supplementFreshNotes, hmerge, hwindow, fixedContents, hfresh]
  simp [meiliRecentNotes, hindex, mergeNoteEvents, id_plainNote]

theorem store_scan_leaks (hstore : S.hasNotesSearch = true) : ∃ C, ¬ S.TrustedPage C p := by
  refine ⟨S.fixedContents
    { now := hours 48
      relevant := [plainNote "t" (S.leakText p)]
      latest := []
      stored := [plainNote "u" (S.leakText p)]
      feed := [] }, leaks_of_supplement hmode hqual hmerge rfl ?_⟩
  have hstale :
      notesAreFresh (hours 48) [plainNote "t" (S.leakText p)] noteFreshWindow = false := by
    simp [notesAreFresh, plainNote, noteFreshWindow, hours, unixTime, second]
  have hfeed := hashtagSupplement_fixed_nil S p
    { now := hours 48
      relevant := [plainNote "t" (S.leakText p)]
      latest := []
      stored := [plainNote "u" (S.leakText p)]
      feed := [] } rfl
  simp only [supplementFreshNotes, hmerge, supplementStaleNotes, hfeed, recentNotesFromStore,
    hstore]
  simp [fixedContents, hstale, mergeNoteEvents, id_plainNote]

theorem hashtag_feed_leaks (hfeed : S.ReachesHashtagFeed p) : ∃ C, ¬ S.TrustedPage C p := by
  obtain ⟨hindex, hsort, hoffset, -⟩ := (shouldMergeRecent_iff S p).mp hmerge
  obtain ⟨hlanguage, hnotes, token, htoken, htag⟩ := hfeed
  obtain ⟨tag, htag⟩ := Option.isSome_iff_exists.mp htag
  let a : FixedAnswers :=
    { now := 0
      relevant := []
      latest := []
      stored := []
      feed := [plainTrending "u" (S.leakText p)] }
  have hextra : S.hashtagSupplement (S.fixedContents a) p = [plainNote "u" (S.leakText p)] := by
    have hblank : trimSpace "u" ≠ "" := by decide
    simp only [hashtagSupplement, htoken, hlanguage, hashtagRecentNotes, getHashtagNotes, htag,
      hnotes]
    simp [fixedContents, a, trendingNotesAsEvents, plainTrending, hblank, plainNote]
  refine ⟨S.fixedContents a, not_trustedPage_of_first S p a hmode hqual hsort hoffset
    (scanCandidates_fixed_nil S p a hindex hsort rfl _ _ _) [] (S.leakText p) ?_⟩
  have hsupp : S.supplementFreshNotes (S.fixedContents a) p [] =
      [plainNote "u" (S.leakText p)] := by
    simp only [supplementFreshNotes, hmerge, supplementStaleNotes, hextra]
    simp [mergeNoteEvents, id_plainNote]
  simp only [map_nil, hsupp]
  exact rankNoteEvents_fixed_single S p a (leakText_matches S p)

end

/-- A trusted-only search shows trusted authors only, whatever the index, the store and the trust
tables hold, exactly when its service and query reach no supplement. -/
theorem trustedPage_iff_no_supplement (S : Service) (p : NotesSearchParams)
    (hmode : S.searchTrustMode = .trustedOnly) (hqual : S.hasTrustQualification = true)
    (hsort : p.sort = .relevant) : (∀ C, S.TrustedPage C p) ↔ ¬ S.ReachesSupplement p := by
  constructor
  · rintro h ⟨hmerge, hwindow | hstore | hfeed⟩
    · obtain ⟨C, hC⟩ := latest_window_leaks hmode hqual hmerge hwindow
      exact hC (h C)
    · obtain ⟨C, hC⟩ := store_scan_leaks hmode hqual hmerge hstore
      exact hC (h C)
    · obtain ⟨C, hC⟩ := hashtag_feed_leaks hmode hqual hmerge hfeed
      exact hC (h C)
  · exact fun h C => trustedPage_of_not_reaches hmode hqual hsort h

def asciiRules : TextRules :=
  { isLetter := Char.isAlpha
    isDigit := Char.isDigit
    lowerRune := Char.toLower
    blend := fun _ _ _ => 1
    noteIsAutomated := fun _ _ => false
    normalizeDuplicate := fun s => s
    normalizeHashtag := fun s => if s = "" then none else some s
    shouldShortCircuitQuery := fun _ => false }

def strictService (hasMeilisearch : Bool) : Service :=
  { rules := asciiRules
    searchTrustMode := .trustedOnly
    searchTrustPolicy := { maxHops := 3, minimumScore := 0 }
    searchTrustScanSize := 400
    hasMeilisearch := hasMeilisearch
    hasNotesSearch := true
    hasNotesSearchBefore := true
    hasHashtagFrequencies := true
    hasHashtagNotes := false
    hasEventCounts := true
    hasProfileSignals := true
    hasTrustState := true
    hasTrustQualification := true }

def bitcoinQuery : NotesSearchParams :=
  { query := "bitcoin", limit := 20, offset := 0, sort := .relevant, window := none, language := "",
    beforeCreatedAt := 0, beforeID := "" }

def document (id pubkey : String) : RawNote :=
  RawNote.ofFields
    { id := id, pubkey := pubkey, content := "bitcoin", createdAt := 1700000000, replyCount := 0,
      repostCount := 0, reactionCount := 0, zapCount := 0 }

def documents : List RawNote := [document "n1" "alice", document "n2" "mallory"]

def twoDocuments : Contents :=
  { now := 1700000060 * second
    indexNotes := fun _ _ _ _ limit offset => .ok ((documents.drop offset).take limit)
    storeNotes := fun _ _ _ _ limit offset => .ok ((documents.drop offset).take limit)
    storeNotesBefore := fun _ _ _ _ _ _ => .ok []
    eventsByContent := fun _ limit => .ok (documents.take limit)
    hashtagFrequency := fun _ => .ok 2
    hashtagNotes := fun _ _ _ _ _ => .ok []
    engineScore := fun _ => 0
    eventCounts := .ok fun _ => none
    profileSignals := .ok fun _ => none
    trustStates := .ok fun k =>
      if k = "alice" then some { unknownState k with qualified := true, hopDistance := some 1 }
      else none
    trustQualifications := fun _ => .ok fun _ => none }

theorem not_trustedPage_of_shown (authors : List String) (author : String)
    (hpage : (S.searchNotesTrustAware C p).toOption.map (·.map (·.pubkey)) = some authors)
    (hmem : author ∈ authors)
    (hreport : ((S.getTrustQualification C [author] S.searchTrustPolicy).toOption.bind
      (·.lookup author)).map (·.trusted) = some false) : ¬ S.TrustedPage C p := by
  intro h
  cases hnotes : S.searchNotesTrustAware C p with
  | error e => simp [hnotes, Except.toOption] at hpage
  | ok notes =>
    simp only [hnotes, Except.toOption, Option.map_some, Option.some.injEq] at hpage
    obtain ⟨n, hn, rfl⟩ := mem_map.mp (hpage ▸ hmem)
    obtain ⟨rows, q, hrows, hq, ht⟩ := h notes hnotes n hn
    simp [hrows, Except.toOption, hq, ht] at hreport

theorem untrusted_author_shown : ¬ (strictService true).TrustedPage twoDocuments bitcoinQuery :=
  not_trustedPage_of_shown ["alice", "mallory"] "mallory"
    (by decide) (by decide) (by decide)

theorem trustedPage_without_index : (strictService false).TrustedPage twoDocuments bitcoinQuery :=
  (trustedPage_iff_no_supplement (strictService false) bitcoinQuery rfl rfl rfl).mpr
    (fun h => absurd h.1 (by decide)) twoDocuments

end NostrMash.Search.Service
