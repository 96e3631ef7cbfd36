import NostrMash.SearchRank

/-!
# Note search with trust

The search service asks a full-text index, a relational store, the hashtag feed and the trust
tables. What it is wired to is the `Service`; what these parties answer during one request is the
`Contents`.
-/

namespace NostrMash.Search

inductive TrustMode
  | openMode
  | preferTrusted
  | trustedOnly
  deriving DecidableEq

inductive SearchError
  | unsupportedCapability (name : String)
  | failed
  | qualifyCandidates (cause : SearchError)

structure TrustQualificationPolicy where
  maxHops : ℤ
  minimumScore : ℚ

structure TrustState where
  pubkey : String
  score : Option ℚ
  qualified : Bool
  hopDistance : Option ℤ
  rank : Option ℤ
  generationID : Option ℤ
  isSeed : Bool

structure TrustQualification where
  pubkey : String
  trusted : Bool
  isSeed : Bool
  distanceHops : Option ℤ
  score : Option ℚ
  rank : Option ℤ
  sourceRunID : Option ℤ

structure EventCounts where
  replyCount : ℤ
  repostCount : ℤ
  reactionCount : ℤ
  zapCount : ℤ

structure ProfileSearchSignal where
  name : String
  displayName : String
  nip05 : String
  bot : Bool

structure TrendingNote where
  eventID : String
  authorPubkey : String
  createdAt : ℤ
  content : String
  replyCount : ℤ
  repostCount : ℤ
  reactionCount : ℤ
  zapCount : ℤ

structure NotesSearchParams where
  query : String
  limit : ℕ
  offset : ℕ
  sort : SortOrder
  window : Option ℤ
  language : String
  beforeCreatedAt : ℤ
  beforeID : String

/-- The wiring of a service: its text rules, its trust settings and which readers it has. -/
structure Service where
  rules : TextRules
  searchTrustMode : TrustMode
  searchTrustPolicy : TrustQualificationPolicy
  searchTrustScanSize : ℕ
  hasMeilisearch : Bool
  hasNotesSearch : Bool
  hasNotesSearchBefore : Bool
  hasHashtagFrequencies : Bool
  hasHashtagNotes : Bool
  hasEventCounts : Bool
  hasProfileSignals : Bool
  hasTrustState : Bool
  hasTrustQualification : Bool

/-- What the parties answer during one request. -/
structure Contents where
  now : ℤ
  indexNotes : String → SortOrder → Option ℤ → String → ℕ → ℕ → Except SearchError (List RawNote)
  storeNotes : String → SortOrder → Option ℤ → String → ℕ → ℕ → Except SearchError (List RawNote)
  storeNotesBefore : String → Option ℤ → String → ℕ → ℤ → String → Except SearchError (List RawNote)
  eventsByContent : String → ℕ → Except SearchError (List RawNote)
  hashtagFrequency : String → Except SearchError ℤ
  hashtagNotes : String → SortOrder → String → ℕ → ℕ → Except SearchError (List TrendingNote)
  engineScore : String → ℚ
  eventCounts : Except SearchError (String → Option EventCounts)
  profileSignals : Except SearchError (String → Option ProfileSearchSignal)
  trustStates : Except SearchError (String → Option TrustState)
  trustQualifications :
    TrustQualificationPolicy → Except SearchError (String → Option TrustQualification)

def noteRankPool : ℕ := 40

def noteRecentPool : ℕ := 25

def noteHashtagRecentPool : ℕ := 40

def noteFreshWindow : ℤ := hours 24

def normalizeUniqueStrings (values : List String) : List String :=
  ((values.map trimSpace).filter (· ≠ "")).eraseDups

def normalizeTrustPolicy (policy : TrustQualificationPolicy) : TrustQualificationPolicy :=
  { maxHops := if policy.maxHops < 0 then 0 else policy.maxHops
    minimumScore := if policy.minimumScore < 0 then 0 else policy.minimumScore }

def trustStateTrusted (state : TrustState) (policy : TrustQualificationPolicy) : Bool :=
  if state.qualified = false then false
  else if state.hopDistance.any fun d => policy.maxHops > 0 ∧ d > policy.maxHops then false
  else if policy.minimumScore > 0 then
    state.score.any fun s => ¬ s < policy.minimumScore
  else true

def trustQualificationFromState (state : TrustState) (policy : TrustQualificationPolicy) :
    TrustQualification :=
  { pubkey := state.pubkey
    trusted := trustStateTrusted state (normalizeTrustPolicy policy)
    isSeed := state.isSeed
    distanceHops := state.hopDistance
    score := state.score
    rank := state.rank
    sourceRunID := state.generationID }

def unknownState (pubkey : String) : TrustState :=
  { pubkey := pubkey, score := none, qualified := false, hopDistance := none, rank := none,
    generationID := none, isSeed := false }

def unknownQualification (pubkey : String) : TrustQualification :=
  { pubkey := pubkey, trusted := false, isSeed := false, distanceHops := none, score := none,
    rank := none, sourceRunID := none }

def trendingNotesAsEvents (rows : List TrendingNote) : List RawNote :=
  (rows.filter fun row => trimSpace row.eventID ≠ "").map fun row =>
    RawNote.ofFields
      { id := row.eventID, pubkey := row.authorPubkey, content := row.content,
        createdAt := row.createdAt, replyCount := row.replyCount, repostCount := row.repostCount,
        reactionCount := row.reactionCount, zapCount := row.zapCount }

def firstNonEmpty (a b : String) : String :=
  if trimSpace a ≠ "" then a else if trimSpace b ≠ "" then b else ""

def paginateSearchNotes (rows : List RawNote) (limit offset : ℕ) : List RawNote :=
  (rows.drop offset).take limit

structure TrustedSearchNoteCandidate where
  note : RawNote
  trusted : Bool

def trustedSearchNoteRowsByMode (rows : List TrustedSearchNoteCandidate) (mode : TrustMode) :
    List RawNote :=
  if mode ≠ .preferTrusted then rows.map (·.note)
  else (rows.filter (·.trusted)).map (·.note) ++ (rows.filter (!·.trusted)).map (·.note)

namespace Service

variable (S : Service) (C : Contents)

def getTrustQualification (pubkeys : List String) (policy : TrustQualificationPolicy) :
    Except SearchError (List (String × TrustQualification)) :=
  let normalized := normalizeUniqueStrings pubkeys
  if normalized = [] then .ok []
  else
    match if S.hasTrustState then C.trustStates else .error .failed with
    | .ok states => .ok (normalized.map fun pubkey =>
        (pubkey, trustQualificationFromState ((states pubkey).getD (unknownState pubkey)) policy))
    | .error _ =>
      if S.hasTrustQualification then
        match C.trustQualifications policy with
        | .ok rows => .ok (normalized.map fun pubkey =>
            (pubkey, (rows pubkey).getD (unknownQualification pubkey)))
        | .error e => .error e
      else .error (.unsupportedCapability "trust qualification")

def noHashtagPostings (raw : String) : Bool :=
  let term := trimHash (S.rules.foldToken (trimSpace raw))
  if S.hasHashtagFrequencies = false ∨ term = "" then false
  else match C.hashtagFrequency term with
    | .ok n => n = 0
    | .error _ => false

def queryIsObviousMiss (raw : String) : Bool :=
  S.rules.shouldShortCircuitQuery raw && S.noHashtagPostings C raw

def searchNotesFromStore (p : NotesSearchParams) : Except SearchError (List RawNote) :=
  if S.hasNotesSearch then C.storeNotes p.query p.sort p.window p.language p.limit p.offset
  else if p.sort = .relevant ∧ p.window = none ∧ p.offset = 0 ∧ p.language = "" then
    C.eventsByContent p.query p.limit
  else .error (.unsupportedCapability "advanced notes search")

def searchNotesByOffset (p : NotesSearchParams) : Except SearchError (List RawNote) :=
  if S.queryIsObviousMiss C p.query then .ok []
  else if S.hasMeilisearch then
    match C.indexNotes p.query p.sort p.window p.language p.limit p.offset with
    | .ok rows => .ok rows
    | .error _ => S.searchNotesFromStore C p
  else S.searchNotesFromStore C p

def searchNotesPage (p : NotesSearchParams) : Except SearchError (List RawNote) :=
  if p.sort = .latest ∧ trimSpace p.beforeID ≠ "" ∧ S.hasNotesSearchBefore then
    match C.storeNotesBefore p.query p.window p.language p.limit p.beforeCreatedAt p.beforeID with
    | .error (.unsupportedCapability _) => S.searchNotesByOffset C p
    | answer => answer
  else S.searchNotesByOffset C p

def qualifySearchNoteBatch (rows : List RawNote) :
    Except SearchError (List TrustedSearchNoteCandidate) :=
  match S.getTrustQualification C (rows.map (·.pubkey)) S.searchTrustPolicy with
  | .error e => .error (.qualifyCandidates e)
  | .ok trustRows => .ok (rows.map fun row =>
      { note := row
        trusted := row.pubkey ≠ "" && (trustRows.lookup row.pubkey).any (·.trusted) })

def getHashtagNotes (hashtag : String) (sort : SortOrder) (window : String) (limit offset : ℕ) :
    Except SearchError (List TrendingNote) :=
  match S.rules.normalizeHashtag hashtag with
  | none => .error .failed
  | some normalized =>
    if S.hasHashtagNotes then C.hashtagNotes normalized sort window limit offset
    else .error (.unsupportedCapability "hashtag notes")

def meiliRecentNotes (p : NotesSearchParams) : List RawNote :=
  if S.hasMeilisearch then
    match C.indexNotes p.query .latest (some (hours (7 * 24))) p.language noteRecentPool 0 with
    | .ok rows => rows
    | .error _ => []
  else []

def hashtagRecentNotes (token : String) : List RawNote :=
  match S.getHashtagNotes C token .latest "24h" noteHashtagRecentPool 0 with
  | .ok rows => trendingNotesAsEvents rows
  | .error _ => []

def recentNotesFromStore (p : NotesSearchParams) : List RawNote :=
  if S.hasNotesSearch then
    match C.storeNotes p.query .latest (some noteFreshWindow) p.language
        noteHashtagRecentPool 0 with
    | .ok rows => rows
    | .error _ => []
  else []

def shouldMergeRecent (p : NotesSearchParams) : Bool :=
  S.hasMeilisearch && p.sort = .relevant && p.offset = 0 && trimSpace p.beforeID = ""

def hashtagSupplement (p : NotesSearchParams) : List RawNote :=
  match S.rules.hashtagSupplementToken p.query with
  | some token => if trimSpace p.language = "" then S.hashtagRecentNotes C token else []
  | none => []

def supplementStaleNotes (p : NotesSearchParams) (rows : List RawNote) : List RawNote :=
  let extra := S.hashtagSupplement C p
  let merged := if extra ≠ [] then mergeNoteEvents extra rows else rows
  if extra ≠ [] ∧ rows = [] then merged
  else if merged = [] ∨ notesAreFresh C.now merged noteFreshWindow then merged
  else
    let stored := S.recentNotesFromStore C p
    if stored ≠ [] then mergeNoteEvents stored merged else merged

def supplementFreshNotes (p : NotesSearchParams) (rows : List RawNote) : List RawNote :=
  if S.shouldMergeRecent p = false then rows
  else if rows ≠ [] ∧ notesAreFresh C.now rows noteFreshWindow then
    if p.window.all (· > hours (7 * 24)) then
      let recent := S.meiliRecentNotes C p
      if recent ≠ [] then mergeNoteEvents recent rows else rows
    else rows
  else S.supplementStaleNotes C p rows

def attachEventCounts (note : NoteScoreInput) : NoteScoreInput :=
  match if S.hasEventCounts then C.eventCounts else .error .failed with
  | .error _ => note
  | .ok counts =>
    match if note.id ≠ "" then counts note.id else none with
    | none => note
    | some row =>
      { note with features :=
          { note.features with
            replyCount := row.replyCount, repostCount := row.repostCount,
            reactionCount := row.reactionCount, zapCount := row.zapCount } }

def attachProfileSignal (note : NoteScoreInput) : NoteScoreInput :=
  match if S.hasProfileSignals then C.profileSignals else .error .failed with
  | .error _ => note
  | .ok signals =>
    match if note.pubkey ≠ "" then signals note.pubkey else none with
    | none => note
    | some signal =>
      { note with features :=
          { note.features with
            authorBot := note.features.authorBot || signal.bot
            authorName := firstNonEmpty signal.name note.features.authorName
            authorDisplayName := firstNonEmpty signal.displayName note.features.authorDisplayName
            authorNIP05 := firstNonEmpty signal.nip05 note.features.authorNIP05 } }

def attachNoteSignals (inputs : List NoteScoreInput) : List NoteScoreInput :=
  inputs.map fun note => S.attachProfileSignal C (S.attachEventCounts C note)

def withEngineScore (note : NoteScoreInput) : NoteScoreInput :=
  if C.engineScore note.id > 0 then
    { note with features := { note.features with engineScore := C.engineScore note.id } }
  else note

def rankNoteEvents (p : NotesSearchParams) (events : List RawNote) : List RawNote :=
  let events := filterNotesToWindow C.now events p.window
  let parsed := parseNoteInputs events
  let inputs := parsed.map fun n => withEngineScore C n.input
  let phrases := (S.rules.parseSearchQuery p.query).phrases
  if inputs.length > 1 ∧ notesHaveFeatures inputs = false ∧ phrases = [] then events
  else
    let inputs := if notesHaveFeatures inputs ∨ phrases ≠ [] then S.attachNoteSignals C inputs
      else inputs
    reorderNotes parsed (rankNotes S.rules p.query inputs p.sort C.now)

def searchNotesCollected (p : NotesSearchParams) : Except SearchError (List RawNote) :=
  let limit := if S.hasMeilisearch ∧ p.sort = .relevant ∧ p.offset = 0 ∧
      trimSpace p.beforeID = "" ∧ p.limit > 0 ∧ p.limit < noteRankPool then noteRankPool
    else p.limit
  match S.searchNotesPage C { p with limit := limit } with
  | .error e => .error e
  | .ok rows => .ok (S.supplementFreshNotes C p rows)

def finishNotePage (p : NotesSearchParams) : Except SearchError (List RawNote) :=
  match S.searchNotesCollected C p with
  | .error e => .error e
  | .ok rows =>
    let ranked := S.rankNoteEvents C p rows
    if p.offset = 0 then .ok (capAuthorPage ranked p.limit noteAuthorCap)
    else if p.limit > 0 then .ok (ranked.take p.limit)
    else .ok ranked

def keepByMode (qualified : List TrustedSearchNoteCandidate) : List TrustedSearchNoteCandidate :=
  if S.searchTrustMode = .trustedOnly then qualified.filter (·.trusted) else qualified

/-- The scan loop. -/
def scanCandidates (p : NotesSearchParams) (targetRows scanBudget : ℕ) :
    ℕ → ℕ → List TrustedSearchNoteCandidate →
      Except SearchError (List TrustedSearchNoteCandidate)
  | 0, _, candidates => .ok candidates
  | fuel + 1, fetched, candidates =>
    if fetched < scanBudget then
      let batchSize := min 100 (scanBudget - fetched)
      match S.searchNotesPage C { p with limit := batchSize, offset := fetched } with
      | .error e => .error e
      | .ok [] => .ok candidates
      | .ok (row :: rows) =>
        match S.qualifySearchNoteBatch C (row :: rows) with
        | .error e => .error e
        | .ok qualified =>
          let candidates := candidates ++ S.keepByMode qualified
          if candidates.length ≥ targetRows ∨ (row :: rows).length < batchSize then .ok candidates
          else scanCandidates p targetRows scanBudget fuel (fetched + batchSize) candidates
    else .ok candidates

def targetRows (p : NotesSearchParams) : ℕ :=
  if p.limit + p.offset = 0 then 20 else p.limit + p.offset

def scanBudget (p : NotesSearchParams) : ℕ :=
  max (targetRows p) (min (targetRows p * 4) S.searchTrustScanSize)

def searchNotesTrustAware (p : NotesSearchParams) : Except SearchError (List RawNote) :=
  if S.searchTrustMode = .openMode ∨ p.sort ≠ .relevant then S.finishNotePage C p
  else if S.hasTrustQualification = false then
    if S.searchTrustMode = .trustedOnly then .error (.unsupportedCapability "trust qualification")
    else S.finishNotePage C p
  else
    match S.scanCandidates C p (targetRows p) (S.scanBudget p) (S.scanBudget p) 0 [] with
    | .error e => .error e
    | .ok candidates =>
      let ordered := S.supplementFreshNotes C p
        (trustedSearchNoteRowsByMode candidates S.searchTrustMode)
      let ranked := S.rankNoteEvents C p ordered
      if p.offset > 0 then .ok (paginateSearchNotes ranked p.limit p.offset)
      else .ok (capAuthorPage ranked p.limit noteAuthorCap)

end Service
end NostrMash.Search
