import NostrMash.KeysetPaging
import NostrMash.SearchService

/-!
# Paging through latest notes

A client searches the notes of a store by `sort=latest` and follows `next_cursor`. The store
answers the first request from `SearchNotes` and the later ones from `SearchNotesBefore`, both
newest first.
-/

namespace NostrMash.Search

/-- The live notes of the event store. -/
structure NoteStore where
  notes : List NoteFields
  /-- The conditions of both statements on query, window and language. -/
  finds : String → Option ℤ → String → NoteFields → Bool
  nodup_ids : (notes.map NoteFields.id).Nodup
  ids_trimmed : ∀ n ∈ notes, n.id ≠ "" ∧ trimSpace n.id = n.id

def NoteFields.position (n : NoteFields) : ℤ ×ₗ String := toLex (n.createdAt, n.id)

def clampSearchLimit (limit : ℕ) : ℕ := if limit = 0 then 20 else min limit 100

namespace NoteStore

variable (store : NoteStore) (query : String) (window : Option ℤ) (language : String)

def matching : List NoteFields :=
  KeysetPaging.descending NoteFields.position
    (store.notes.filter (store.finds query window language))

def searchNotes (limit offset : ℕ) : Except SearchError (List RawNote) :=
  if trimSpace query = "" then .ok []
  else if offset > 5000 then .error .failed
  else .ok ((((store.matching (trimSpace query) window language).drop offset).take
    (clampSearchLimit limit)).map RawNote.ofFields)

def searchNotesBefore (limit : ℕ) (beforeCreatedAt : ℤ) (beforeID : String) :
    Except SearchError (List RawNote) :=
  if trimSpace query = "" then .ok []
  else if trimSpace beforeID = "" then store.searchNotes query window language limit 0
  else .ok ((((store.matching (trimSpace query) window language).filter fun n =>
    n.position < toLex (beforeCreatedAt, trimSpace beforeID)).take
      (clampSearchLimit limit)).map RawNote.ofFields)

def contents (C : Contents) : Contents :=
  { C with
    storeNotes := fun query sort window language limit offset =>
      match sort with
      | .latest => store.searchNotes query window language limit offset
      | .relevant => C.storeNotes query .relevant window language limit offset
    storeNotesBefore := store.searchNotesBefore }

end NoteStore

/-- Reading a query before it is searched. -/
structure QueryReader where
  canonicalizeEventIdentifier : String → Option String
  /-- The event with an id, if it is found. -/
  getEventByID : String → Except SearchError (Option RawNote)
  isRelayHost : String → Bool
  /-- `ChooseCorrection` over the edits of the query, given the hashtag frequencies of terms. -/
  chooseCorrection : String → (String → ℤ) → Option String

def correctionMinQueryLen : ℕ := 5

def is64Hex (value : String) : Bool :=
  value.utf8ByteSize = 64 && value.toList.all fun c =>
    ('0' ≤ c && c ≤ '9') || ('a' ≤ c && c ≤ 'f')

def trimNostrScheme (s : String) : String :=
  if "nostr:".toList.isPrefixOf s.toList then String.ofList (s.toList.drop 6) else s

def noteHashtagFloor (floor df : ℤ) : ℤ := if df ≤ 0 then floor else max floor df

namespace Service

variable (S : Service) (C : Contents)

def overStore : Service :=
  { S with hasMeilisearch := false, hasNotesSearch := true, hasNotesSearchBefore := true }

def normalizeNotesSearchParams (p : NotesSearchParams) : Except SearchError NotesSearchParams :=
  if p.offset > 5000 then .error .failed
  else .ok { p with query := trimSpace p.query, limit := clampSearchLimit p.limit }

def correctionTerm (Q : QueryReader) (raw : String) : Option String :=
  let parsed := S.rules.parseSearchQuery raw
  if parsed.phrases ≠ [] then none
  else match parsed.terms with
    | [t] =>
      let term := trimHash (S.rules.foldToken t)
      if term = "" ∨ '.' ∈ term.toList ∨ is64Hex term ∨ term.utf8ByteSize > 32 ∨
          Q.isRelayHost raw then none
      else some term
    | _ => none

def lookupHashtagFreq (term : String) : ℤ :=
  if S.hasHashtagFrequencies then
    match C.hashtagFrequency term with
    | .ok n => n
    | .error _ => 0
  else 0

def chooseQueryCorrection (Q : QueryReader) (raw : String) : Option String × ℤ :=
  match S.correctionTerm Q raw with
  | none => (none, 0)
  | some term =>
    let floor := noteHashtagFloor 0 (S.lookupHashtagFreq C term)
    if term.utf8ByteSize < correctionMinQueryLen then (none, floor)
    else
      match Q.chooseCorrection raw (S.lookupHashtagFreq C) with
      | none => (none, floor)
      | some corrected =>
        (some corrected, noteHashtagFloor floor (S.lookupHashtagFreq C corrected))

def prepareQuery (Q : QueryReader) (raw : String) : String :=
  ((S.chooseQueryCorrection C Q (trimSpace raw)).1).getD (trimSpace raw)

def searchNotes (Q : QueryReader) (p : NotesSearchParams) :
    Except SearchError (List RawNote) × ℤ :=
  match normalizeNotesSearchParams p with
  | .error e => (.error e, 0)
  | .ok p =>
    if p.query = "" then (.ok [], 0)
    else
      match Q.canonicalizeEventIdentifier (trimSpace (trimNostrScheme p.query)) with
      | some id => (((Q.getEventByID id).map Option.toList), 0)
      | none =>
        if S.queryIsObviousMiss C p.query then (.ok [], 0)
        else
          let query := S.prepareQuery C Q p.query
          let floor := (S.chooseQueryCorrection C Q (trimSpace p.query)).2
          if query = "" then (.ok [], floor)
          else (S.searchNotesTrustAware C { p with query := query }, floor)

end Service

structure SearchCursor where
  offset : ℕ
  createdAt : ℤ
  id : String

def lastEventKeyset (events : List RawNote) : Option (ℤ × String) :=
  match events.getLast?.bind RawNote.fields with
  | none => none
  | some f => if trimSpace f.id = "" then none else some (f.createdAt, trimSpace f.id)

def noteCorpusTotal (estimatedTotal hashtagFrequency : ℤ) (pageLen : ℕ) : ℤ :=
  max (max estimatedTotal hashtagFrequency) pageLen

def searchPageCursor (sort : SortOrder) (offset pageLen limit : ℕ) (total : ℤ)
    (events : List RawNote) : Option SearchCursor :=
  if pageLen = 0 then none
  else if ¬ (pageLen = limit ∨ total > (offset + pageLen : ℕ)) then none
  else if offset + pageLen > 5000 then none
  else
    match if sort = .latest then lastEventKeyset events else none with
    | none => some { offset := offset + pageLen, createdAt := 0, id := "" }
    | some (createdAt, id) => some { offset := offset + pageLen, createdAt := createdAt, id := id }

structure NotesRequest where
  query : String
  window : Option ℤ
  language : String
  limit : ℕ

def NotesRequest.params (r : NotesRequest) (cursor : Option SearchCursor) : NotesSearchParams :=
  { query := trimSpace r.query
    limit := r.limit
    offset := (cursor.map SearchCursor.offset).getD 0
    sort := .latest
    window := r.window
    language := r.language
    beforeCreatedAt := (cursor.map SearchCursor.createdAt).getD 0
    beforeID := (cursor.map SearchCursor.id).getD "" }

/-- The `SearchNotes` handler: the notes and the next cursor, or `none` for a rejected request. -/
def searchNotesHandler (S : Service) (C : Contents) (Q : QueryReader) (r : NotesRequest)
    (cursor : Option SearchCursor) : Option (List RawNote × Option SearchCursor) :=
  if trimSpace r.query = "" ∨ r.limit = 0 ∨ r.limit > 100 then none
  else
    match S.searchNotes C Q (r.params cursor) with
    | (.error _, _) => some ([], none)
    | (.ok events, frequency) =>
      some (events, searchPageCursor .latest (r.params cursor).offset events.length r.limit
        (noteCorpusTotal frequency frequency events.length) events)

def followNextCursor (S : Service) (C : Contents) (Q : QueryReader) (r : NotesRequest) :
    ℕ → Option SearchCursor → Option (List RawNote)
  | 0, _ => none
  | n + 1, cursor =>
    match searchNotesHandler S C Q r cursor with
    | none => none
    | some (events, none) => some events
    | some (events, some next) => (followNextCursor S C Q r n (some next)).map (events ++ ·)

structure StaticSearch where
  store : NoteStore
  service : Service
  answers : Contents
  reader : QueryReader
  request : NotesRequest

namespace StaticSearch

variable (X : StaticSearch)

def contents : Contents := X.store.contents X.answers

def engine : Service := X.service.overStore

def query : String := X.engine.prepareQuery X.contents X.reader X.request.query

def matching : List NoteFields :=
  X.store.matching (trimSpace X.query) X.request.window X.request.language

/-- The request is accepted as a search of the store: neither the query asked for nor the one
searched in its place is blank, and it is no event identifier. -/
structure AsksStore : Prop where
  query_ne : trimSpace X.request.query ≠ ""
  searched_ne : trimSpace X.query ≠ ""
  identifier : X.reader.canonicalizeEventIdentifier
    (trimSpace (trimNostrScheme (trimSpace X.request.query))) = none
  limit_pos : 0 < X.request.limit

/-- Following the cursors comes to an end and shows every matching note exactly once. -/
def PagesThroughEverything : Prop :=
  ∃ n shown, followNextCursor X.engine X.contents X.reader X.request n none =
    some shown ∧ shown.Perm (X.matching.map RawNote.ofFields)

end StaticSearch
end NostrMash.Search
