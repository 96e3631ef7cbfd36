import Mathlib
import NostrMash.SearchQuery

/-!
# Ranking notes

`rankNotes` drops the notes that miss a quoted phrase, orders the rest by score and moves near
duplicates and a prolific author's notes back. It keeps exactly the notes that satisfy the phrases,
whatever the scores are.
-/

namespace NostrMash.Search
open List

structure NoteScoreInput where
  id : String
  pubkey : String
  features : NoteFeatures
  deriving DecidableEq

structure RankRow where
  note : NoteScoreInput
  score : ℚ
  idx : ℕ
  demoted : Bool

def noteAuthorCap : ℕ := 2

def noteAuthorCapWindow : ℕ := 20

def notesHaveFeatures (notes : List NoteScoreInput) : Bool :=
  notes.any fun n => trimSpace n.features.content ≠ "" || decide (n.features.createdAt > 0) ||
    decide (n.features.replyCount + n.features.repostCount + n.features.reactionCount +
      n.features.zapCount > 0) || n.features.authorBot || decide (n.features.engineScore > 0)

section
variable (R : TextRules)

def scoreNote (query : String) (note : NoteScoreInput) (now : ℤ) : ℚ :=
  if R.contentMatchesPhrases note.features.content (R.parseSearchQuery query).phrases then
    R.blend (R.parseSearchQuery query) note.features now
  else -1

def duplicateKey (note : NoteScoreInput) : Option String :=
  if note.pubkey = "" then none
  else if (R.normalizeDuplicate note.features.content).utf8ByteSize < 24 then none
  else some (note.pubkey ++ "\n" ++ R.normalizeDuplicate note.features.content)

def withinDuplicateWindow (a b : NoteScoreInput) : Bool :=
  a.features.createdAt ≤ 0 || b.features.createdAt ≤ 0 ||
    (a.features.createdAt - b.features.createdAt).natAbs ≤ 7 * 24 * 3600

def markNearDuplicate (acc : List (String × RankRow) × List ℕ) (row : RankRow) :
    List (String × RankRow) × List ℕ :=
  match duplicateKey R row.note with
  | none => acc
  | some key =>
    match acc.1.lookup key with
    | none => ((key, row) :: acc.1, acc.2)
    | some best =>
      if withinDuplicateWindow best.note row.note then
        if row.score > best.score ∨ (row.score = best.score ∧
            row.note.features.createdAt > best.note.features.createdAt) then
          ((key, row) :: acc.1, best.idx :: acc.2)
        else (acc.1, row.idx :: acc.2)
      else acc

def demoteDuplicates (rows : List RankRow) : List RankRow :=
  let marked := (rows.foldl (markNearDuplicate R) ([], [])).2
  rows.map fun row =>
    if row.idx ∈ marked then { row with score := row.score * (1 / 50), demoted := true } else row

def lessLatest (a b : RankRow) : Bool :=
  if a.demoted ≠ b.demoted then !a.demoted
  else if a.note.features.createdAt ≠ b.note.features.createdAt then
    a.note.features.createdAt > b.note.features.createdAt
  else a.idx < b.idx

def lessRelevant (a b : RankRow) : Bool :=
  if a.score ≠ b.score then a.score > b.score
  else if a.note.features.createdAt ≠ b.note.features.createdAt then
    a.note.features.createdAt > b.note.features.createdAt
  else a.idx < b.idx

def sortRows (sort : SortOrder) (rows : List RankRow) : List RankRow :=
  match sort with
  | .latest => rows.insertionSort fun a b => lessLatest b a = false
  | .relevant => rows.insertionSort fun a b => lessRelevant b a = false

def authorKey (pubkey id : String) : String := if pubkey = "" then "id:" ++ id else pubkey

def capRow (cap window : ℕ) (acc : List RankRow × List RankRow) (row : RankRow) :
    List RankRow × List RankRow :=
  let key := authorKey row.note.pubkey row.note.id
  if acc.1.length < window ∧
      (acc.1.filter fun r => authorKey r.note.pubkey r.note.id = key).length < cap then
    (acc.1 ++ [row], acc.2)
  else (acc.1, acc.2 ++ [row])

def applyAuthorCapRows (cap window : ℕ) (rows : List RankRow) : List RankRow :=
  let split := rows.foldl (capRow cap window) ([], [])
  split.1 ++ split.2

def rankRow (query : String) (now : ℤ) (p : NoteScoreInput × ℕ) : RankRow :=
  { note := p.1
    score := scoreNote R query p.1 now
    idx := p.2
    demoted := R.noteIsAutomated (R.parseSearchQuery query) p.1.features }

def rankRows (query : String) (notes : List NoteScoreInput) (now : ℤ) : List RankRow :=
  (notes.zipIdx.map (rankRow R query now)).filter (0 ≤ ·.score)

def rankNotes (query : String) (notes : List NoteScoreInput) (sort : SortOrder) (now : ℤ) :
    List NoteScoreInput :=
  match notes with
  | [] => []
  | [note] => if scoreNote R query note now < 0 then [] else [note]
  | notes =>
    if !notesHaveFeatures notes && (R.parseSearchQuery query).phrases = [] then notes
    else
      (applyAuthorCapRows noteAuthorCap noteAuthorCapWindow (sortRows sort
        (demoteDuplicates R (rankRows R query notes now)))).map RankRow.note

end

structure ParsedNote where
  raw : RawNote
  input : NoteScoreInput

def parseNoteInputs (events : List RawNote) : List ParsedNote :=
  events.map fun n =>
    let f := eventIdentity n
    { raw := n
      input :=
        { id := f.id
          pubkey := f.pubkey
          features :=
            { createdAt := f.createdAt, content := f.content, replyCount := f.replyCount,
              repostCount := f.repostCount, reactionCount := f.reactionCount,
              zapCount := f.zapCount, authorBot := false, authorName := "",
              authorDisplayName := "", authorNIP05 := "", engineScore := 0 } } }

def reorderNotes (parsed : List ParsedNote) : List NoteScoreInput → List RawNote
  | [] => []
  | note :: ranked =>
    match parsed.find? fun p => p.input.id = note.id ∧ p.input.pubkey = note.pubkey with
    | none => reorderNotes parsed ranked
    | some p => p.raw :: reorderNotes
        (parsed.eraseP fun p => p.input.id = note.id ∧ p.input.pubkey = note.pubkey) ranked

def noteAuthor (n : RawNote) : String := authorKey (eventIdentity n).pubkey (eventIdentity n).id

def capNote (limit cap : ℕ) (out : List RawNote) (n : RawNote) : List RawNote :=
  if limit ≤ out.length ∨ cap ≤ (out.filter fun m => noteAuthor m = noteAuthor n).length then out
  else out ++ [n]

def capAuthorPage (events : List RawNote) (limit cap : ℕ) : List RawNote :=
  let limit := if limit = 0 ∨ limit > events.length then events.length else limit
  let cap := if cap = 0 then noteAuthorCap else cap
  events.foldl (capNote limit cap) []

section
variable {R : TextRules} {a note : NoteScoreInput} {sort : SortOrder} {query : String} {now : ℤ}

theorem map_note_demoteDuplicates (rows : List RankRow) :
    (demoteDuplicates R rows).map RankRow.note = rows.map RankRow.note := by
  simp only [demoteDuplicates, map_map]
  apply map_congr_left
  intro row _
  simp only [Function.comp_apply]
  split_ifs <;> rfl

theorem capRow_perm (cap window : ℕ) (acc : List RankRow × List RankRow) (row : RankRow) :
    ((capRow cap window acc row).1 ++ (capRow cap window acc row).2).Perm
      (acc.1 ++ acc.2 ++ [row]) := by
  simp only [capRow]
  split_ifs
  · simp only [append_assoc]
    exact perm_append_comm.append_left _
  · simp only [append_assoc]
    exact List.Perm.refl _

theorem foldl_capRow_perm (cap window : ℕ) (rows : List RankRow)
    (acc : List RankRow × List RankRow) :
    ((rows.foldl (capRow cap window) acc).1 ++ (rows.foldl (capRow cap window) acc).2).Perm
      (acc.1 ++ acc.2 ++ rows) := by
  induction rows generalizing acc with
  | nil => simp
  | cons row rows ih =>
    rw [foldl_cons, append_cons]
    exact (ih _).trans ((capRow_perm cap window acc row).append_right rows)

theorem applyAuthorCapRows_perm (cap window : ℕ) (rows : List RankRow) :
    (applyAuthorCapRows cap window rows).Perm rows := by
  exact foldl_capRow_perm cap window rows ([], [])

theorem sortRows_perm (sort : SortOrder) (rows : List RankRow) :
    (sortRows sort rows).Perm rows := by
  cases sort with
  | relevant => exact perm_insertionSort _ _
  | latest => exact perm_insertionSort _ _

theorem scoreNote_nonneg_iff (now : ℤ) :
    0 ≤ scoreNote R query note now ↔
      R.contentMatchesPhrases note.features.content (R.parseSearchQuery query).phrases = true := by
  unfold scoreNote
  split_ifs with h
  · exact iff_of_true (NNRat.coe_nonneg _) h
  · exact iff_of_false (by decide) h

def phraseMatches (R : TextRules) (query : String) (notes : List NoteScoreInput) :
    List NoteScoreInput :=
  notes.filter fun n =>
    R.contentMatchesPhrases n.features.content (R.parseSearchQuery query).phrases

theorem map_note_rankRows (query : String) (notes : List NoteScoreInput) (now : ℤ) :
    (rankRows R query notes now).map RankRow.note = phraseMatches R query notes := by
  have hscore : (fun row : RankRow => decide (0 ≤ row.score)) ∘ rankRow R query now =
      (fun n : NoteScoreInput => R.contentMatchesPhrases n.features.content
        (R.parseSearchQuery query).phrases) ∘ Prod.fst := by
    funext p
    rw [Bool.eq_iff_iff]
    simp only [Function.comp_apply, rankRow, decide_eq_true_eq, scoreNote_nonneg_iff]
  have hnote : RankRow.note ∘ rankRow R query now = Prod.fst := rfl
  rw [rankRows, filter_map, map_map, hscore, hnote, ← filter_map, zipIdx_map_fst, phraseMatches]

theorem rankNotes_perm (query : String) (notes : List NoteScoreInput) (sort : SortOrder) (now : ℤ) :
    (rankNotes R query notes sort now).Perm (phraseMatches R query notes) := by
  unfold rankNotes
  split
  · exact List.Perm.refl _
  · next one =>
    split_ifs with h
    · simp [phraseMatches, ← scoreNote_nonneg_iff now, h]
    · simp [phraseMatches, ← scoreNote_nonneg_iff now, not_lt.mp h]
  · split_ifs with h
    · have hp : (R.parseSearchQuery query).phrases = [] := by
        simpa using (Bool.and_eq_true_iff.mp h).2
      simp [phraseMatches, hp, TextRules.contentMatchesPhrases]
    · rw [← map_note_rankRows query notes now,
        ← map_note_demoteDuplicates (R := R) (rankRows R query notes now)]
      exact ((applyAuthorCapRows_perm _ _ _).trans (sortRows_perm _ _)).map _

theorem mem_rankNotes {notes : List NoteScoreInput} :
    note ∈ rankNotes R query notes sort now ↔ note ∈ notes ∧
      R.contentMatchesPhrases note.features.content (R.parseSearchQuery query).phrases = true := by
  rw [(rankNotes_perm query notes sort now).mem_iff, phraseMatches, mem_filter]

theorem rankNotes_single
    (hm : R.contentMatchesPhrases a.features.content (R.parseSearchQuery query).phrases = true) :
    rankNotes R query [a] sort now = [a] := by
  rw [rankNotes, if_neg (not_lt.mpr ((scoreNote_nonneg_iff now).mpr hm))]

theorem demoteDuplicates_pair {a b : RankRow} (hne : a.note.pubkey ≠ b.note.pubkey)
    (hc : a.note.features = b.note.features) : demoteDuplicates R [a, b] = [a, b] := by
  have hkey : ∀ k, duplicateKey R a.note = some k → duplicateKey R b.note ≠ some k := by
    intro k ha hb
    simp only [duplicateKey, hc, Option.ite_none_left_eq_some, Option.some.injEq] at ha hb
    rw [← hb.2.2] at ha
    exact hne (by simpa [← String.toList_inj] using ha.2.2)
  have hmarked : ([a, b].foldl (markNearDuplicate R) ([], [])).2 = [] := by
    simp only [foldl_cons, foldl_nil, markNearDuplicate]
    cases ha : duplicateKey R a.note with
    | none => cases hb : duplicateKey R b.note <;> simp
    | some k =>
      cases hb : duplicateKey R b.note with
      | none => simp
      | some k' =>
        have hkk : k' ≠ k := by
          rintro rfl
          exact hkey _ ha hb
        simp [List.lookup, beq_false_of_ne hkk]
  simp only [demoteDuplicates, hmarked]
  simp

theorem rankNotes_pair {b : NoteScoreInput} (hne : a.pubkey ≠ b.pubkey)
    (hc : a.features = b.features)
    (hm : R.contentMatchesPhrases a.features.content (R.parseSearchQuery query).phrases = true) :
    rankNotes R query [a, b] .relevant now = [a, b] := by
  have hs : scoreNote R query b now = scoreNote R query a now := by simp only [scoreNote, hc]
  have hpos : 0 ≤ scoreNote R query a now := (scoreNote_nonneg_iff now).mpr hm
  have hrows : rankRows R query [a, b] now =
      [rankRow R query now (a, 0), rankRow R query now (b, 1)] := by
    simp [rankRows, rankRow, List.zipIdx, hs, hpos]
  have hsort : sortRows .relevant [rankRow R query now (a, 0), rankRow R query now (b, 1)] =
      [rankRow R query now (a, 0), rankRow R query now (b, 1)] := by
    simp [sortRows, List.insertionSort, lessRelevant, rankRow, hs, hc]
  simp only [rankNotes]
  split_ifs
  · rfl
  · rw [hrows, demoteDuplicates_pair hne hc, hsort]
    simp only [applyAuthorCapRows, noteAuthorCap, noteAuthorCapWindow, foldl_cons,
      foldl_nil, rankRow, capRow]
    simp
    split_ifs <;> simp

end

theorem reorderNotes_subset (parsed : List ParsedNote) (ranked : List NoteScoreInput) :
    reorderNotes parsed ranked ⊆ parsed.map ParsedNote.raw := by
  induction ranked generalizing parsed with
  | nil => exact nil_subset _
  | cons note ranked ih =>
    rw [reorderNotes]
    split
    · exact ih parsed
    · next p hp =>
      rw [cons_subset]
      refine ⟨mem_map_of_mem (List.mem_of_find?_eq_some hp), ?_⟩
      intro n hn
      exact map_subset _ eraseP_subset (ih _ hn)

theorem subset_capNote (limit cap : ℕ) (out : List RawNote) (n : RawNote) :
    out ⊆ capNote limit cap out n := by
  unfold capNote
  split_ifs
  · exact List.Subset.refl out
  · exact subset_append_left out [n]

variable {out : List RawNote} {m : RawNote} {limit : ℕ}

theorem mem_of_mem_capNote {cap : ℕ} {n : RawNote} (h : m ∈ capNote limit cap out n) :
    m ∈ out ∨ m = n := by
  unfold capNote at h
  split_ifs at h
  · exact .inl h
  · simpa using h

theorem mem_of_mem_foldl_capNote {cap : ℕ} {events : List RawNote}
    (h : m ∈ events.foldl (capNote limit cap) out) : m ∈ out ∨ m ∈ events := by
  induction events generalizing out with
  | nil => exact .inl h
  | cons n events ih =>
    rcases ih h with h | h
    · rcases mem_of_mem_capNote h with h | rfl
      · exact .inl h
      · exact .inr (.head _)
    · exact .inr (mem_cons_of_mem n h)

theorem subset_foldl_capNote (limit cap : ℕ) (events out : List RawNote) :
    out ⊆ events.foldl (capNote limit cap) out := by
  induction events generalizing out with
  | nil => exact List.Subset.refl out
  | cons n events ih => exact fun m hm => ih _ (subset_capNote limit cap out n hm)

theorem head_mem_capAuthorPage (n : RawNote) (rest : List RawNote) (limit cap : ℕ) :
    n ∈ capAuthorPage (n :: rest) limit cap := by
  refine subset_foldl_capNote _ _ rest _ ?_
  have hlimit : ¬ (if limit = 0 ∨ limit > (n :: rest).length then (n :: rest).length
      else limit) ≤ 0 := by
    split_ifs with h
    · simp
    · omega
  have hcap : ¬ (if cap = 0 then noteAuthorCap else cap) ≤ 0 := by
    split_ifs with h
    · decide
    · omega
  rw [capNote, filter_nil, length_nil, if_neg (not_or.mpr ⟨hlimit, hcap⟩)]
  exact mem_singleton_self n

end NostrMash.Search
