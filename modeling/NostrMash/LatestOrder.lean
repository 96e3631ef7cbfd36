import NostrMash.AuthorCaps

/-!
# The latest order of a page

A page that is fetched newest first is ranked for `sort=latest` in two moves.
-/

namespace NostrMash.Search
open List

section

def RankRow.latestKey (row : RankRow) : Bool ×ₗ ℤ ×ₗ ℕ :=
  toLex (row.demoted, toLex (-row.note.features.createdAt, row.idx))

def NewestFirst (rows : List RankRow) : Prop :=
  rows.Pairwise fun a b =>
    b.note.features.createdAt ≤ a.note.features.createdAt ∧ a.idx < b.idx

def settled (rows : List RankRow) : List RankRow :=
  rows.filter (fun row => !row.demoted) ++ rows.filter (fun row => row.demoted)

theorem settled_perm (rows : List RankRow) : (settled rows).Perm rows := by
  have h := filter_append_perm (fun row : RankRow => !row.demoted) rows
  simpa [settled] using h

theorem latestKey_le_iff (a b : RankRow) :
    a.latestKey ≤ b.latestKey ↔ a.demoted < b.demoted ∨ a.demoted = b.demoted ∧
      (b.note.features.createdAt < a.note.features.createdAt ∨
        b.note.features.createdAt = a.note.features.createdAt ∧ a.idx ≤ b.idx) := by
  rw [RankRow.latestKey, RankRow.latestKey, Prod.Lex.toLex_le_toLex, Prod.Lex.toLex_le_toLex]
  simp only [neg_lt_neg_iff, neg_inj, eq_comm]

theorem lessLatest_eq_false_iff (a b : RankRow) :
    lessLatest b a = false ↔ a.latestKey ≤ b.latestKey := by
  rw [latestKey_le_iff, lessLatest]
  by_cases hd : b.demoted = a.demoted
  · rw [if_neg (not_not.mpr hd), hd]
    split_ifs with hc
    · simp only [decide_eq_false_iff_not, lt_irrefl, false_or, true_and]
      omega
    · simp only [decide_eq_false_iff_not, lt_irrefl, false_or, true_and]
      omega
  · rw [if_pos hd]
    cases ha : a.demoted <;> cases hb : b.demoted <;> simp_all

variable {rows : List RankRow}

theorem settled_pairwise (h : NewestFirst rows) :
    (settled rows).Pairwise fun a b => a.latestKey ≤ b.latestKey := by
  have hle : ∀ a b : RankRow, a.demoted = b.demoted →
      b.note.features.createdAt ≤ a.note.features.createdAt ∧ a.idx < b.idx →
      a.latestKey ≤ b.latestKey := by
    intro a b hd hab
    exact (latestKey_le_iff a b).mpr (.inr ⟨hd, by omega⟩)
  rw [settled, pairwise_append]
  refine ⟨?_, ?_, ?_⟩
  · rw [pairwise_filter]
    refine h.imp fun {a b} hab ha hb => hle a b ?_ hab
    simp_all
  · rw [pairwise_filter]
    refine h.imp fun {a b} hab ha hb => hle a b ?_ hab
    simp_all
  · intro a ha b hb
    have ha' := (mem_filter.mp ha).2
    have hb' := (mem_filter.mp hb).2
    exact (latestKey_le_iff a b).mpr (.inl (by simp_all))

theorem sortRows_latest (h : NewestFirst rows) : sortRows .latest rows = settled rows := by
  have hkey : (fun a b : RankRow => lessLatest b a = false) =
      fun a b => a.latestKey ≤ b.latestKey :=
    funext fun a => funext fun b => propext (lessLatest_eq_false_iff a b)
  have htotal : Std.Total fun a b : RankRow => lessLatest b a = false :=
    ⟨fun a b => by simpa only [lessLatest_eq_false_iff] using le_total _ _⟩
  have htrans : IsTrans RankRow fun a b => lessLatest b a = false :=
    ⟨fun a b c => by simpa only [lessLatest_eq_false_iff] using le_trans⟩
  refine List.Perm.eq_of_pairwise ?_ (pairwise_insertionSort _ rows)
    (hkey ▸ settled_pairwise h) ((sortRows_perm .latest rows).trans (settled_perm rows).symm)
  intro a b ha hb hab hba
  rw [lessLatest_eq_false_iff] at hab hba
  have hidx : a.idx = b.idx := by
    have heq := le_antisymm hab hba
    simp only [RankRow.latestKey, EmbeddingLike.apply_eq_iff_eq, Prod.mk.injEq] at heq
    exact heq.2.2
  have hnd : (rows.map RankRow.idx).Nodup := by
    rw [nodup_iff_pairwise_ne, pairwise_map]
    exact h.imp fun hab => hab.2.ne
  exact inj_on_of_nodup_map hnd ((sortRows_perm .latest rows).mem_iff.mp ha)
    ((settled_perm rows).mem_iff.mp hb) hidx

end

variable (R : TextRules) (query : String) (notes : List NoteScoreInput) (now : ℤ)

def markedRows : List RankRow := demoteDuplicates R (rankRows R query notes now)

/-- The page is given in the order in which it was fetched, or its oldest note is the last that is
crowded out behind the demoted notes, or none is crowded out and the oldest note is the last one
behind them. -/
def OldestLast : Prop :=
  (notesHaveFeatures notes = true ∨ (R.parseSearchQuery query).phrases ≠ []) →
    ((crowdedOut [] (settled (markedRows R query notes now))).getLast?.or
      (settled (markedRows R query notes now)).getLast?).map RankRow.note = notes.getLast?

instance : Decidable (OldestLast R query notes now) := inferInstanceAs (Decidable (_ → _))

def settledNotes : List NoteScoreInput :=
  if notesHaveFeatures notes = true ∨ (R.parseSearchQuery query).phrases ≠ [] then
    (settled (markedRows R query notes now)).map RankRow.note
  else notes

def NoteScoreInput.author (note : NoteScoreInput) : String := authorKey note.pubkey note.id

variable {R query notes now}

theorem markedRows_newestFirst
    (hd : notes.Pairwise fun a b => b.features.createdAt ≤ a.features.createdAt) :
    NewestFirst (markedRows R query notes now) := by
  have hzip : notes.zipIdx.Pairwise fun p q : NoteScoreInput × ℕ =>
      q.1.features.createdAt ≤ p.1.features.createdAt ∧ p.2 < q.2 := by
    have hfst : (notes.zipIdx.map Prod.fst).Pairwise fun a b =>
        b.features.createdAt ≤ a.features.createdAt := by
      rwa [zipIdx_map_fst]
    have hsnd : (notes.zipIdx.map Prod.snd).Pairwise (· < ·) := by
      rw [zipIdx_map_snd]
      exact pairwise_lt_range'
    exact (pairwise_map.mp hfst).and (pairwise_map.mp hsnd)
  have hrows : NewestFirst (rankRows R query notes now) := by
    apply List.Pairwise.sublist filter_sublist
    exact pairwise_map.mpr hzip
  rw [NewestFirst, markedRows, demoteDuplicates, pairwise_map]
  refine hrows.imp fun {a b} hab => ?_
  split_ifs <;> exact hab

theorem map_note_markedRows (hm : ∀ n ∈ notes,
      R.contentMatchesPhrases n.features.content (R.parseSearchQuery query).phrases = true) :
    (markedRows R query notes now).map RankRow.note = notes := by
  rw [markedRows, map_note_demoteDuplicates, map_note_rankRows, phraseMatches, filter_eq_self]
  exact hm

theorem rankNotes_cons_cons (a b : NoteScoreInput) (rest : List NoteScoreInput) (sort : SortOrder) :
    rankNotes R query (a :: b :: rest) sort now =
      if !notesHaveFeatures (a :: b :: rest) && (R.parseSearchQuery query).phrases = [] then
        a :: b :: rest
      else
        (applyAuthorCapRows noteAuthorCap noteAuthorCapWindow
          (sortRows sort (markedRows R query (a :: b :: rest) now))).map RankRow.note := rfl

theorem rankNotes_latest
    (hd : notes.Pairwise fun a b => b.features.createdAt ≤ a.features.createdAt) (hm : ∀ n ∈ notes,
      R.contentMatchesPhrases n.features.content (R.parseSearchQuery query).phrases = true)
    (hf : notesHaveFeatures notes = true ∨ (R.parseSearchQuery query).phrases ≠ []) :
    rankNotes R query notes .latest now = (applyAuthorCapRows noteAuthorCap noteAuthorCapWindow
        (settled (markedRows R query notes now))).map RankRow.note := by
  have hperm : ((applyAuthorCapRows noteAuthorCap noteAuthorCapWindow
      (settled (markedRows R query notes now))).map RankRow.note).Perm notes := by
    have hrows := (applyAuthorCapRows_perm noteAuthorCap noteAuthorCapWindow
      (settled (markedRows R query notes now))).trans (settled_perm _)
    simpa only [map_note_markedRows hm] using hrows.map RankRow.note
  rcases notes with _ | ⟨a, _ | ⟨b, rest⟩⟩
  · rw [rankNotes, perm_nil.mp hperm]
  · -- A page of one note is not ranked, and ranking it would change nothing.
    rw [rankNotes_single (hm a (.head _)), perm_singleton.mp hperm]
  · rw [← sortRows_latest (markedRows_newestFirst hd), rankNotes_cons_cons, if_neg]
    simp only [Bool.and_eq_true, Bool.not_eq_true', decide_eq_true_eq, not_and]
    intro hno hp
    rcases hf with hf | hf
    · exact absurd hf (by simp [hno])
    · exact hf hp

theorem rankNotes_featureless (hf : notesHaveFeatures notes = false)
    (hp : (R.parseSearchQuery query).phrases = []) (sort : SortOrder) :
    rankNotes R query notes sort now = notes := by
  rcases notes with _ | ⟨a, _ | ⟨b, rest⟩⟩
  · rw [rankNotes]
  · exact rankNotes_single (by simp [hp, TextRules.contentMatchesPhrases])
  · rw [rankNotes_cons_cons, if_pos]
    simp [hf, hp]

section
variable (hd : notes.Pairwise fun a b => b.features.createdAt ≤ a.features.createdAt)
include hd

section
variable (hm : ∀ n ∈ notes, R.contentMatchesPhrases n.features.content (R.parseSearchQuery query).phrases = true)
include hm

theorem getLast?_rankNotes_latest
 :
    (rankNotes R query notes .latest now).getLast? = notes.getLast? ↔
      OldestLast R query notes now := by
  by_cases hf : notesHaveFeatures notes = true ∨ (R.parseSearchQuery query).phrases ≠ []
  · rw [rankNotes_latest hd hm hf, List.getLast?_map, getLast?_applyAuthorCapRows, OldestLast,
      forall_prop_of_true hf]
  · have hf' := not_or.mp hf
    rw [rankNotes_featureless (by simpa using hf'.1) (not_not.mp hf'.2)]
    exact iff_of_true rfl fun h => absurd h hf

theorem uncapped_rankNotes_latest
 :
    uncapped NoteScoreInput.author [] (rankNotes R query notes .latest now) =
      uncapped NoteScoreInput.author [] (settledNotes R query notes now) := by
  have hauthor : NoteScoreInput.author ∘ RankRow.note = RankRow.author := rfl
  by_cases hf : notesHaveFeatures notes = true ∨ (R.parseSearchQuery query).phrases ≠ []
  · rw [rankNotes_latest hd hm hf, settledNotes, if_pos hf, uncapped_map, uncapped_map, hauthor,
      uncapped_applyAuthorCapRows]
  · have hf' := not_or.mp hf
    rw [rankNotes_featureless (by simpa using hf'.1) (not_not.mp hf'.2), settledNotes, if_neg hf]

end
end
end NostrMash.Search
