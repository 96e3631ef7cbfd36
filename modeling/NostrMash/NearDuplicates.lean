import NostrMash.SearchSupplement

/-!
# Near duplicates

Of the notes of an author with the same text, each is compared with the best one so far, and is
left alone if the two are more than a week apart.
-/

namespace NostrMash.Search
open List
variable {R : TextRules} {rows seen : List RankRow} {acc : List (String × RankRow) × List ℕ}

def markNearDuplicates (R : TextRules) (rows : List RankRow) : List ℕ :=
  (rows.foldl (markNearDuplicate R) ([], [])).2

/-- Two different rows with the same author and normalized content, at most a week apart. -/
def NearDuplicates (R : TextRules) (a b : RankRow) : Prop :=
  a.idx ≠ b.idx ∧ (duplicateKey R a.note).isSome ∧ duplicateKey R a.note = duplicateKey R b.note ∧
    (a.note.features.createdAt - b.note.features.createdAt).natAbs ≤ 7 * 24 * 3600

/-- A row that is close to another row of its group is close to all rows of the group. -/
def EvenlySpaced (R : TextRules) (rows : List RankRow) : Prop :=
  ∀ a ∈ rows, ∀ b ∈ rows, ∀ c ∈ rows, a.idx ≠ b.idx →
    duplicateKey R a.note = duplicateKey R b.note → duplicateKey R a.note = duplicateKey R c.note →
    withinDuplicateWindow a.note b.note = true → withinDuplicateWindow c.note a.note = true

def PairsMarked (R : TextRules) (rows : List RankRow) : Prop :=
  ∀ a ∈ rows, ∀ b ∈ rows, NearDuplicates R a b →
    a.idx ∈ markNearDuplicates R rows ∨ b.idx ∈ markNearDuplicates R rows

/-- No other row of the group is close. -/
def Apart (R : TextRules) (rows : List RankRow) (a : RankRow) : Prop :=
  ∀ b ∈ rows, a.idx ≠ b.idx → duplicateKey R a.note = duplicateKey R b.note →
    withinDuplicateWindow a.note b.note = false

/-- Every row seen is the best of its group, marked or apart. -/
structure Compared (R : TextRules) (rows seen : List RankRow)
    (acc : List (String × RankRow) × List ℕ) : Prop where
  mem : ∀ key best, acc.1.lookup key = some best → best ∈ rows ∧ duplicateKey R best.note = some key
  settled : ∀ a ∈ seen, ∀ key, duplicateKey R a.note = some key → ∃ best,
    acc.1.lookup key = some best ∧ (a.idx = best.idx ∨ a.idx ∈ acc.2 ∨ Apart R rows a)

theorem Compared.concat (heven : EvenlySpaced R rows) (h : Compared R rows seen acc)
    {row : RankRow} (hrow : row ∈ rows) :
    Compared R rows (seen ++ [row]) (markNearDuplicate R acc row) := by
  unfold markNearDuplicate
  split
  · rename_i hkey
    refine ⟨h.mem, forall_mem_append.mpr ⟨h.settled, forall_mem_singleton.mpr ?_⟩⟩
    simp [hkey]
  · rename_i key hkey
    have hother : ∀ key' ≠ key, ((key, row) :: acc.1).lookup key' = acc.1.lookup key' :=
      fun key' hne => by rw [lookup_cons, beq_false_of_ne hne]
    have hput : ∀ key' best, ((key, row) :: acc.1).lookup key' = some best →
        best ∈ rows ∧ duplicateKey R best.note = some key' := by
      intro key' best hbest
      by_cases heq : key' = key
      · subst heq
        rw [lookup_cons_self] at hbest
        exact Option.some.inj hbest ▸ ⟨hrow, hkey⟩
      · exact h.mem key' best (hother key' heq ▸ hbest)
    split
    · rename_i hnone
      refine ⟨hput, forall_mem_append.mpr ⟨fun a ha key' hkey' => ?_, ?_⟩⟩
      · obtain ⟨best, hbest, ha⟩ := h.settled a ha key' hkey'
        have hne : key' ≠ key := by
          rintro rfl
          simp [hnone] at hbest
        exact ⟨best, (hother key' hne).trans hbest, ha⟩
      · simp [hkey]
    · rename_i best hbest
      have hold := h.mem key best hbest
      split_ifs with hclose hbetter
      · refine ⟨hput, forall_mem_append.mpr ⟨fun a ha key' hkey' => ?_, ?_⟩⟩
        · obtain ⟨best', hbest', ha⟩ := h.settled a ha key' hkey'
          by_cases heq : key' = key
          · subst heq
            cases hbest.symm.trans hbest'
            grind
          · exact ⟨best', (hother key' heq).trans hbest', by grind⟩
        · simp [hkey]
      · refine ⟨h.mem, forall_mem_append.mpr ⟨fun a ha key' hkey' => ?_, ?_⟩⟩
        · obtain ⟨best', hbest', ha⟩ := h.settled a ha key' hkey'
          exact ⟨best', hbest', by grind⟩
        · simp [hkey, hbest]
      · refine ⟨h.mem, forall_mem_append.mpr ⟨h.settled, forall_mem_singleton.mpr ?_⟩⟩
        intro key' hkey'
        obtain rfl : key = key' := Option.some.inj (hkey.symm.trans hkey')
        refine ⟨best, hbest, .inr (.inr fun b hb hne hgroup => ?_)⟩
        -- Were another row close to this one, then the best one would be close as well.
        rw [Bool.eq_false_iff]
        exact fun hb' => hclose
          (heven row hrow b hb best hold.1 hne hgroup (hkey.trans hold.2.symm) hb')

theorem compared_foldl (heven : EvenlySpaced R rows) (hseen : seen ⊆ rows) :
    Compared R rows seen (seen.foldl (markNearDuplicate R) ([], [])) := by
  induction seen using List.reverseRecOn with
  | nil => exact ⟨by simp, by simp⟩
  | append_singleton seen row ih =>
    rw [foldl_append, foldl_cons, foldl_nil]
    exact (ih fun a ha => hseen (mem_append_left _ ha)).concat heven (hseen (by simp))

/-- The notes of an author who posts the same text on some days. -/
def postedOn (days : List ℤ) : List NoteScoreInput :=
  days.map fun day =>
    { id := toString day, pubkey := "a"
      features :=
        { createdAt := day * 86400, content := "the same advertisement again", replyCount := 0,
          repostCount := 0, reactionCount := 0, zapCount := 0, authorBot := false, authorName := "",
          authorDisplayName := "", authorNIP05 := "", engineScore := 0 } }

end NostrMash.Search
