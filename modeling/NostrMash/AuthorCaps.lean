import NostrMash.SearchRank

/-!
# Author caps

`applyAuthorCapRows` moves the rows that are crowded out behind the others: those that find two
rows of their author before them, or twenty rows that count.
-/

namespace NostrMash.Search
open List Nat

section

def RankRow.author (row : RankRow) : String := authorKey row.note.pubkey row.note.id

def counted (authors : List String) : ℕ :=
  ∑ a ∈ authors.toFinset, min noteAuthorCap (authors.count a)

def crowded (before : List String) (author : String) : Bool :=
  noteAuthorCap ≤ before.count author || noteAuthorCapWindow ≤ counted before

theorem crowded_iff {before : List String} {author : String} : crowded before author = true ↔
      noteAuthorCap ≤ before.count author ∨ noteAuthorCapWindow ≤ counted before := by
  rw [crowded, Bool.or_eq_true, decide_eq_true_iff, decide_eq_true_iff]

def crowdedOut (before : List String) : List RankRow → List RankRow
  | [] => []
  | row :: rows =>
    if crowded before row.author then row :: crowdedOut (before ++ [row.author]) rows
    else crowdedOut (before ++ [row.author]) rows

theorem crowdedOut_cons (before : List String) (row : RankRow) (rows : List RankRow) :
    crowdedOut before (row :: rows) = if crowded before row.author then
      row :: crowdedOut (before ++ [row.author]) rows
    else crowdedOut (before ++ [row.author]) rows := rfl

theorem counted_concat (authors : List String) (a : String) : counted (authors ++ [a]) =
      counted authors + if authors.count a < noteAuthorCap then 1 else 0 := by
  have hsub : authors.toFinset ⊆ (authors ++ [a]).toFinset := by simp
  have hzero : counted authors =
      ∑ b ∈ (authors ++ [a]).toFinset, min noteAuthorCap (authors.count b) := by
    refine Finset.sum_subset hsub fun b _ hb => ?_
    rw [count_eq_zero.mpr fun hm => hb (mem_toFinset.mpr hm), min_zero]
  have hstep : ∀ b, min noteAuthorCap ((authors ++ [a]).count b) =
      min noteAuthorCap (authors.count b) +
        if b = a then if authors.count a < noteAuthorCap then 1 else 0 else 0 := by
    intro b
    rw [count_append, count_singleton]
    by_cases hba : b = a
    · subst hba
      simp only [beq_self_eq_true, if_true]
      split_ifs <;> omega
    · have hab : (a == b) = false := beq_false_of_ne (Ne.symm hba)
      simp [hab, hba]
  rw [hzero, counted]
  simp only [hstep, Finset.sum_add_distrib, Finset.sum_ite_eq']
  simp

structure CapState (before : List String) (kept : List RankRow) : Prop where
  length_eq : kept.length = min noteAuthorCapWindow (counted before)
  count_eq : counted before < noteAuthorCapWindow → ∀ a,
    (kept.map RankRow.author).count a = min noteAuthorCap (before.count a)

theorem count_map_author (kept : List RankRow) (a : String) : (kept.map RankRow.author).count a =
      (kept.filter fun r => authorKey r.note.pubkey r.note.id = a).length := by
  rw [count_eq_length_filter, filter_map, length_map]
  rfl

theorem capState_nil : CapState [] [] := by
  constructor <;> simp [counted]

variable {before : List String} {acc : List RankRow × List RankRow}

theorem capRow_eq (h : CapState before acc.1) (row : RankRow) :
    capRow noteAuthorCap noteAuthorCapWindow acc row =
      if crowded before row.author then (acc.1, acc.2 ++ [row]) else (acc.1 ++ [row], acc.2) := by
  have hlen := h.length_eq
  have hcount : counted before < noteAuthorCapWindow →
      (acc.1.filter fun r => authorKey r.note.pubkey r.note.id = row.author).length =
        min noteAuthorCap (before.count row.author) := fun hlt => by
    rw [← count_map_author, h.count_eq hlt]
  have hkept : (acc.1.length < noteAuthorCapWindow ∧
      (acc.1.filter fun r => authorKey r.note.pubkey r.note.id = row.author).length <
        noteAuthorCap) ↔ ¬ crowded before row.author = true := by
    rw [crowded_iff]
    by_cases hfull : counted before < noteAuthorCapWindow
    · rw [hcount hfull]
      omega
    · omega
  rw [← ite_not]
  simp only [← hkept]
  rfl

theorem CapState.concat (h : CapState before acc.1) (row : RankRow) :
    CapState (before ++ [row.author]) (capRow noteAuthorCap noteAuthorCapWindow acc row).1 := by
  have hlen := h.length_eq
  have hadd := counted_concat before row.author
  rw [capRow_eq h]
  by_cases hc : crowded before row.author = true
  · rw [if_pos hc]
    rw [crowded_iff] at hc
    refine ⟨?_, fun hlt a => ?_⟩
    · rw [hlen, hadd]
      split_ifs <;> omega
    · rw [h.count_eq (by omega) a, count_append, count_singleton]
      by_cases ha : row.author = a
      · subst ha
        simp only [beq_self_eq_true, if_true]
        omega
      · simp [ha]
  · rw [if_neg hc]
    rw [crowded_iff, not_or, not_le, not_le] at hc
    refine ⟨?_, fun _ a => ?_⟩
    · rw [length_append, length_singleton, hlen, hadd, if_pos hc.1]
      omega
    · rw [map_append, count_append, h.count_eq hc.2 a, count_append, map_singleton, count_singleton]
      by_cases ha : row.author = a
      · subst ha
        simp only [beq_self_eq_true, if_true]
        omega
      · simp [ha]

theorem foldl_capRow_snd (acc : List RankRow × List RankRow) (rows : List RankRow)
    (h : CapState before acc.1) : (rows.foldl (capRow noteAuthorCap noteAuthorCapWindow) acc).2 =
      acc.2 ++ crowdedOut before rows := by
  induction rows generalizing before acc with
  | nil => exact (append_nil _).symm
  | cons row rows ih =>
    rw [foldl_cons, ih _ (h.concat row), capRow_eq h, crowdedOut_cons]
    split_ifs
    · simp
    · rfl

theorem foldl_capRow_fst (acc : List RankRow × List RankRow) (rows : List RankRow)
    (h : CapState before acc.1) (hnone : crowdedOut before rows = []) :
    (rows.foldl (capRow noteAuthorCap noteAuthorCapWindow) acc).1 = acc.1 ++ rows := by
  induction rows generalizing before acc with
  | nil => simp
  | cons row rows ih =>
    rw [crowdedOut_cons] at hnone
    split_ifs at hnone with hc
    rw [foldl_cons, ih _ (h.concat row) hnone, capRow_eq h, if_neg hc]
    simp

theorem getLast?_applyAuthorCapRows (rows : List RankRow) :
    (applyAuthorCapRows noteAuthorCap noteAuthorCapWindow rows).getLast? =
      (crowdedOut [] rows).getLast?.or rows.getLast? := by
  have hsnd := foldl_capRow_snd ([], []) rows capState_nil
  rw [nil_append] at hsnd
  rw [applyAuthorCapRows, hsnd, List.getLast?_append]
  cases hout : crowdedOut [] rows with
  | nil => rw [foldl_capRow_fst ([], []) rows capState_nil hout, nil_append]
  | cons r out => simp [List.getLast?_cons]

end

variable {α β : Type} (author : α → String)

def uncapped (before : List String) : List α → List α
  | [] => []
  | a :: l =>
    if before.count (author a) < noteAuthorCap then a :: uncapped (before ++ [author a]) l
    else uncapped (before ++ [author a]) l

variable {author} {before : List String} {l : List α} {limit : ℕ}

theorem uncapped_cons (a : α) : uncapped author before (a :: l) =
    if before.count (author a) < noteAuthorCap then a :: uncapped author (before ++ [author a]) l
    else uncapped author (before ++ [author a]) l := rfl

theorem uncapped_sublist : (uncapped author before l).Sublist l := by
  induction l generalizing before with
  | nil => exact List.Sublist.refl _
  | cons a l ih =>
    rw [uncapped_cons]
    split_ifs
    · exact ih.cons_cons a
    · exact ih.cons a

theorem uncapped_append (l' : List α) : uncapped author before (l ++ l') =
      uncapped author before l ++ uncapped author (before ++ l.map author) l' := by
  induction l generalizing before with
  | nil =>
    rw [nil_append, map_nil, append_nil]
    rfl
  | cons a l ih =>
    have hbefore : before ++ author a :: l.map author = before ++ [author a] ++ l.map author :=
      append_cons before (author a) _
    rw [cons_append, uncapped_cons, uncapped_cons, ih, map_cons, hbefore]
    split_ifs
    · rfl
    · rfl

theorem uncapped_map (g : β → α) (l : List β) :
    uncapped author before (l.map g) = (uncapped (author ∘ g) before l).map g := by
  induction l generalizing before with
  | nil => rfl
  | cons b l ih =>
    rw [map_cons, uncapped_cons, uncapped_cons, ih, Function.comp_apply]
    split_ifs
    · rfl
    · rfl

theorem uncapped_eq_nil (h : ∀ a ∈ l, noteAuthorCap ≤ before.count (author a)) :
    uncapped author before l = [] := by
  induction l generalizing before with
  | nil => rfl
  | cons a l ih =>
    rw [uncapped_cons, if_neg (not_lt.mpr (h a (.head _)))]
    apply ih
    intro b hb
    rw [count_append]
    exact le_add_right_of_le (h b (mem_cons_of_mem a hb))

theorem uncapped_concat (a : α) : uncapped author before (l ++ [a]) = uncapped author before l ++
      if (before ++ l.map author).count (author a) < noteAuthorCap then [a] else [] := by
  rw [uncapped_append, uncapped_cons]
  rfl

theorem foldl_capNote {out : List RawNote} (events : List RawNote)
    (hroom : out.length + events.length ≤ limit)
    (hcount : ∀ a, (out.filter fun m => noteAuthor m = a).length =
      min noteAuthorCap (before.count a)) :
    events.foldl (capNote limit noteAuthorCap) out = out ++ uncapped noteAuthor before events := by
  induction events generalizing before out with
  | nil => exact (append_nil _).symm
  | cons n events ih =>
    rw [length_cons] at hroom
    rw [foldl_cons, uncapped_cons]
    by_cases hn : before.count (noteAuthor n) < noteAuthorCap
    · have hstep : capNote limit noteAuthorCap out n = out ++ [n] := by
        rw [capNote, hcount, if_neg]
        omega
      rw [hstep, if_pos hn, ih, append_assoc, singleton_append]
      · rw [length_append, length_singleton]
        omega
      · intro a
        rw [filter_append, length_append, hcount, count_append, count_singleton]
        by_cases ha : noteAuthor n = a
        · subst ha
          simp
          omega
        · simp [ha]
    · have hstep : capNote limit noteAuthorCap out n = out := by
        rw [capNote, hcount, if_pos]
        omega
      rw [hstep, if_neg hn, ih]
      · omega
      · intro a
        rw [hcount, count_append, count_singleton]
        by_cases ha : noteAuthor n = a
        · subst ha
          simp
          omega
        · simp [ha]

theorem capAuthorPage_eq {events : List RawNote} (hlen : events.length ≤ limit) :
    capAuthorPage events limit noteAuthorCap = uncapped noteAuthor [] events := by
  have hlimit : (if limit = 0 ∨ limit > events.length then events.length else limit) =
      events.length := by
    split_ifs
    · rfl
    · omega
  rw [capAuthorPage, hlimit, if_neg (by decide)]
  exact foldl_capNote events (by simp) (by simp)

structure CapSplit (rows : List RankRow) (acc : List RankRow × List RankRow) : Prop where
  state : CapState (rows.map RankRow.author) acc.1
  perm : (acc.1 ++ acc.2).Perm rows
  overflow : counted (rows.map RankRow.author) < noteAuthorCapWindow →
    ∀ r ∈ acc.2, noteAuthorCap ≤ (rows.map RankRow.author).count r.author
  uncapped_eq : uncapped RankRow.author [] (acc.1 ++ acc.2) = uncapped RankRow.author [] rows

theorem CapSplit.concat {rows : List RankRow} {acc : List RankRow × List RankRow}
    (h : CapSplit rows acc) (row : RankRow) :
    CapSplit (rows ++ [row]) (capRow noteAuthorCap noteAuthorCapWindow acc row) := by
  have hcount : (List.map RankRow.author (acc.1 ++ acc.2)).count row.author =
      (rows.map RankRow.author).count row.author := (h.perm.map _).count_eq _
  have hmap : (rows ++ [row]).map RankRow.author = rows.map RankRow.author ++ [row.author] := by
    simp
  refine ⟨?_, ?_, ?_, ?_⟩
  · rw [hmap]
    exact h.state.concat row
  · exact (capRow_perm _ _ acc row).trans (h.perm.append_right [row])
  · rw [hmap, counted_concat]
    intro hlt r hr
    have hold := h.overflow (by omega)
    rw [count_append]
    rw [capRow_eq h.state] at hr
    split_ifs at hr with hc
    · rcases mem_append.mp hr with hr | hr
      · exact le_add_right_of_le (hold r hr)
      · rw [crowded_iff] at hc
        rw [mem_singleton.mp hr]
        omega
    · exact le_add_right_of_le (hold r hr)
  · rw [capRow_eq h.state, uncapped_concat, ← h.uncapped_eq]
    by_cases hc : crowded (rows.map RankRow.author) row.author = true
    · rw [if_pos hc, ← append_assoc, uncapped_concat, nil_append, nil_append, hcount]
    · rw [if_neg hc]
      rw [crowded_iff, not_or, not_le, not_le] at hc
      -- Before twenty rows count, the overflow holds rows of capped authors only.
      have hover : ∀ r ∈ acc.2, noteAuthorCap ≤ (acc.1.map RankRow.author).count r.author := by
        intro r hr
        have := h.overflow hc.2 r hr
        rw [h.state.count_eq hc.2]
        omega
      have hkept := h.state.count_eq hc.2 row.author
      have hnil : uncapped RankRow.author (acc.1.map RankRow.author) acc.2 = [] :=
        uncapped_eq_nil hover
      have hnil' : uncapped RankRow.author ((acc.1 ++ [row]).map RankRow.author) acc.2 = [] := by
        refine uncapped_eq_nil fun r hr => ?_
        rw [map_append, count_append]
        exact le_add_right_of_le (hover r hr)
      dsimp only
      rw [uncapped_append acc.2, uncapped_append acc.2, uncapped_concat, nil_append,
        nil_append, nil_append, hnil, hnil', hkept]
      simp [hc.1]

theorem capSplit_foldl (rows seen : List RankRow) {acc : List RankRow × List RankRow}
    (h : CapSplit seen acc) :
    CapSplit (seen ++ rows) (rows.foldl (capRow noteAuthorCap noteAuthorCapWindow) acc) := by
  induction rows generalizing seen acc with
  | nil => simpa using h
  | cons row rows ih =>
    rw [foldl_cons, append_cons]
    exact ih (seen ++ [row]) (h.concat row)

theorem uncapped_applyAuthorCapRows (rows : List RankRow) :
    uncapped RankRow.author [] (applyAuthorCapRows noteAuthorCap noteAuthorCapWindow rows) =
      uncapped RankRow.author [] rows := by
  have hnil : CapSplit [] ([], []) :=
    ⟨capState_nil, List.Perm.refl _, fun _ _ h => absurd h not_mem_nil, rfl⟩
  exact (capSplit_foldl rows [] hnil).uncapped_eq

variable {cap window : ℕ} {rows : List RankRow} {split : List RankRow × List RankRow}

/-- The rows that stay in front and the others, while the rows come in. -/
structure Capped (cap window : ℕ) (rows : List RankRow) (split : List RankRow × List RankRow) :
    Prop where
  kept : split.1.Sublist rows
  overflow : split.2.Sublist rows
  length_le : split.1.length ≤ window
  count_le : ∀ a, (split.1.map RankRow.author).count a ≤ cap
  full : window ≤ split.1.length ∨
    ∀ row ∈ split.2, cap ≤ (split.1.map RankRow.author).count row.author

theorem Capped.concat (h : Capped cap window rows split) (row : RankRow) :
    Capped cap window (rows ++ [row]) (capRow cap window split row) := by
  have hcount := count_map_author split.1 row.author
  simp only [capRow]
  split_ifs with hroom
  · refine ⟨h.kept.append_right _, h.overflow.trans (sublist_append_left _ _), ?_, fun a => ?_, ?_⟩
    · simpa using succ_le_of_lt hroom.1
    · rw [map_append, count_append, map_singleton, count_singleton]
      split_ifs with ha
      · rw [← beq_iff_eq.mp ha, hcount]
        exact hroom.2
      · exact h.count_le a
    · refine h.full.imp (fun hfull => absurd hroom.1 (not_lt.mpr hfull)) fun hall r hr => ?_
      rw [map_append, count_append]
      exact (hall r hr).trans (le_add_right _ _)
  · refine ⟨h.kept.trans (sublist_append_left _ _), h.overflow.append_right _, h.length_le,
      h.count_le, ?_⟩
    rw [or_iff_not_imp_left, not_le]
    intro hlt
    refine forall_mem_append.mpr ⟨h.full.resolve_left (not_le.mpr hlt), ?_⟩
    rw [forall_mem_singleton, hcount]
    exact not_lt.mp fun hfew => hroom ⟨hlt, hfew⟩

theorem capped_foldl (cap window : ℕ) (rows : List RankRow) :
    Capped cap window rows (rows.foldl (capRow cap window) ([], [])) := by
  induction rows using List.reverseRecOn with
  | nil => exact ⟨.refl _, .refl _, zero_le _, by simp, .inr (by simp)⟩
  | append_singleton rows row ih =>
    rw [foldl_append]
    exact ih.concat row

/-- What the cap makes of ranked notes. -/
structure FairlyCapped (cap window : ℕ) (rows out : List RankRow) : Prop where
  perm : out.Perm rows
  /-- The first positions respect the cap if any rows could fill them so. -/
  fair : (∃ l : List RankRow, l.Subperm rows ∧ l.length = min window rows.length ∧
      ∀ a, (l.map RankRow.author).count a ≤ cap) →
    ∀ a, ((out.take (min window rows.length)).map RankRow.author).count a ≤ cap
  ordered : ∃ kept overflow, out = kept ++ overflow ∧ kept.Sublist rows ∧ overflow.Sublist rows ∧
    kept.length ≤ window ∧ ∀ a, (kept.map RankRow.author).count a ≤ cap

/-- The author cap is fair and loses nothing. -/
theorem fairlyCapped_applyAuthorCapRows (cap window : ℕ) (rows : List RankRow) :
    FairlyCapped cap window rows (applyAuthorCapRows cap window rows) := by
  have h := capped_foldl cap window rows
  have hperm := applyAuthorCapRows_perm cap window rows
  rw [applyAuthorCapRows] at hperm ⊢
  generalize rows.foldl (capRow cap window) ([], []) = split at h hperm ⊢
  refine ⟨hperm, ?_, split.1, split.2, rfl, h.kept, h.overflow, h.length_le, h.count_le⟩
  rintro ⟨l, hl, hlength, hcap⟩ a
  have hfits : min window rows.length ≤ split.1.length := by
    rcases h.full with hfull | hall
    · exact (min_le_left _ _).trans hfull
    · -- Every author has as many kept rows as any choice within the cap can have.
      rw [← hlength, ← length_map RankRow.author,
        ← (length_map _ : (split.1.map RankRow.author).length = _)]
      refine (subperm_ext_iff.mpr fun b _ => ?_).length_le
      by_cases hb : b ∈ split.2.map RankRow.author
      · obtain ⟨row, hrow, rfl⟩ := mem_map.mp hb
        exact (hcap _).trans (hall row hrow)
      · have hsame := (hperm.map RankRow.author).count_eq b
        rw [map_append, count_append, count_eq_zero.mpr hb, add_zero] at hsame
        obtain ⟨l', hl', hsub⟩ := hl
        rw [hsame, ← (hl'.map _).count_eq]
        exact (hsub.map _).count_le b
  rw [take_append_of_le_length hfits]
  exact (((take_sublist _ _).map _).count_le a).trans (h.count_le a)

end NostrMash.Search
