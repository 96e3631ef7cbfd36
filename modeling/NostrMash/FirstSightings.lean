import NostrMash.EventRelays

/-!
# The first sighting of an event

`Marks` relates the rows of an event to all the sightings that were ever recorded of it: a row's
rank is one of them, the least one has its row, and the flag marks that row.
-/

namespace NostrMash.EventRelays
open Set KeyedTable

structure Marks (T : Table) (eventID : String) (R : Set Rank) : Prop where
  recorded : ∀ relayURL row, T.get (eventID, relayURL) = some row → row.rank relayURL ∈ R
  kept : R.Nonempty →
    ∃ relayURL row, T.get (eventID, relayURL) = some row ∧ row.rank relayURL ∈ lowerBounds R
  flagged : ∀ relayURL row, T.get (eventID, relayURL) = some row →
    (row.isFirstSeen = true ↔ row.rank relayURL ∈ lowerBounds R)

theorem mem_lowerBounds_insert {r s : Rank} {R : Set Rank} :
    r ∈ lowerBounds (insert s R) ↔ r ≤ s ∧ r ∈ lowerBounds R := by
  rw [lowerBounds_insert, mem_inter_iff, mem_Iic]

theorem rank_le {relayURL : String} {s t : ℤ} (h : s ≤ t) :
    (toLex (s, relayURL) : Rank) ≤ toLex (t, relayURL) :=
  Prod.Lex.toLex_le_toLex'.mpr ⟨h, fun _ => le_rfl⟩

variable {other : String}

theorem rank_ne {relayURL : String} {s t : ℤ} (h : other ≠ relayURL) :
    (toLex (s, other) : Rank) ≠ toLex (t, relayURL) :=
  fun heq => h (Prod.mk.inj (toLex.injective heq)).2

namespace Marks

variable {T : Table} {eventID relayURL : String} {R : Set Rank} {seenAt : ℤ} {pubkey : String}
  {row : EventRelay}

theorem empty (eventID : String) : Marks KeyedTable.empty eventID ∅ where
  recorded := by simp
  kept := fun h => absurd h not_nonempty_empty
  flagged := by simp

theorem earlier (h : Marks T eventID R) (hearly : seenEarlier T eventID relayURL seenAt = true) :
    ∃ r ∈ R, r < toLex (seenAt, relayURL) := by
  obtain ⟨other, row, -, hget, hlt⟩ := seenEarlier_iff.mp hearly
  exact ⟨_, h.recorded other row hget, hlt⟩

theorem own_le (T : Table) (eventID relayURL : String) (seenAt : ℤ) :
    ((T.get (eventID, relayURL)).elim seenAt fun old => min old.seenAt seenAt) ≤ seenAt := by
  cases T.get (eventID, relayURL) with
  | none => exact le_rfl
  | some old => exact min_le_right _ _

section
variable (h : Marks T eventID R)
include h

theorem own_mem_lowerBounds (hearly : seenEarlier T eventID relayURL seenAt = false) :
    toLex ((T.get (eventID, relayURL)).elim seenAt fun old => min old.seenAt seenAt, relayURL) ∈
      lowerBounds (insert (toLex (seenAt, relayURL)) R) := by
  have hown := @rank_le relayURL _ _ (own_le T eventID relayURL seenAt)
  refine mem_lowerBounds_insert.mpr ⟨hown, fun r hr => ?_⟩
  obtain ⟨first, row, hget, hlow⟩ := h.kept ⟨r, hr⟩
  rcases eq_or_ne first relayURL with rfl | hne
  · rw [hget]
    exact (rank_le (min_le_left _ _)).trans (hlow hr)
  · have hnot : ¬row.rank first < toLex (seenAt, relayURL) := fun hlt =>
      Bool.false_ne_true (hearly.symm.trans (seenEarlier_iff.mpr ⟨first, row, hne, hget, hlt⟩))
    exact hown.trans ((not_lt.mp hnot).trans (hlow hr))

theorem stamped_iff
    (hown : ((T.get (eventID, relayURL)).elim seenAt fun old => min old.seenAt seenAt) = seenAt) :
    (!seenEarlier T eventID relayURL seenAt) = true ↔
      toLex (seenAt, relayURL) ∈ lowerBounds (insert (toLex (seenAt, relayURL)) R) := by
  cases hearly : seenEarlier T eventID relayURL seenAt with
  | false =>
    have hlow := h.own_mem_lowerBounds hearly
    rw [hown] at hlow
    exact iff_of_true rfl hlow
  | true =>
    obtain ⟨r, hr, hlt⟩ := h.earlier hearly
    exact iff_of_false Bool.false_ne_true fun hlow =>
      absurd ((mem_lowerBounds_insert.mp hlow).2 hr) (not_le.mpr hlt)

theorem upsert_self
    (hrow : (upsertEventRelay T eventID relayURL seenAt pubkey).get (eventID, relayURL) =
      some row) : row.rank relayURL ∈ insert (toLex (seenAt, relayURL)) R ∧
      (row.isFirstSeen = true ↔
        row.rank relayURL ∈ lowerBounds (insert (toLex (seenAt, relayURL)) R)) := by
  rw [get_upsertEventRelay_self] at hrow
  obtain rfl := (Option.some.inj hrow).symm
  cases hold : T.get (eventID, relayURL) with
  | none => exact ⟨mem_insert _ _, h.stamped_iff (by rw [hold]; rfl)⟩
  | some old =>
    simp only [Option.elim_some, EventRelay.rank]
    by_cases hle : old.seenAt ≤ seenAt
    · rw [min_eq_left hle, if_pos hle, mem_lowerBounds_insert]
      refine ⟨mem_insert_of_mem _ (h.recorded relayURL old hold), ?_⟩
      exact (h.flagged relayURL old hold).trans (and_iff_right (rank_le hle)).symm
    · have hmin : min old.seenAt seenAt = seenAt := min_eq_right (not_le.mp hle).le
      rw [hmin, if_neg hle]
      exact ⟨mem_insert _ _, h.stamped_iff (by rw [hold]; exact hmin)⟩

theorem upsert_peer (hne : other ≠ relayURL)
    (hrow : T.get (eventID, other) = some row) :
    (row.isFirstSeen && seenEarlier T eventID relayURL seenAt) = true ↔
      row.rank other ∈ lowerBounds (insert (toLex (seenAt, relayURL)) R) := by
  rw [mem_lowerBounds_insert, Bool.and_eq_true, h.flagged other row hrow, and_comm]
  refine and_congr_left fun hlow => ?_
  constructor
  · intro hearly
    obtain ⟨r, hr, hlt⟩ := h.earlier hearly
    exact (hlow hr).trans hlt.le
  · intro hle
    exact seenEarlier_iff.mpr ⟨other, row, hne, hrow, lt_of_le_of_ne hle (rank_ne hne)⟩

theorem upsert : Marks (upsertEventRelay T eventID relayURL seenAt pubkey) eventID
      (insert (toLex (seenAt, relayURL)) R) where
  recorded := by
    intro other row hrow
    rcases eq_or_ne other relayURL with rfl | hne
    · exact (h.upsert_self hrow).1
    · rw [get_upsertEventRelay_peer hne, Option.map_eq_some_iff] at hrow
      obtain ⟨old, hold, rfl⟩ := hrow
      exact mem_insert_of_mem _ (h.recorded other old hold)
  flagged := by
    intro other row hrow
    rcases eq_or_ne other relayURL with rfl | hne
    · exact (h.upsert_self hrow).2
    · rw [get_upsertEventRelay_peer hne, Option.map_eq_some_iff] at hrow
      obtain ⟨old, hold, rfl⟩ := hrow
      exact h.upsert_peer hne hold
  kept := by
    intro _
    have hself : ∃ row, (upsertEventRelay T eventID relayURL seenAt pubkey).get
        (eventID, relayURL) = some row ∧ row.rank relayURL = toLex
          ((T.get (eventID, relayURL)).elim seenAt fun old => min old.seenAt seenAt, relayURL) := by
      refine ⟨_, get_upsertEventRelay_self, ?_⟩
      cases T.get (eventID, relayURL) <;> rfl
    obtain ⟨own, hown, hrank⟩ := hself
    cases hearly : seenEarlier T eventID relayURL seenAt with
    | false => exact ⟨relayURL, own, hown, hrank ▸ h.own_mem_lowerBounds hearly⟩
    | true =>
      obtain ⟨r, hr, hlt⟩ := h.earlier hearly
      obtain ⟨first, row, hget, hlow⟩ := h.kept ⟨r, hr⟩
      rcases eq_or_ne first relayURL with rfl | hne
      · -- The relay's own row was the first already, and it has not become later.
        refine ⟨first, own, hown, mem_lowerBounds_insert.mpr ⟨?_, fun s hs => ?_⟩⟩
        · exact hrank ▸ rank_le (own_le T eventID first seenAt)
        · rw [hrank, hget]
          exact (rank_le (min_le_left _ _)).trans (hlow hs)
      · refine ⟨first, _, ?_, mem_lowerBounds_insert.mpr ⟨(hlow hr).trans hlt.le, hlow⟩⟩
        rw [get_upsertEventRelay_peer hne, hget, hearly]
        simp

theorem upsert_of_ne {e : String} (hne : eventID ≠ e) :
    Marks (upsertEventRelay T e relayURL seenAt pubkey) eventID R where
  recorded := by simpa only [get_upsertEventRelay_of_ne hne] using h.recorded
  kept := by simpa only [get_upsertEventRelay_of_ne hne] using h.kept
  flagged := by simpa only [get_upsertEventRelay_of_ne hne] using h.flagged

end

theorem notMem_purgeCandidates {T : Table} {seenBefore : ℤ} {limit : ℕ} {k : String × String}
    (hget : T.get k = some row) (hfirst : row.isFirstSeen = true) :
    k ∉ (purgeCandidates T seenBefore limit).map Prod.fst := by
  intro hmem
  obtain ⟨⟨k', row'⟩, hscan, rfl⟩ := List.mem_map.mp hmem
  obtain ⟨hrow, hcond⟩ := List.mem_filter.mp (mem_of_mem_scan hscan)
  rw [mem_rows, hget] at hrow
  cases hrow
  exact (of_decide_eq_true hcond).2 hfirst

theorem purge (h : Marks T eventID R) {seenBefore : Option ℤ} {limit : ℤ} {T' : Table}
    (hpurge : purgeStaleEventRelays T seenBefore limit = .ok T') : Marks T' eventID R := by
  unfold purgeStaleEventRelays at hpurge
  cases seenBefore with
  | none => cases hpurge
  | some seenBefore =>
    simp only at hpurge
    split_ifs at hpurge
    obtain rfl := (Except.ok.inj hpurge).symm
    refine ⟨fun u row hrow => ?_, fun hne => ?_, fun u row hrow => ?_⟩
    · exact h.recorded u row ((get_delete _).mp hrow).1
    · obtain ⟨first, row, hget, hlow⟩ := h.kept hne
      have hfirst := (h.flagged first row hget).mpr hlow
      refine ⟨first, row, (get_delete _).mpr ⟨hget, ?_⟩, hlow⟩
      exact decide_eq_false (notMem_purgeCandidates hget hfirst)
    · exact h.flagged u row ((get_delete _).mp hrow).1

end Marks

theorem exec_cases (T : Table) (c : Call) :
    (∃ eventID relayURL seenAt pubkey, c.sighting = some (eventID, toLex (seenAt, relayURL)) ∧
      exec T c = upsertEventRelay T eventID relayURL seenAt pubkey) ∨
    (c.sighting = none ∧ (exec T c = T ∨
      ∃ seenBefore limit, purgeStaleEventRelays T seenBefore limit = .ok (exec T c))) := by
  cases c with
  | provenance eventID relayURL seenAt pubkey now =>
    by_cases he : trimSpace eventID = ""
    · exact .inr (by simp [Call.sighting, exec, Call.result, insertEventRelayProvenance, he])
    by_cases hu : trimSpace relayURL = ""
    · exact .inr (by simp [Call.sighting, exec, Call.result, insertEventRelayProvenance, he, hu])
    exact .inl ⟨eventID, relayURL, seenAt.getD now, pubkey, by simp [Call.sighting, he, hu],
      by simp [exec, Call.result, insertEventRelayProvenance, he, hu]⟩
  | canonical eventID relayURL relaySeenAt firstSeenAt pubkey now =>
    by_cases he : trimSpace eventID = ""
    · exact .inr (by simp [Call.sighting, exec, Call.result, insertCanonicalEvent, he])
    by_cases hu : trimSpace relayURL = ""
    · exact .inr (by simp [Call.sighting, exec, Call.result, insertCanonicalEvent, he, hu])
    exact .inl ⟨eventID, relayURL, relaySeenAt.getD (firstSeenAt.getD now), pubkey,
      by simp [Call.sighting, he, hu],
      by simp [exec, Call.result, insertCanonicalEvent, he, hu]⟩
  | purge seenBefore limit =>
    refine .inr ⟨rfl, ?_⟩
    simp only [exec, Call.result]
    cases hpurge : purgeStaleEventRelays T seenBefore limit with
    | error err => exact .inl rfl
    | ok T' => exact .inr ⟨seenBefore, limit, hpurge⟩

theorem recorded_concat (calls : List Call) (c : Call) (eventID : String) :
    recorded (calls ++ [c]) eventID =
      { r | c.sighting = some (eventID, r) } ∪ recorded calls eventID := by
  ext r
  cases hc : c.sighting with
  | none => simp [recorded, hc]
  | some s => simp [recorded, hc, or_comm, eq_comm]

theorem marks_execAll (calls : List Call) (eventID : String) :
    Marks (execAll calls) eventID (recorded calls eventID) := by
  induction calls using List.reverseRecOn with
  | nil => simpa [recorded, execAll] using Marks.empty eventID
  | append_singleton calls c ih =>
    have hstep : execAll (calls ++ [c]) = exec (execAll calls) c := by
      simp [execAll, List.foldl_append]
    rw [hstep, recorded_concat]
    rcases exec_cases (execAll calls) c with ⟨e, u, t, pubkey, hs, hexec⟩ | ⟨hs, hexec⟩
    · rw [hexec, hs]
      rcases eq_or_ne eventID e with rfl | hne
      · have hset : { r | some (eventID, toLex (t, u)) = some (eventID, r) } =
            ({toLex (t, u)} : Set Rank) := by
          ext r
          simp [eq_comm]
        rw [hset, singleton_union]
        exact ih.upsert
      · have hset : { r | some (e, toLex (t, u)) = some (eventID, r) } = (∅ : Set Rank) := by
          ext r
          simp [hne.symm]
        rw [hset, empty_union]
        exact ih.upsert_of_ne hne
    · simp only [hs, reduceCtorEq, ofPred_false, empty_union]
      rcases hexec with hsame | ⟨seenBefore, limit, hpurge⟩
      · rwa [hsame]
      · exact ih.purge hpurge

/-- Every event that was ever seen has the row of its least sighting, and this row and no other of
the event is the first. -/
theorem first_sighting_kept (calls : List Call) (eventID : String)
    (hseen : (recorded calls eventID).Nonempty) :
    ∃ relayURL row, (execAll calls).get (eventID, relayURL) = some row ∧
      IsLeast (recorded calls eventID) (toLex (row.seenAt, relayURL)) ∧ row.isFirstSeen = true ∧
      ∀ other row', (execAll calls).get (eventID, other) = some row' → other ≠ relayURL →
        row'.isFirstSeen = false := by
  have h := marks_execAll calls eventID
  obtain ⟨first, row, hget, hlow⟩ := h.kept hseen
  refine ⟨first, row, hget, ⟨h.recorded first row hget, hlow⟩,
    (h.flagged first row hget).mpr hlow, fun other row' hget' hne => ?_⟩
  rw [Bool.eq_false_iff]
  intro hflag
  have hlow' := (h.flagged other row' hget').mp hflag
  have hle := hlow (h.recorded other row' hget')
  exact rank_ne hne (le_antisymm (hlow' (h.recorded first row hget)) hle)

def twoRelays : List Call :=
  [.provenance "e" "wss://b" (some 9) "p" 9, .canonical "e" "wss://a" (some 5) none "p" 9,
    .provenance "e" "wss://b" (some 3) "p" 10, .purge (some 8) 10]

theorem twoRelays_first : ∃ relayURL row,
    (execAll twoRelays).get ("e", relayURL) = some row ∧ row.isFirstSeen = true := by
  have hmem : (toLex (9, "wss://b") : Rank) ∈ recorded twoRelays "e" := by
    simp only [recorded, twoRelays, mem_ofPred_eq, List.mem_filterMap]
    exact ⟨_, .head _, by decide⟩
  obtain ⟨relayURL, row, hget, -, hfirst, -⟩ := first_sighting_kept twoRelays "e" ⟨_, hmem⟩
  exact ⟨relayURL, row, hget, hfirst⟩

end NostrMash.EventRelays
