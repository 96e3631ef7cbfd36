import NostrMash.ReplaceableState

/-!
# Versions of an address

The invariant of the replaceable state: compared with the versions that were recorded so far, the
current event of each address is the greatest, and the queue holds the others.
-/

namespace NostrMash.Replaceable
open AuthorStats List Option

section
variable {a b c : Winner}

theorem Winner.Beats.trans (h : a.Beats b) (h' : b.Beats c) : a.Beats c := by
  rcases h with h | ⟨h, hid⟩
  · rcases h' with h' | ⟨h', -⟩
    · exact .inl (h'.trans h)
    · exact .inl (h' ▸ h)
  · rcases h' with h' | ⟨h', hid'⟩
    · exact .inl (h ▸ h')
    · exact .inr ⟨h.trans h', hid'.trans hid⟩

theorem Winner.Beats.irrefl (a : Winner) : ¬ a.Beats a := by
  rintro (h | ⟨-, h⟩)
  · exact lt_irrefl _ h
  · exact lt_irrefl _ h

theorem beats_of_not (hne : b.eventID ≠ a.eventID) (h : ¬ a.Beats b) : b.Beats a := by
  rcases lt_trichotomy a.createdAt b.createdAt with hlt | heq | hgt
  · exact .inl hlt
  · refine .inr ⟨heq.symm, ?_⟩
    exact (lt_or_gt_of_ne hne.symm).resolve_right fun hid => h (.inr ⟨heq, hid⟩)
  · exact absurd (.inl hgt) h

end

def Consistent (vs : List Version) : Prop :=
  ∀ v ∈ vs, ∀ v' ∈ vs, v.row.eventID = v'.row.eventID → v = v'

structure Tracks (vs : List Version) (S : Tables) : Prop where
  absent : ∀ A, S.state A = none → ∀ w, ⟨A, w⟩ ∉ vs
  current : ∀ A w, S.state A = some w → ⟨A, w⟩ ∈ vs ∧ ∀ w', ⟨A, w'⟩ ∈ vs → w' ≠ w → w.Beats w'
  queued : ∀ w, w ∈ S.purge ↔ ∃ A, ⟨A, w⟩ ∈ vs ∧ S.state A ≠ some w

variable {vs : List Version} {S : Tables} {v : Version} {w old : Winner} {A : Address}

theorem tracks_empty : Tracks [] .empty where
  absent _ _ _ := not_mem_nil
  current _ _ h := nomatch h
  queued w := by simp [Tables.empty]

theorem mem_enqueue {purge : List Winner} {row : Winner}
    (h : ∀ w ∈ purge, w.eventID = row.eventID → w = row) :
    w ∈ enqueue purge row ↔ w ∈ purge ∨ w = row := by
  unfold enqueue
  split_ifs with hmem
  · obtain ⟨w', hw', hid⟩ := mem_map.mp hmem
    exact ⟨.inl, fun hw => hw.elim (fun hw => hw) fun hw => hw ▸ h w' hw' hid ▸ hw'⟩
  · rw [mem_cons, or_comm]

theorem state_upsert_ne (S : Tables) {B : Address} (h : B ≠ A) (new : Winner) :
    (S.upsert A new).state B = S.state B := by
  unfold Tables.upsert
  split_ifs
  · exact Function.update_of_ne h _ _
  · rfl

theorem state_queueLoser (S : Tables) (A : Address) (new : Winner) :
    (S.queueLoser A new).state = S.state := by
  unfold Tables.queueLoser
  split_ifs <;> rfl

theorem record_of_wins (h : (S.state v.address).all (fun old => v.row.Beats old) = true) :
    S.record v = S.put v.address v.row := by
  unfold Tables.record Tables.upsert
  rw [if_pos h]
  unfold Tables.queueLoser
  rw [if_pos]
  simp [Tables.put]

theorem record_of_loses (hold : S.state v.address = some old) (h : ¬ v.row.Beats old) :
    S.record v = if old.eventID = v.row.eventID then S
      else { S with purge := enqueue S.purge v.row } := by
  unfold Tables.record Tables.upsert
  rw [if_neg (by simp [hold, h])]
  simp [Tables.queueLoser, hold]

section
variable (hc : Consistent (v :: vs))
include hc

theorem mem_put_purge (h : Tracks vs S) :
    w ∈ (S.put v.address v.row).purge ↔
      (w ∈ S.purge ∨ S.state v.address = some w) ∧ w.eventID ≠ v.row.eventID := by
  show w ∈ (List.filter _ _) ↔ _
  rw [mem_filter, decide_eq_true_eq]
  refine and_congr_left fun hne => ?_
  cases hold : S.state v.address with
  | none => simp
  | some old =>
    by_cases hsame : old.eventID = v.row.eventID
    · have hw : w ≠ old := fun hw => hne (hw ▸ hsame)
      simp [hsame, Ne.symm hw]
    · have hunique : ∀ row ∈ S.purge, row.eventID = old.eventID → row = old := by
        intro row hrow hid
        obtain ⟨A, hA, -⟩ := (h.queued row).mp hrow
        have heq := hc ⟨A, row⟩ (.tail _ hA) ⟨v.address, old⟩
          (.tail _ (h.current _ old hold).1) hid
        exact congrArg Version.row heq
      simp [hsame, mem_enqueue hunique, eq_comm]

theorem tracks_wins (h : Tracks vs S)
    (hwins : ∀ old, S.state v.address = some old → v.row.Beats old) :
    Tracks (v :: vs) (S.put v.address v.row) := by
  obtain ⟨A, new⟩ := v
  have hself : (S.put A new).state A = some new := Function.update_self _ _ _
  have hother : ∀ B, B ≠ A → (S.put A new).state B = S.state B :=
    fun B hB => Function.update_of_ne hB _ _
  refine ⟨fun B hnone w hmem => ?_, fun B w hcurrent => ?_, fun w => ?_⟩
  · by_cases hB : B = A
    · subst hB
      exact nomatch hself.symm.trans hnone
    · rw [hother B hB] at hnone
      rcases mem_cons.mp hmem with heq | hmem
      · exact hB (congrArg Version.address heq)
      · exact h.absent B hnone w hmem
  · by_cases hB : B = A
    · subst hB
      obtain rfl : new = w := some.inj (hself.symm.trans hcurrent)
      refine ⟨.head _, fun w' hw' hne => ?_⟩
      rcases mem_cons.mp hw' with heq | hw'
      · exact absurd (congrArg Version.row heq) hne
      · cases hold : S.state B with
        | none => exact absurd hw' (h.absent B hold w')
        | some old =>
          by_cases hw'old : w' = old
          · exact hw'old ▸ hwins old hold
          · exact (hwins old hold).trans ((h.current B old hold).2 w' hw' hw'old)
    · rw [hother B hB] at hcurrent
      obtain ⟨hmem, hbeats⟩ := h.current B w hcurrent
      refine ⟨.tail _ hmem, fun w' hw' hne => hbeats w' ?_ hne⟩
      rcases mem_cons.mp hw' with heq | hw'
      · exact absurd (congrArg Version.address heq) hB
      · exact hw'
  · rw [mem_put_purge hc h, h.queued]
    constructor
    · rintro ⟨⟨B, hmem, hne⟩ | hold, hid⟩
      · refine ⟨B, .tail _ hmem, fun hcurrent => ?_⟩
        by_cases hB : B = A
        · subst hB
          exact hid (congrArg Winner.eventID (some.inj (hcurrent.symm.trans hself)))
        · exact hne (hother B hB ▸ hcurrent)
      · refine ⟨A, .tail _ (h.current A w hold).1, fun hcurrent => ?_⟩
        exact hid (congrArg Winner.eventID (some.inj (hcurrent.symm.trans hself)))
    · rintro ⟨B, hmem, hne⟩
      rcases mem_cons.mp hmem with heq | hmem'
      · cases heq
        exact absurd hself hne
      · have hid : w.eventID ≠ new.eventID := by
          intro hid
          cases hc ⟨B, w⟩ hmem ⟨A, new⟩ (.head _) hid
          exact hne hself
        refine ⟨?_, hid⟩
        by_cases hB : B = A
        · subst hB
          by_cases hold : S.state B = some w
          · exact .inr hold
          · exact .inl ⟨B, hmem', hold⟩
        · exact .inl ⟨B, hmem', hother B hB ▸ hne⟩

theorem tracks_loses (h : Tracks vs S)
    (hold : S.state v.address = some old) (hlost : ¬ v.row.Beats old)
    (hne : old.eventID ≠ v.row.eventID) :
    Tracks (v :: vs) { S with purge := enqueue S.purge v.row } := by
  obtain ⟨A, new⟩ := v
  have hbeats : old.Beats new := beats_of_not hne hlost
  have hunique : ∀ row ∈ S.purge, row.eventID = new.eventID → row = new := by
    intro row hrow hid
    obtain ⟨B, hB, -⟩ := (h.queued row).mp hrow
    exact congrArg Version.row
      (hc ⟨B, row⟩ (.tail _ hB) ⟨A, new⟩ (.head _) hid)
  refine ⟨fun B hnone w hmem => ?_, fun B w hcurrent => ?_, fun w => ?_⟩
  · rcases mem_cons.mp hmem with heq | hmem
    · cases heq
      exact nomatch hold.symm.trans hnone
    · exact h.absent B hnone w hmem
  · obtain ⟨hmem, hall⟩ := h.current B w hcurrent
    refine ⟨.tail _ hmem, fun w' hw' hw'ne => ?_⟩
    rcases mem_cons.mp hw' with heq | hw'
    · cases heq
      obtain rfl : old = w := some.inj (hold.symm.trans hcurrent)
      exact hbeats
    · exact hall w' hw' hw'ne
  · show w ∈ enqueue S.purge new ↔ _
    rw [mem_enqueue hunique, h.queued]
    constructor
    · rintro (⟨B, hmem, hB⟩ | rfl)
      · exact ⟨B, .tail _ hmem, hB⟩
      · refine ⟨A, .head _, fun hcurrent => hne ?_⟩
        exact congrArg Winner.eventID (some.inj (hold.symm.trans hcurrent))
    · rintro ⟨B, hmem, hB⟩
      rcases mem_cons.mp hmem with heq | hmem
      · exact .inr (congrArg Version.row heq)
      · exact .inl ⟨B, hmem, hB⟩

end

theorem tracks_of_mem_iff {vs' : List Version} (h : Tracks vs S) (hmem : ∀ v, v ∈ vs' ↔ v ∈ vs) :
    Tracks vs' S where
  absent A hnone w := fun hw => h.absent A hnone w ((hmem _).mp hw)
  current A w hcurrent := by
    simp only [hmem]
    exact h.current A w hcurrent
  queued w := by
    simp only [hmem]
    exact h.queued w

theorem tracks_record (hc : Consistent (v :: vs)) (h : Tracks vs S) :
    Tracks (v :: vs) (S.record v) := by
  by_cases hwins : (S.state v.address).all (fun old => v.row.Beats old) = true
  · rw [record_of_wins hwins]
    refine tracks_wins hc h fun old hold => ?_
    simpa [hold] using hwins
  · obtain ⟨old, hold, hlost⟩ : ∃ old, S.state v.address = some old ∧ ¬ v.row.Beats old := by
      cases hold : S.state v.address with
      | none => simp [hold] at hwins
      | some old => exact ⟨old, rfl, by simpa [hold] using hwins⟩
    rw [record_of_loses hold hlost]
    split_ifs with hsame
    · have hmem := (h.current v.address old hold).1
      have heq := hc ⟨v.address, old⟩ (.tail _ hmem) v (.head _) hsame
      refine tracks_of_mem_iff h fun v' => ?_
      rw [mem_cons]
      exact ⟨fun hv' => hv'.elim (fun hv' => hv' ▸ heq ▸ hmem) fun hv' => hv', .inr⟩
    · exact tracks_loses hc h hold hlost hsame

section
variable (h : Tracks vs S)
include h

theorem Tracks.isSome_iff (A : Address) :
    (S.state A).isSome = true ↔ ∃ w, ⟨A, w⟩ ∈ vs := by
  cases hstate : S.state A with
  | none => exact iff_of_false nofun fun ⟨w, hw⟩ => h.absent A hstate w hw
  | some w => exact iff_of_true rfl ⟨w, (h.current A w hstate).1⟩

theorem Tracks.exists_current (hw : ⟨A, w⟩ ∈ vs) :
    ∃ w', S.state A = some w' :=
  isSome_iff_exists.mp ((h.isSome_iff A).mpr ⟨w, hw⟩)

theorem Tracks.eq_some_iff (A : Address) (w : Winner) :
    S.state A = some w ↔ ⟨A, w⟩ ∈ vs ∧ ∀ w', ⟨A, w'⟩ ∈ vs → w' ≠ w → w.Beats w' := by
  refine ⟨h.current A w, fun ⟨hw, hall⟩ => ?_⟩
  obtain ⟨w', hw'⟩ := h.exists_current hw
  by_cases hne : w' = w
  · exact hne ▸ hw'
  · obtain ⟨hmem, hbeats⟩ := h.current A w' hw'
    have hcycle := (hbeats w hw (Ne.symm hne)).trans (hall w' hmem hne)
    exact absurd hcycle (Winner.Beats.irrefl w')

theorem Tracks.mem_purge_iff (w : Winner) :
    w ∈ S.purge ↔ ∃ A, ⟨A, w⟩ ∈ vs ∧ ∃ w', ⟨A, w'⟩ ∈ vs ∧ w'.Beats w := by
  rw [h.queued]
  refine exists_congr fun A => and_congr_right fun hw => ?_
  obtain ⟨w', hw'⟩ := h.exists_current hw
  obtain ⟨hmem, hbeats⟩ := h.current A w' hw'
  rw [hw']
  constructor
  · intro hne
    exact ⟨w', hmem, hbeats w hw fun heq => hne (congrArg some heq.symm)⟩
  · rintro ⟨w'', hw'', hbeaten⟩ heq
    obtain rfl : w' = w := some.inj heq
    by_cases hsame : w'' = w'
    · subst hsame
      exact Winner.Beats.irrefl w'' hbeaten
    · exact Winner.Beats.irrefl w'' (hbeaten.trans (hbeats w'' hw'' hsame))

end
end NostrMash.Replaceable
