import NostrMash.LatestOrder
import NostrMash.SearchTrust

/-!
# Ranked pages

What `rankNoteEvents` makes of the rows of a page whose notes are all different. It shows the notes
that lie in the window and contain the quoted phrases, in the order of the ranker.
-/

namespace NostrMash.Search
open List

def noteKey (n : RawNote) : String × String := ((eventIdentity n).id, (eventIdentity n).pubkey)

def NoteScoreInput.key (note : NoteScoreInput) : String × String := (note.id, note.pubkey)

theorem noteAuthor_eq : noteAuthor = (fun k : String × String => authorKey k.2 k.1) ∘ noteKey := rfl

theorem NoteScoreInput.author_eq : NoteScoreInput.author =
      (fun k : String × String => authorKey k.2 k.1) ∘ NoteScoreInput.key := rfl

theorem perm_of_map_perm {α β : Type} {f : α → β} {A B l : List α} (hl : (l.map f).Nodup)
    (hA : A ⊆ l) (hB : B.Sublist l) (h : (A.map f).Perm (B.map f)) : A.Perm B := by
  have hBnd : (B.map f).Nodup := (hB.map f).nodup hl
  have hAnd : (A.map f).Nodup := h.nodup_iff.mpr hBnd
  refine (perm_ext_iff_of_nodup hAnd.of_map hBnd.of_map).mpr
    fun a => ⟨fun ha => ?_, fun ha => ?_⟩
  · obtain ⟨b, hb, hab⟩ := mem_map.mp (h.subset (mem_map_of_mem ha))
    exact inj_on_of_nodup_map hl (hB.subset hb) (hA ha) hab ▸ hb
  · obtain ⟨b, hb, hab⟩ := mem_map.mp (h.symm.subset (mem_map_of_mem ha))
    exact inj_on_of_nodup_map hl (hA hb) (hB.subset ha) hab ▸ hb

theorem map_noteKey_reorderNotes {parsed : List ParsedNote} {ranked : List NoteScoreInput}
    (hraw : ∀ p ∈ parsed, noteKey p.raw = p.input.key) (hnd : (ranked.map NoteScoreInput.key).Nodup)
    (hfind : ∀ note ∈ ranked, ∃ p ∈ parsed, p.input.key = note.key) :
    (reorderNotes parsed ranked).map noteKey = ranked.map NoteScoreInput.key := by
  induction ranked generalizing parsed with
  | nil => rfl
  | cons note ranked ih =>
    have hkey : ∀ p : ParsedNote, (p.input.id = note.id ∧ p.input.pubkey = note.pubkey) ↔
        p.input.key = note.key := fun p => Prod.mk_inj.symm
    obtain ⟨hnew, hnd⟩ := nodup_cons.mp hnd
    rw [reorderNotes]
    split
    · next hnone =>
      obtain ⟨p, hp, hpk⟩ := hfind note (.head _)
      exact absurd ((hkey p).mpr hpk) (by simpa using List.find?_eq_none.mp hnone p hp)
    · next p hp =>
      have hpk := (hkey p).mp (by simpa using List.find?_some hp)
      rw [map_cons, map_cons, hraw p (List.mem_of_find?_eq_some hp), hpk, ih]
      · exact fun q hq => hraw q (eraseP_subset hq)
      · exact hnd
      · intro other hother
        obtain ⟨q, hq, hqk⟩ := hfind other (mem_cons_of_mem note hother)
        refine ⟨q, (mem_eraseP_of_neg ?_).mpr hq, hqk⟩
        simp only [decide_eq_true_eq, hkey, hqk]
        intro heq
        exact hnew (heq ▸ mem_map_of_mem hother)

def inWindow (now : ℤ) (window : Option ℤ) (n : RawNote) : Bool :=
  window.all fun w => w ≤ 0 || ¬ ((eventIdentity n).createdAt > 0 ∧
    (eventIdentity n).createdAt < unixTime (now - w))

theorem filterNotesToWindow_eq (now : ℤ) (rows : List RawNote) (window : Option ℤ) :
    filterNotesToWindow now rows window = rows.filter (inWindow now window) := by
  cases window with
  | none => exact (filter_eq_self.mpr fun _ _ => rfl).symm
  | some w =>
    by_cases hw : w ≤ 0
    · rw [filterNotesToWindow, if_pos hw, eq_comm, filter_eq_self]
      intro n _
      simp [inWindow, Option.all, hw]
    · rw [filterNotesToWindow, if_neg hw]
      apply filter_congr
      intro n _
      simp [inWindow, Option.all, hw]

namespace Service

variable (S : Service) (C : Contents)

def noteInputs (query : String) (events : List RawNote) : List NoteScoreInput :=
  let inputs := (parseNoteInputs events).map fun n => withEngineScore C n.input
  if notesHaveFeatures inputs ∨ (S.rules.parseSearchQuery query).phrases ≠ [] then
    S.attachNoteSignals C inputs
  else inputs

def keepsNote (query : String) (window : Option ℤ) (n : RawNote) : Bool :=
  inWindow C.now window n &&
    S.rules.contentMatchesPhrases (eventIdentity n).content (S.rules.parseSearchQuery query).phrases

variable {S C}

def noteInputFacts (note : NoteScoreInput) : (String × String) × ℤ × String :=
  (note.key, note.features.createdAt, note.features.content)

def noteFacts (n : RawNote) : (String × String) × ℤ × String :=
  (noteKey n, (eventIdentity n).createdAt, (eventIdentity n).content)

theorem noteInputFacts_withEngineScore (note : NoteScoreInput) :
    noteInputFacts (withEngineScore C note) = noteInputFacts note := by
  unfold withEngineScore
  split_ifs <;> rfl

theorem noteInputFacts_signals (note : NoteScoreInput) :
    noteInputFacts (S.attachProfileSignal C (S.attachEventCounts C note)) =
      noteInputFacts note := by
  have hcounts : noteInputFacts (S.attachEventCounts C note) = noteInputFacts note := by
    unfold attachEventCounts
    split
    · rfl
    · split <;> rfl
  rw [← hcounts]
  generalize S.attachEventCounts C note = counted
  unfold attachProfileSignal
  split
  · rfl
  · split <;> rfl

theorem map_facts_noteInputs (query : String) (events : List RawNote) :
    (S.noteInputs C query events).map noteInputFacts = events.map noteFacts := by
  have hparsed : ((parseNoteInputs events).map fun n => withEngineScore C n.input).map
      noteInputFacts = events.map noteFacts := by
    rw [parseNoteInputs, map_map, map_map]
    apply map_congr_left
    intro n _
    exact noteInputFacts_withEngineScore _
  rw [noteInputs]
  split_ifs
  · rw [attachNoteSignals, map_map, ← hparsed]
    apply map_congr_left
    intro note _
    exact noteInputFacts_signals note
  · exact hparsed

theorem map_key_noteInputs (query : String) (events : List RawNote) :
    (S.noteInputs C query events).map NoteScoreInput.key = events.map noteKey := by
  have h := congrArg (List.map Prod.fst) (map_facts_noteInputs (S := S) (C := C) query events)
  rw [map_map, map_map] at h
  exact h

theorem noteInputs_pairwise {query : String} {events : List RawNote}
    (h : events.Pairwise fun a b => (eventIdentity b).createdAt ≤ (eventIdentity a).createdAt) :
    (S.noteInputs C query events).Pairwise fun a b =>
      b.features.createdAt ≤ a.features.createdAt := by
  have hfacts : (events.map noteFacts).Pairwise fun a b => b.2.1 ≤ a.2.1 :=
    pairwise_map.mpr h
  rw [← map_facts_noteInputs (S := S) (C := C) query events] at hfacts
  exact pairwise_map.mp hfacts

theorem map_key_filter_noteInputs (query : String) (events : List RawNote) (q : String → Bool) :
    ((S.noteInputs C query events).filter fun n => q n.features.content).map NoteScoreInput.key =
      (events.filter fun n => q (eventIdentity n).content).map noteKey := by
  have h := congrArg (fun l => (l.filter fun f : (String × String) × ℤ × String => q f.2.2).map
    Prod.fst) (map_facts_noteInputs (S := S) (C := C) query events)
  simp only [filter_map, map_map] at h
  exact h

variable {p : NotesSearchParams} {events : List RawNote}

theorem rankNoteEvents_eq (events : List RawNote) : S.rankNoteEvents C p events =
      let shown := filterNotesToWindow C.now events p.window
      let inputs := (parseNoteInputs shown).map fun n => withEngineScore C n.input
      if inputs.length > 1 ∧ notesHaveFeatures inputs = false ∧
          (S.rules.parseSearchQuery p.query).phrases = [] then shown
      else reorderNotes (parseNoteInputs shown)
        (rankNotes S.rules p.query (S.noteInputs C p.query shown) p.sort C.now) := rfl

theorem rankNoteEvents_congr {q : NotesSearchParams} (hquery : q.query = p.query)
    (hwindow : q.window = p.window) (hsort : q.sort = p.sort) (events : List RawNote) :
    S.rankNoteEvents C q events = S.rankNoteEvents C p events := by
  rw [rankNoteEvents_eq, rankNoteEvents_eq, hquery, hwindow, hsort]

theorem map_noteKey_rankNoteEvents (hnd : (events.map noteKey).Nodup) :
    (S.rankNoteEvents C p events).map noteKey = (rankNotes S.rules p.query (S.noteInputs C p.query
        (filterNotesToWindow C.now events p.window)) p.sort C.now).map NoteScoreInput.key := by
  have hnd' : ((filterNotesToWindow C.now events p.window).map noteKey).Nodup := by
    rw [filterNotesToWindow_eq]
    exact (filter_sublist.map noteKey).nodup hnd
  rw [rankNoteEvents_eq]
  generalize filterNotesToWindow C.now events p.window = shown at hnd' ⊢
  dsimp only
  split_ifs with hplain
  · have hinputs : S.noteInputs C p.query shown =
        (parseNoteInputs shown).map fun n => withEngineScore C n.input :=
      if_neg (by simp [hplain.2])
    rw [hinputs, rankNotes_featureless hplain.2.1 hplain.2.2, ← hinputs, map_key_noteInputs]
  · have hperm := (rankNotes_perm (R := S.rules) p.query (S.noteInputs C p.query shown) p.sort
      C.now).map NoteScoreInput.key
    have hsub : (phraseMatches S.rules p.query (S.noteInputs C p.query shown)).map
        NoteScoreInput.key ⊆ shown.map noteKey := by
      rw [← map_key_noteInputs (S := S) (C := C) p.query shown]
      exact map_subset _ (filter_subset_self _)
    apply map_noteKey_reorderNotes
    · intro q hq
      obtain ⟨n, -, rfl⟩ := mem_map.mp hq
      rfl
    · rw [hperm.nodup_iff]
      rw [← map_key_noteInputs (S := S) (C := C) p.query shown] at hnd'
      exact (filter_sublist.map _).nodup hnd'
    · intro note hnote
      obtain ⟨n, hn, hkey⟩ := mem_map.mp
        (hsub (hperm.subset (mem_map_of_mem hnote)))
      obtain ⟨q, hq, rfl⟩ : ∃ q ∈ parseNoteInputs shown, q.raw = n :=
        ⟨_, mem_map_of_mem hn, rfl⟩
      refine ⟨q, hq, ?_⟩
      obtain ⟨n, -, rfl⟩ := mem_map.mp hq
      exact hkey

theorem rankNoteEvents_perm (hnd : (events.map noteKey).Nodup) :
    (S.rankNoteEvents C p events).Perm (events.filter (S.keepsNote C p.query p.window)) := by
  apply perm_of_map_perm hnd (rankNoteEvents_subset events) filter_sublist
  rw [map_noteKey_rankNoteEvents hnd]
  refine ((rankNotes_perm _ _ _ _).map _).trans ?_
  have hphrases := map_key_filter_noteInputs (S := S) (C := C) p.query
    (filterNotesToWindow C.now events p.window) fun content =>
      S.rules.contentMatchesPhrases content (S.rules.parseSearchQuery p.query).phrases
  rw [phraseMatches, hphrases, filterNotesToWindow_eq, filter_filter]
  have hkeeps : ∀ n ∈ events, (S.rules.contentMatchesPhrases (eventIdentity n).content
      (S.rules.parseSearchQuery p.query).phrases && inWindow C.now p.window n) =
        S.keepsNote C p.query p.window n := fun n _ => Bool.and_comm _ _
  rw [filter_congr hkeeps]

end Service
end NostrMash.Search
