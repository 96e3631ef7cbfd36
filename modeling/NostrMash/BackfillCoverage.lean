import NostrMash.Backfill

/-!
# What a completed backfill has handed over

The first request of an attempt covers the whole window, but a relay fills its limited answer from
the newest event on, and the cursor moves to the newest event at once. Older events are then below
every later request.
-/

namespace NostrMash.Backfill
open Machine List

def Config.window (cfg : Config) (R : Relay) : List RelayEvent := R.matching (cfg.request none)

def HandedAll (cfg : Config) (R : Relay) (s : State) : Prop := ∀ e ∈ cfg.window R, e ∈ s.handed

section
variable {cfg : Config} {R : Relay} {a : Action} {W : List RelayEvent} {s : State}

theorem handed_of_step {t : State} (hg : Answered cfg R s a) (h : step cfg s a = some t) :
    ∀ e ∈ t.handed, e ∈ s.handed ∨ ∃ cursor, e ∈ R.answer (cfg.request cursor) := by
  intro e he
  cases a with
  | start now =>
    obtain ⟨-, rfl⟩ := step_start h
    exact .inl he
  | finish now =>
    obtain ⟨r, -, -, rfl⟩ := step_finish h
    exact .inl he
  | page now page saved =>
    obtain ⟨r, hr, rfl⟩ := step_page h
    rw [handed_handlePage, hg r hr] at he
    exact (mem_append.mp he).imp id fun he => ⟨r.cursor, he⟩
  | interrupt now page count marked =>
    obtain ⟨r, hr, rfl⟩ := step_interrupt h
    rw [abandon, hg r hr] at he
    exact (mem_append.mp he).imp id fun he => ⟨r.cursor, mem_of_mem_take he⟩

/-- A cursor, and a completed checkpoint, are there only after the whole window was handed over. -/
structure Covered (W : List RelayEvent) (s : State) : Prop where
  stored : ∀ c ∈ s.stored, c.cursor ≠ none ∨ c.status = .completed → W ⊆ s.handed
  current : ∀ r ∈ s.current, r.cursor ≠ none → W ⊆ s.handed

theorem not_windowPassed_none : cfg.windowPassed none = false := by
  cases hu : cfg.untilTime with
  | none => simp [Config.windowPassed, hu]
  | some u =>
    cases hs : cfg.since with
    | none => simp [Config.windowPassed, Config.nextSince, hu, hs]
    | some s =>
      have hle := cfg.since_le_until s hs u hu
      simp only [Config.windowPassed, Config.nextSince, hu, hs, Option.any_some,
        decide_eq_false_iff_not]
      omega

theorem covered_start (hs : Covered W s) (now : ℤ)
    (hne : (ensureRunningCheckpoint cfg now s.stored).cursor ≠ none) : W ⊆ s.handed := by
  cases hstored : s.stored with
  | none => simp [hstored, ensureRunningCheckpoint, Config.newCheckpoint] at hne
  | some c =>
    simp only [hstored, ensureRunningCheckpoint] at hne
    exact hs.stored c hstored (.inl hne)

theorem status_ensureRunningCheckpoint (now : ℤ) (stored : Option Checkpoint) :
    (ensureRunningCheckpoint cfg now stored).status = .running := by
  cases stored with
  | none => rfl
  | some c => rfl

theorem covered_of_subset (hW : W ⊆ s.handed) : Covered W s :=
  ⟨fun _ _ _ => hW, fun _ _ _ => hW⟩

theorem covered_step (hfit : (cfg.window R).length ≤ cfg.pageLimit) {t : State}
    (hs : Covered (cfg.window R) s) (hg : Answered cfg R s a) (h : step cfg s a = some t) :
    Covered (cfg.window R) t := by
  cases a with
  | start now =>
    obtain ⟨-, rfl⟩ := step_start h
    constructor
    · rintro c ⟨⟩ (hne | hdone)
      · exact covered_start (s := s) hs now hne
      · rw [status_ensureRunningCheckpoint] at hdone
        cases hdone
    · rintro r ⟨⟩ hne
      exact covered_start (s := s) hs now hne
  | finish now =>
    obtain ⟨r, hr, hp, rfl⟩ := step_finish h
    apply covered_of_subset
    cases hcur : r.cursor with
    | none =>
      rw [hcur, not_windowPassed_none] at hp
      cases hp
    | some c => exact hs.current r hr (by simp [hcur])
  | page now page saved =>
    obtain ⟨r, hr, rfl⟩ := step_page h
    apply covered_of_subset
    rw [handed_handlePage]
    cases hcur : r.cursor with
    | none =>
      have hpage : page.events = cfg.window R := by
        rw [hg r hr, hcur]
        exact take_of_length_le hfit
      rw [hpage]
      exact subset_append_right _ _
    | some c => exact fun e he => mem_append_left _ (hs.current r hr (by simp [hcur]) he)
  | interrupt now page count marked =>
    obtain ⟨r, hr, rfl⟩ := step_interrupt h
    refine ⟨fun c hc hor e he => mem_append_left _ ?_, fun _ hr' => absurd hr' (by simp [abandon])⟩
    cases marked with
    | true =>
      cases hc
      exact hs.current r hr (hor.resolve_right (by simp [Checkpoint.mark])) he
    | false => exact hs.stored c hc hor he

/-- When a backfill ends completed, the events of the window have all been handed over exactly when
they fit into one page. -/
theorem handed_all_iff_one_page (cfg : Config) (R : Relay) (as : List Action) (t : State)
    (hg : Guarded (step cfg) (Answered cfg R) State.init as)
    (hr : run (step cfg) State.init as = some t) (hdone : t.Completed) :
    HandedAll cfg R t ↔ (cfg.window R).length ≤ cfg.pageLimit := by
  constructor
  · intro hall
    by_contra hover
    obtain ⟨x, hx, hnever⟩ := Relay.exists_never_answered (f := cfg.request none)
      (Nat.lt_of_not_le hover)
    have hinv : x ∉ t.handed := by
      refine run_invariant (I := fun s => x ∉ s.handed) ?_ (by simp [State.init]) hg hr
      intro s a u hs hga hsu hxu
      rcases handed_of_step hga hsu x hxu with h | ⟨cursor, h⟩
      · exact hs h
      · exact hnever (cfg.request cursor) rfl rfl rfl h
    exact hinv (hall x hx)
  · intro hfit
    have hinv : Covered (cfg.window R) t := by
      refine run_invariant (fun s a u hs hga hsu => covered_step hfit hs hga hsu) ?_ hg hr
      constructor
      · exact fun _ hc => absurd hc (by simp [State.init])
      · exact fun _ hc => absurd hc (by simp [State.init])
    obtain ⟨c, hc, hstatus⟩ := hdone
    exact hinv.stored c hc (.inr hstatus)

end

def threeNotes : Relay where
  events := [⟨"c", 1, 300⟩, ⟨"b", 1, 200⟩, ⟨"a", 1, 100⟩]
  nodup := by decide
  newestFirst := by decide

def pagesOf (n : ℕ) : Config where
  kinds := [1]
  since := some 0
  untilTime := none
  pageLimit := n + 1
  emptyPageMax := 2
  kinds_ne_nil := notes_ne_nil
  pageLimit_pos := Nat.succ_pos n
  emptyPageMax_pos := Nat.two_pos
  since_le_until := by simp

def attemptOfTwo : List Action :=
  [.start 1000, .page 1001 ⟨[⟨"c", 1, 300⟩, ⟨"b", 1, 200⟩], true⟩ true, .page 1002 ⟨[], true⟩ true]

def attemptOfFive : List Action :=
  [.start 1000, .page 1001 ⟨[⟨"c", 1, 300⟩, ⟨"b", 1, 200⟩, ⟨"a", 1, 100⟩], true⟩ true,
    .page 1002 ⟨[], true⟩ true]

def stateAfter (page : List RelayEvent) : State where
  stored := some ⟨some 0, none, some 300, some 1002, .completed, 1002⟩
  current := none
  handed := page

/-- The oldest note is lost although the checkpoint is completed. -/
theorem oldest_note_lost :
    ∃ as t, Guarded (step (pagesOf 1)) (Answered (pagesOf 1) threeNotes) State.init as ∧
      run (step (pagesOf 1)) State.init as = some t ∧ t.Completed ∧
      ¬ HandedAll (pagesOf 1) threeNotes t := by
  refine ⟨attemptOfTwo, stateAfter [⟨"c", 1, 300⟩, ⟨"b", 1, 200⟩], by decide,
    by decide, ⟨_, rfl, rfl⟩, fun h => ?_⟩
  exact nomatch (h ⟨"a", 1, 100⟩ (by decide))

theorem three_notes_handed : HandedAll (pagesOf 4) threeNotes
    (stateAfter [⟨"c", 1, 300⟩, ⟨"b", 1, 200⟩, ⟨"a", 1, 100⟩]) :=
  (handed_all_iff_one_page (pagesOf 4) threeNotes attemptOfFive
    (stateAfter [⟨"c", 1, 300⟩, ⟨"b", 1, 200⟩, ⟨"a", 1, 100⟩]) (by decide)
    (by decide) ⟨_, rfl, rfl⟩).mpr (by decide)

end NostrMash.Backfill
