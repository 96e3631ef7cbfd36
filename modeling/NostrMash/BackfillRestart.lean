import NostrMash.BackfillRunner

/-!
# Running a completed backfill again

A relay whose checkpoint is completed should be left alone. The runner stores the row as running
before it looks at its status, so the status it looks at is never completed, and the relay is asked
for the page behind the cursor.
-/

namespace NostrMash.Backfill

/-- The run returns without a request or a message, and the checkpoint is completed at the cursor
it had. -/
def LeftAlone (cfg : Config) (relayURL : String) (a : Start) (turns : ℕ → Turn)
    (row : CheckpointRow) : Prop :=
  ∃ n w result, runAt cfg relayURL a turns n (some row) = (w, some result) ∧
    w.requests = [] ∧ w.handed = [] ∧
    ∃ row', w.stored = some row' ∧ row'.status = .completed ∧ row'.cursor = row.cursor

section
variable {cfg : Config} {relayURL : String} {a : Turn} {s : Loop}

theorem requests_markCompleted : (markCompleted relayURL a s).1.requests = s.requests := by
  unfold markCompleted
  split <;> rfl

theorem requests_finishPage (page : Page) :
    (finishPage cfg relayURL a page s).1.requests = s.requests := by
  simp only [finishPage]
  cases a.runningFault with
  | some err => rfl
  | none =>
    simp only
    split_ifs
    all_goals first | rfl | exact requests_markCompleted

theorem requests_turn (h : cfg.windowPassed s.cursor = false) :
    (turn cfg relayURL a s).1.requests = s.requests ++ [cfg.request s.cursor] := by
  simp only [turn, h, Bool.false_eq_true, if_false]
  cases a.fetched with
  | error err => rfl
  | ok page =>
    simp only
    split
    · rfl
    · exact requests_finishPage page

theorem requests_prefix_turn : s.requests <+: (turn cfg relayURL a s).1.requests := by
  cases h : cfg.windowPassed s.cursor with
  | true =>
    rw [turn, if_pos h, requests_markCompleted]
  | false =>
    rw [requests_turn h]
    exact List.prefix_append _ _

theorem requests_prefix_loop (turns : ℕ → Turn) (n : ℕ) :
    ∀ i s, s.requests <+: (loop cfg relayURL turns n i s).1.requests := by
  induction n with
  | zero => exact fun i s => List.prefix_rfl
  | succ n ih =>
    intro i s
    have hturn := @requests_prefix_turn cfg relayURL (turns i) s
    rw [loop]
    cases heq : turn cfg relayURL (turns i) s with
    | mk s' result =>
      rw [heq] at hturn
      cases result with
      | some result => exact hturn
      | none => exact hturn.trans (ih (i + 1) s')

theorem requests_loop_ne_nil {turns : ℕ → Turn} {n i : ℕ} {result : Except String Unit}
    (h : cfg.windowPassed s.cursor = false)
    (hresult : (loop cfg relayURL turns n i s).2 = some result) :
    (loop cfg relayURL turns n i s).1.requests ≠ [] := by
  cases n with
  | zero => cases hresult
  | succ n =>
    have hne : (turn cfg relayURL (turns i) s).1.requests ≠ [] := by
      rw [requests_turn h]
      exact List.append_ne_nil_of_right_ne_nil _ (List.cons_ne_nil _ _)
    rw [loop]
    cases heq : turn cfg relayURL (turns i) s with
    | mk s' result =>
      rw [heq] at hne
      cases result with
      | some result => exact hne
      | none =>
        intro hnil
        have hle := @requests_prefix_loop cfg relayURL turns n (i + 1) s'
        exact hne (List.prefix_nil.mp (hnil ▸ hle))

theorem loop_of_windowPassed {turns : ℕ → Turn} {n i : ℕ} (h : cfg.windowPassed s.cursor = true) :
    loop cfg relayURL turns (n + 1) i s = markCompleted relayURL (turns i) s := by
  rw [loop, turn, if_pos h]
  cases hfault : (turns i).lastFault with
  | none => simp [markCompleted, hfault]
  | some err => simp [markCompleted, hfault]

end

section
variable {cfg : Config} {relayURL : String} {a : Start} {turns : ℕ → Turn} {n : ℕ}
  {row : CheckpointRow}

theorem runAt_of_fault (h : a.ctxErr ≠ none ∨ a.getFault ≠ none ∨ a.setFault ≠ none) :
    ∃ err, runAt cfg relayURL a turns n (some row) =
      ({ stored := some row, requests := [], handed := [] }, some (.error err)) := by
  simp only [runAt, runRelay, ensureRunningRow]
  cases hctx : a.ctxErr with
  | some err => exact ⟨err, rfl⟩
  | none =>
    cases hget : a.getFault with
    | some err => exact ⟨_, rfl⟩
    | none =>
      cases hset : a.setFault with
      | some err => exact ⟨_, rfl⟩
      | none => simp [hctx, hget, hset] at h

theorem runAt_of_started (h : ¬(a.ctxErr ≠ none ∨ a.getFault ≠ none ∨ a.setFault ≠ none)) :
    runAt cfg relayURL a turns n (some row) =
      ((loop cfg relayURL turns n 0
          (Loop.start { row with status := .running, updatedAt := a.now })).1.toWorld,
        (loop cfg relayURL turns n 0
          (Loop.start { row with status := .running, updatedAt := a.now })).2) := by
  rw [not_or, not_or, not_not, not_not, not_not] at h
  simp only [runAt, runRelay, ensureRunningRow, h.1, h.2.1, h.2.2, reduceCtorEq, if_false]

end

/-- A completed relay is left alone exactly when the run ends before its first turn, or the first
turn is behind the window, is stored, and the cursor was written as the code writes it. -/
theorem leftAlone_iff (cfg : Config) (relayURL : String) (a : Start) (turns : ℕ → Turn)
    (row : CheckpointRow) (hdone : row.status = .completed) : LeftAlone cfg relayURL a turns row ↔
      (a.ctxErr ≠ none ∨ a.getFault ≠ none ∨ a.setFault ≠ none) ∨
        (cfg.windowPassed (parseCursorInt64 row.cursor) = true ∧ (turns 0).lastFault = none ∧
          formatCursor (parseCursorInt64 row.cursor) = row.cursor) := by
  by_cases hfault : a.ctxErr ≠ none ∨ a.getFault ≠ none ∨ a.setFault ≠ none
  · obtain ⟨err, hrun⟩ := runAt_of_fault hfault
    exact iff_of_true ⟨0, _, _, hrun, rfl, rfl, row, rfl, hdone, rfl⟩ (.inl hfault)
  · rw [or_iff_right hfault]
    constructor
    · rintro ⟨n, w, result, hrun, hreq, -, row', hstored, hstatus, hcursor⟩
      rw [runAt_of_started hfault, Prod.mk.injEq] at hrun
      obtain ⟨rfl, hresult⟩ := hrun
      cases hpassed : cfg.windowPassed (parseCursorInt64 row.cursor) with
      | false => exact absurd hreq (requests_loop_ne_nil hpassed hresult)
      | true =>
        cases n with
        | zero => cases hresult
        | succ n =>
          rw [loop_of_windowPassed hpassed] at hstored
          cases hlast : (turns 0).lastFault with
          | some err =>
            simp only [markCompleted, hlast, Loop.start, Option.some.injEq] at hstored
            rw [← hstored] at hstatus
            cases hstatus
          | none =>
            simp only [markCompleted, hlast, Loop.start, Option.some.injEq] at hstored
            exact ⟨rfl, rfl, (congrArg CheckpointRow.cursor hstored).trans hcursor⟩
    · rintro ⟨hpassed, hlast, hcanonical⟩
      have hloop : loop cfg relayURL turns 1 0
          (Loop.start { row with status := .running, updatedAt := a.now }) = _ :=
        loop_of_windowPassed hpassed
      simp only [markCompleted, hlast] at hloop
      have hrun := @runAt_of_started cfg relayURL a turns 1 row hfault
      rw [hloop] at hrun
      exact ⟨1, _, _, hrun, rfl, rfl, _, rfl, rfl, hcanonical⟩

def nothingNew : Turn where
  now := 1
  fetched := .ok ⟨[], true⟩
  messageFault := none
  runningFault := none
  lastFault := none

def noFault : Start := { now := 1, ctxErr := none, getFault := none, setFault := none }

def completedAtFive : CheckpointRow :=
  { since := none, untilTime := none, cursor := some "5", eoseSeenAt := some 0,
    status := .completed, updatedAt := 0 }

def windowTo (u : ℤ) : Config where
  kinds := [1]
  since := none
  untilTime := some u
  pageLimit := 500
  emptyPageMax := 2
  kinds_ne_nil := notes_ne_nil
  pageLimit_pos := Nat.succ_pos 499
  emptyPageMax_pos := Nat.two_pos
  since_le_until := by simp

theorem completedAtFive_leftAlone :
    LeftAlone (windowTo 5) "wss://r" noFault (fun _ => nothingNew) completedAtFive :=
  (leftAlone_iff _ _ _ _ _ rfl).mpr (.inr ⟨by decide, rfl, by decide⟩)

/-- With a later end of the window the completed relay is asked again. -/
theorem completedAtFive_not_leftAlone :
    ¬LeftAlone (windowTo 9) "wss://r" noFault (fun _ => nothingNew) completedAtFive := by
  rintro ⟨n, w, result, hrun, hreq, -⟩
  rw [runAt_of_started (by decide), Prod.mk.injEq] at hrun
  obtain ⟨rfl, hresult⟩ := hrun
  exact requests_loop_ne_nil (by decide) hresult hreq

end NostrMash.Backfill
