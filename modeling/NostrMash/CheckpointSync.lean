import NostrMash.CheckpointTracker
import Mathlib.Order.Bounds.Basic

/-!
# Progress of the checkpoint tracker

The checkpoint in memory carries the largest `created_at` marked so far. While the steps of a run
are orderly, the buffer stays consistent, so a checkpoint that is not marked dirty is the stored
one and `FlushAll` stores the largest mark.
-/

namespace NostrMash.Live
open WriteBehind Machine Option

section

def sinceValues (row : Option IngestCheckpoint) (marks : List ℤ) : Set ℤ :=
  {v | v ∈ row.bind (·.since) ∨ ∃ x ∈ marks, v = max x 0}

def IsLargestMark (row : Option IngestCheckpoint) (marks : List ℤ) : Option ℤ → Prop
  | none => sinceValues row marks = ∅
  | some v => IsGreatest (sinceValues row marks) v

variable {τ : Type*}

/-- With no flush under way, a checkpoint that is not dirty is the stored one. -/
def Synced (s : Tracker τ) : Prop :=
  (∀ t, s.buffer.flight t = .none) → ∀ c ∈ s.buffer.cell, c.dirty = false →
    s.buffer.stored = some c.value

instance [Fintype τ] (s : Tracker τ) : Decidable (Synced s) :=
  inferInstanceAs (Decidable ((∀ _, _) → ∀ _ ∈ s.buffer.cell, _))

/-- The store mirrors the memory, and `FlushAll` leaves the largest mark in it. -/
def KeepsProgress [DecidableEq τ] (flushEvery : ℤ) (row : Option IngestCheckpoint)
    (s : Tracker τ) : Prop :=
  Synced s ∧ ∀ t now, s.Idle t → s.clock ≤ now →
    ∃ u, run (step flushEvery) s (s.flushAll t now) = some u ∧
      IsLargestMark row s.marked (u.buffer.stored.bind (·.since))

end

section
variable {row : Option IngestCheckpoint} {marks : List ℤ}

theorem raiseSince_none (c : ℤ) : raiseSince none c = max c 0 := by
  simp only [raiseSince]
  split_ifs with h
  · omega
  · omega

theorem raiseSince_some (s c : ℤ) : raiseSince (some s) c = max (max c 0) s := by
  simp only [raiseSince]
  split_ifs
  all_goals omega

theorem sinceValues_cons (c : ℤ) :
    sinceValues row (c :: marks) = insert (max c 0) (sinceValues row marks) := by
  ext v
  simp only [sinceValues, Set.mem_ofPred_eq, Set.mem_insert_iff, List.mem_cons, exists_eq_or_imp]
  tauto

theorem isLargestMark_cons {since : Option ℤ} (h : IsLargestMark row marks since) (c : ℤ) :
    IsLargestMark row (c :: marks) (some (raiseSince since c)) := by
  simp only [IsLargestMark, sinceValues_cons]
  cases since with
  | none =>
    have hempty : sinceValues row marks = ∅ := h
    rw [hempty, raiseSince_none, insert_empty_eq]
    exact isGreatest_singleton
  | some s =>
    rw [raiseSince_some]
    exact IsGreatest.insert _ h

theorem isLargestMark_nil (row : Option IngestCheckpoint) :
    IsLargestMark row [] (row.bind (·.since)) := by
  cases h : row.bind (·.since) with
  | none => simp [IsLargestMark, sinceValues, h]
  | some v => simp [IsLargestMark, sinceValues, h]

end

variable {loads : Bool}

section
variable {τ : Type*} [DecidableEq τ] {flushEvery at' : ℤ} {s u : Tracker τ} {t : τ} {now : ℤ}
  {call : Call} {f : IngestCheckpoint → IngestCheckpoint} {created : List ℤ}

inductive Updates : Call → ℤ → (IngestCheckpoint → IngestCheckpoint) → List ℤ → Prop
  | mark (at' : ℤ) (eventID : String) (createdAt : ℤ) :
      Updates (.marking at' eventID createdAt) at'
        (IngestCheckpoint.markEventProcessed at' eventID createdAt) [createdAt]
  | status (at' : ℤ) (state : RelayState) (lastError : String) :
      Updates (.settingStatus at' state lastError) at'
        (IngestCheckpoint.setRelayStatus at' state lastError) []

theorem step_update (h : step flushEvery s (.update t loads now) = some u) :
    ∃ at' f created call, Updates (s.call t) at' f created ∧
      u = Tracker.goto
        { s with buffer := s.buffer.update (s.base loads now) f, marked := created ++ s.marked }
        t call now := by
  simp only [step] at h
  split at h
  · next at' eventID createdAt hcall =>
    split_ifs at h
    all_goals exact ⟨at', _, [createdAt], _, hcall ▸ .mark at' eventID createdAt, (some.inj h).symm⟩
  · next at' state lastError hcall =>
    split_ifs at h
    exact ⟨at', _, [], _, hcall ▸ .status at' state lastError, (some.inj h).symm⟩
  · cases h

theorem step_snapshot (h : step flushEvery s (.snapshot t loads now) = some u) :
    ∃ B, u = Tracker.goto { s with buffer := B } t .idle now ∧
      (B = s.buffer.openWith (s.base loads now) ∨ B = (s.buffer.openWith (s.base loads now)).goto t
          (.taken (s.buffer.opened (s.base loads now)).value
            (s.buffer.opened (s.base loads now)).revision)) := by
  simp only [step] at h
  split at h
  · split_ifs at h
    · exact ⟨_, (some.inj h).symm, .inr rfl⟩
    · exact ⟨_, (some.inj h).symm, .inl rfl⟩
  · cases h

theorem step_upsert {succeeds : Bool} (h : step flushEvery s (.upsert t succeeds) = some u) :
    ∃ snapshot revision, s.buffer.flight t = .taken snapshot revision ∧
      u = { s with buffer :=
        if succeeds then s.buffer.write t snapshot revision else s.buffer.goto t .none } := by
  simp only [step] at h
  split at h
  · next snapshot revision hf =>
    refine ⟨snapshot, revision, hf, ?_⟩
    split_ifs at h ⊢
    all_goals exact (some.inj h).symm
  · cases h

theorem step_finish {now : ℤ} (h : step flushEvery s (.finish t now) = some u) :
    ∃ snapshot revision, s.buffer.flight t = .written snapshot revision ∧ u = { s with
        buffer := s.buffer.finish t fun c => ¬ c.updatedAt > snapshot.updatedAt
        lastFlush := some now
        clock := now } := by
  simp only [step] at h
  split at h
  · next snapshot revision hf =>
    split_ifs at h
    exact ⟨snapshot, revision, hf, (some.inj h).symm⟩
  · cases h

theorem updatedAt_of_updates (h : Updates call at' f created) (c : IngestCheckpoint) :
    (f c).updatedAt = at' := by
  cases h with
  | mark at' eventID createdAt => rfl
  | status at' state lastError => rfl

omit [DecidableEq τ] in
theorem stampedAfter_of_orderly (hg : Orderly s (.update t loads now))
    (h : Updates (s.call t) at' f created) (c : IngestCheckpoint) :
    StampedAfter IngestCheckpoint.updatedAt s.buffer (f c) := by
  have hlater : ∀ v, ∀ d ∈ inFlight (s.buffer.flight v), d.updatedAt < at' := by
    have hg := hg.2
    generalize s.call t = call at hg h
    cases h with
    | mark at' eventID createdAt => exact hg
    | status at' state lastError => exact hg
  intro v
  rw [updatedAt_of_updates h c]
  have hv := hlater v
  cases hf : s.buffer.flight v with
  | none => trivial
  | taken snapshot revision => exact hv snapshot (by rw [hf]; rfl)
  | written snapshot revision => exact hv snapshot (by rw [hf]; rfl)

theorem isLargestMark_of_updates {row : Option IngestCheckpoint} {marks : List ℤ}
    {c : IngestCheckpoint} (h : Updates call at' f created) (hc : IsLargestMark row marks c.since) :
    IsLargestMark row (created ++ marks) (f c).since := by
  cases h with
  | mark at' eventID createdAt => exact isLargestMark_cons hc createdAt
  | status at' state lastError => exact hc

end

section
variable {τ : Type*}

structure Progress (row : Option IngestCheckpoint) (s : Tracker τ) : Prop where
  consistent : Consistent IngestCheckpoint.updatedAt s.buffer
  largest : ∀ c ∈ s.buffer.cell, IsLargestMark row s.marked c.value.since
  untouched : s.buffer.cell = none → s.marked = [] ∧ s.buffer.stored = row

variable {flushEvery : ℤ} {row : Option IngestCheckpoint} {s u : Tracker τ}

theorem progress_init (row : Option IngestCheckpoint) (clock : ℤ) :
    Progress row (Tracker.init row clock : Tracker τ) :=
  ⟨consistent_start row, fun _ hc => absurd hc (by simp [Tracker.init, Buffer.start]),
    fun _ => ⟨rfl, rfl⟩⟩

theorem largest_opened (h : Progress row s) (now : ℤ) (hl : s.buffer.cell = none → loads = true) :
    IsLargestMark row s.marked (s.buffer.opened (s.base loads now)).value.since := by
  cases hc : s.buffer.cell with
  | some c =>
    have he : s.buffer.opened (s.base loads now) = c := by simp [Buffer.opened, hc]
    exact he ▸ h.largest c hc
  | none =>
    obtain ⟨hmarks, hrow⟩ := h.untouched hc
    have hsince : (s.buffer.opened (s.base loads now)).value.since = row.bind (·.since) := by
      simp only [Buffer.opened, hc, getD_none, Tracker.base, ensureRelayState, hl hc, hrow]
      cases row with
      | none => rfl
      | some r => rfl
    rw [hsince, hmarks]
    exact isLargestMark_nil row

variable [DecidableEq τ] {c : Cell IngestCheckpoint}

theorem progress_goto (h : Progress row s) (t : τ) (call : Call) (clock : ℤ) :
    Progress row (s.goto t call clock) :=
  ⟨h.consistent, h.largest, h.untouched⟩

theorem progress_step {a : Action τ} (h : Progress row s) (hg : Orderly s a)
    (hs : step flushEvery s a = some u) : Progress row u := by
  cases a with
  | mark t now eventID createdAt =>
    simp only [step] at hs
    split_ifs at hs
    exact some.inj hs ▸ progress_goto h t _ _
  | setStatus t now state lastError =>
    simp only [step] at hs
    split_ifs at hs
    exact some.inj hs ▸ progress_goto h t _ _
  | flush t =>
    simp only [step] at hs
    split_ifs at hs
    exact some.inj hs ▸ progress_goto h t _ _
  | update t loads now =>
    obtain ⟨at', f, created, call, hf, rfl⟩ := step_update hs
    apply progress_goto
    refine ⟨consistent_update h.consistent (stampedAfter_of_orderly hg hf _), ?_,
      fun hc => absurd hc (by simp [Buffer.update])⟩
    rintro c ⟨⟩
    exact isLargestMark_of_updates hf (largest_opened h now hg.1)
  | snapshot t loads now =>
    obtain ⟨B, rfl, hB⟩ := step_snapshot hs
    have hopen : Consistent IngestCheckpoint.updatedAt (s.buffer.openWith (s.base loads now)) := by
      refine consistent_openWith h.consistent fun hc => ?_
      obtain ⟨hl, hrow⟩ := hg hc
      obtain ⟨r, hr⟩ := isSome_iff_exists.mp hrow
      simp [Tracker.base, ensureRelayState, hl, hr]
    have hlargest := largest_opened h now fun hc => (hg hc).1
    apply progress_goto
    rcases hB with rfl | rfl
    · refine ⟨hopen, ?_, fun hc => absurd hc (by simp [Buffer.openWith])⟩
      rintro c ⟨⟩
      exact hlargest
    · refine ⟨consistent_take hopen t rfl, ?_,
        fun hc => absurd hc (by simp [Buffer.openWith, Buffer.goto])⟩
      rintro c ⟨⟩
      exact hlargest
  | upsert t succeeds =>
    obtain ⟨snapshot, revision, hf, rfl⟩ := step_upsert hs
    have hcell : s.buffer.cell ≠ none := by
      intro hc
      rw [(h.consistent.fresh hc).2 t] at hf
      cases hf
    cases succeeds with
    | true =>
      have hle : s.buffer.storedRevision ≤ revision := by
        simp only [Orderly, hf] at hg
        exact hg trivial
      exact ⟨consistent_write h.consistent hf hle, h.largest, fun hc => absurd hc hcell⟩
    | false =>
      exact ⟨consistent_goto h.consistent t (fun _ _ => trivial) fun _ => rfl, h.largest,
        fun hc => absurd hc hcell⟩
  | finish t now =>
    obtain ⟨snapshot, revision, hf, rfl⟩ := step_finish hs
    have hclears : ∀ c : IngestCheckpoint, decide (¬ c.updatedAt > snapshot.updatedAt) = true →
        c.updatedAt ≤ snapshot.updatedAt := by simp
    refine ⟨consistent_finish h.consistent hf hclears, ?_, ?_⟩
    · intro c hc
      obtain ⟨d, hd, rfl⟩ := map_eq_some_iff.mp hc
      have hlargest := h.largest d hd
      split_ifs
      · exact hlargest
      · exact hlargest
    · intro hc
      exact h.untouched (by simpa [Buffer.finish] using hc)

theorem run_flushAll_dirty {t : τ} {now : ℤ} (hc : s.buffer.cell = some c) (hd : c.dirty = true)
    (ht : s.Idle t) (hnow : s.clock ≤ now) :
    ∃ u, run (step flushEvery) s (s.flushAll t now) = some u ∧ u.buffer.stored = some c.value := by
  simp [Tracker.flushAll, hc, hd, step, ht, hnow, Tracker.goto, Buffer.opened, Buffer.openWith,
    Buffer.goto, Buffer.write, Buffer.finish]

theorem run_flushAll_clean {t : τ} {now : ℤ} (hc : s.buffer.cell = some c) (hd : c.dirty = false)
    (ht : s.Idle t) (hnow : s.clock ≤ now) :
    ∃ u, run (step flushEvery) s (s.flushAll t now) = some u ∧
      u.buffer.stored = s.buffer.stored := by
  simp [Tracker.flushAll, hc, hd, step, ht, hnow, Tracker.goto, Buffer.opened, Buffer.openWith]

theorem flushAll_stores_largest (h : Progress row s) {t : τ} {now : ℤ} (ht : s.Idle t)
    (hnow : s.clock ≤ now) : ∃ u, run (step flushEvery) s (s.flushAll t now) = some u ∧
      IsLargestMark row s.marked (u.buffer.stored.bind (·.since)) := by
  cases hc : s.buffer.cell with
  | none =>
    obtain ⟨hmarks, hrow⟩ := h.untouched hc
    refine ⟨s, by simp [Tracker.flushAll, hc], ?_⟩
    rw [hmarks, hrow]
    exact isLargestMark_nil row
  | some c =>
    have hlargest := h.largest c hc
    cases hd : c.dirty with
    | true =>
      obtain ⟨u, hu, hstored⟩ := run_flushAll_dirty hc hd ht hnow
      exact ⟨u, hu, by simpa [hstored] using hlargest⟩
    | false =>
      obtain ⟨u, hu, hstored⟩ := run_flushAll_clean hc hd ht hnow
      refine ⟨u, hu, ?_⟩
      rw [hstored, stored_of_clean h.consistent hc hd]
      exact hlargest

/-- In every state that an orderly run passes through, the store mirrors a checkpoint that is not
dirty, and `FlushAll` leaves the largest mark in it. -/
theorem keepsProgress_of_orderly (flushEvery clock : ℤ) (row : Option IngestCheckpoint)
    (as : List (Action τ)) (hg : Guarded (step flushEvery) Orderly (Tracker.init row clock) as) :
    Always (step flushEvery) (KeepsProgress flushEvery row) (Tracker.init row clock) as := by
  intro bs hbs s hs
  have h : Progress row s := run_invariant (fun _ _ _ => progress_step) (progress_init row clock)
    (guarded_initial hbs hg) hs
  exact ⟨fun _ _ hc hd => stored_of_clean h.consistent hc hd, fun t now ht hnow => flushAll_stores_largest h ht hnow⟩

end

def oneMark : List (Action Bool) :=
  [.mark true 100 "e1" 50, .update true true 100, .snapshot true true 100, .upsert true true,
    .finish true 101]

theorem keepsProgress_oneMark :
    Always (step 5) (KeepsProgress 5 none) (Tracker.init none 0) oneMark :=
  keepsProgress_of_orderly 5 0 none oneMark (by decide)

def overtaken : List (Action Bool) :=
  [.mark true 100 "e1" 50, .update true true 100, .snapshot true true 100,
    .mark false 200 "e2" 60, .update false true 200, .snapshot false true 200, .upsert false true,
    .finish false 201, .upsert true true, .finish true 202]

/-- The store is left with the older row while nothing is dirty. -/
theorem overtaken_flush_forgets :
    ∃ s, run (step 5) (Tracker.init none 0) overtaken = some s ∧ ¬ Synced s := by
  refine ⟨(run (step 5) (Tracker.init none 0) overtaken).get (by decide),
    (some_get _).symm, ?_⟩
  decide

end NostrMash.Live
