import Mathlib
import NostrMash.LiveResume

/-!
# Failed insertions after a restart

An insertion that fails records no progress, but a later event may carry the checkpoint of the
relay past it.
-/

namespace NostrMash.Live
open Machine Nostr List

set_option maxRecDepth 1000

section
variable (w : Wiring) (r : ResumeSinceResolver)

def pending : List InsertAttempt → List InsertAttempt
  | [] => []
  | t :: ts =>
    if t.succeeds then (pending ts).filter (·.event.id ≠ t.event.id) else t :: pending ts

/-- After a flush and a restart every pending event lies in the resumed subscription. -/
def ReplaysFailed (s : LiveState) : Prop :=
  ∀ f ∈ pending s.ingest.attempts, trimSpace f.relayURL ≠ "" →
    ∃ res, (s.shutdown w true).resolveSince r f.relayURL = .ok res ∧ res.since ≤ f.event.createdAt

def NothingToResume (s : LiveState) (relay : String) : LiveAction → Prop
  | .restart _ => s.ingest.checkpoints.storedSince relay = none
  | .setRelayStatus relayURL _ _ _ _ a =>
    if relay = trimSpace relayURL then s.ingest.checkpoints.workingSince a relay = none
    else s.ingest.checkpoints.resumeFrom relay = none
  | _ => s.ingest.checkpoints.resumeFrom relay = none

def FailsToInsert (s : LiveState) (action : LiveAction) (f : InsertAttempt) : Prop :=
  match action with
  | .handle relayURL payload a =>
    (route w a s.clock relayURL payload s.ingest.dedup).attempted = some f.event ∧
      f.relayURL = relayURL ∧ insertSucceeds a relayURL f.event = false
  | _ => False

/-- The condition under which a pending event stays in reach: progress is recorded only at events
dated at most the overlap after it, an insertion fails only when the progress is at most the overlap
ahead of its event, and the clock is within the lookback while there is nothing to resume from. -/
structure StaysInReach (s : LiveState) (action : LiveAction) : Prop where
  recorded : ∀ relayURL payload a, action = .handle relayURL payload a →
    ∀ eventID createdAt,
      progress w a s.clock relayURL payload s.ingest = some (eventID, createdAt) →
      ∀ f ∈ pending s.ingest.attempts, trimSpace f.relayURL = trimSpace relayURL →
        createdAt ≤ f.event.createdAt + r.overlapSeconds
  failed : ∀ f, FailsToInsert w s action f →
    SinceLE (f.event.createdAt + r.overlapSeconds) s.ingest.checkpoints (trimSpace f.relayURL)
  lookback : ∀ f, f ∈ pending s.ingest.attempts ∨ FailsToInsert w s action f →
    NothingToResume s (trimSpace f.relayURL) action →
      unix (action.endsAt s.clock) ≤ f.event.createdAt + r.bootstrapLookbackSeconds

end

section
variable {w : Wiring} {r : ResumeSinceResolver} {s : LiveState} {a : Answers} {f : InsertAttempt}
  {action : LiveAction} {payload : Payload} {relayURL : String}

structure InReach (r : ResumeSinceResolver) (s : LiveState) : Prop where
  mirrored : s.ingest.checkpoints.Mirrored
  nonneg : ∀ f ∈ s.ingest.attempts, 0 ≤ f.event.createdAt
  since_le : ∀ f ∈ pending s.ingest.attempts, trimSpace f.relayURL ≠ "" →
    SinceLE (f.event.createdAt + r.overlapSeconds) s.ingest.checkpoints (trimSpace f.relayURL)
  lookback : ∀ f ∈ pending s.ingest.attempts, trimSpace f.relayURL ≠ "" →
    s.ingest.checkpoints.resumeFrom (trimSpace f.relayURL) = none →
      s.now ≤ f.event.createdAt + r.bootstrapLookbackSeconds

theorem mem_of_mem_pending {ts : List InsertAttempt} (h : f ∈ pending ts) :
    f ∈ ts := by
  induction ts with
  | nil => cases h
  | cons t ts ih =>
    simp only [pending] at h
    split_ifs at h
    · exact mem_cons_of_mem t (ih (mem_filter.mp h).1)
    · rcases mem_cons.mp h with rfl | h
      · exact .head _
      · exact mem_cons_of_mem t (ih h)

theorem replaysFailed_of_inReach (h : InReach r s) : ReplaysFailed w r s := by
  intro f hf hne
  have hnonneg := h.nonneg f (mem_of_mem_pending hf)
  have hiff := r.resolveSince_le_iff (c := (s.shutdown w true).ingest.checkpoints) hne s.now hnonneg
  have hcovers : r.Covers ((s.shutdown w true).ingest.checkpoints.storedSince
      (trimSpace f.relayURL)) s.now f.event.createdAt := by
    rw [storedSince_shutdown]
    cases hs : s.ingest.checkpoints.resumeFrom (trimSpace f.relayURL) with
    | none => exact h.lookback f hf hne hs
    | some v => exact h.since_le f hf hne v (.inr hs)
  exact hiff.mpr hcovers

theorem inReach_init (r : ResumeSinceResolver) (w : Wiring) (clock : ℕ) :
    InReach r (LiveState.init w clock) := by
  have hpending : ∀ f, f ∉ pending (LiveState.init w clock).ingest.attempts := fun _ =>
    not_mem_nil
  exact ⟨mirrored_init w clock, fun _ hf => absurd hf not_mem_nil,
    fun f hf => absurd hf (hpending f), fun f hf => absurd hf (hpending f)⟩

theorem createdAt_nonneg_of_attempted {clock : ℕ} {dedup : Option DedupCache} {e : Event}
    (h : (route w a clock relayURL payload dedup).attempted = some e) : 0 ≤ e.createdAt := by
  unfold route at h
  split at h
  · cases h
  · split at h
    · cases h
    · next e' hvalid =>
      unfold eventRoute at h
      split_ifs at h
      all_goals cases h
      exact (wellFormed_of_parseAndValidate hvalid).createdAt_nonneg

theorem attempts_next (w : Wiring) (s : LiveState) (action : LiveAction) :
    (liveNext w s action).ingest.attempts = s.ingest.attempts ∨
      ∃ relayURL payload a e, action = .handle relayURL payload a ∧
        (route w a s.clock relayURL payload s.ingest.dedup).attempted = some e ∧
        (liveNext w s action).ingest.attempts =
          ⟨relayURL, e, insertSucceeds a relayURL e⟩ :: s.ingest.attempts := by
  cases action with
  | handle relayURL payload a =>
    have heffects := (handle_effects w a s.clock relayURL payload s.ingest).2
    cases he : (route w a s.clock relayURL payload s.ingest.dedup).attempted with
    | none =>
      rw [he] at heffects
      exact .inl heffects
    | some e =>
      rw [he] at heffects
      exact .inr ⟨relayURL, payload, a, e, rfl, he, heffects⟩
  | setRelayStatus relayURL state lastError after flushedAfter a =>
    exact .inl (by simp only [liveNext, LiveState.withCheckpoints])
  | flushAll after upserts => exact .inl rfl
  | restart after => exact .inl rfl
  | purge after purged => exact .inl rfl

theorem pending_next (hf : f ∈ pending (liveNext w s action).ingest.attempts) :
    f ∈ pending s.ingest.attempts ∨ FailsToInsert w s action f := by
  rcases attempts_next w s action with hsame | ⟨relayURL, payload, a, e, rfl, he, hnew⟩
  · exact .inl (hsame ▸ hf)
  · simp only [hnew, pending] at hf
    split_ifs at hf with hs
    · exact .inl (mem_filter.mp hf).1
    · rcases mem_cons.mp hf with rfl | hf
      · exact .inr ⟨he, rfl, by simpa using hs⟩
      · exact .inl hf

theorem nonneg_next (h : ∀ f ∈ s.ingest.attempts, 0 ≤ f.event.createdAt) (action : LiveAction) :
    ∀ f ∈ (liveNext w s action).ingest.attempts, 0 ≤ f.event.createdAt := by
  rcases attempts_next w s action with hsame | ⟨relayURL, payload, a, e, rfl, he, hnew⟩
  · rw [hsame]
    exact h
  · rw [hnew, forall_mem_cons]
    exact ⟨createdAt_nonneg_of_attempted he, h⟩

theorem progress_of_failsToInsert (h : FailsToInsert w s (.handle relayURL payload a) f) :
    progress w a s.clock relayURL payload s.ingest = none := by
  obtain ⟨hattempted, -, hfails⟩ := h
  unfold progress
  cases hr : route w a s.clock relayURL payload s.ingest.dedup with
  | insert e =>
    rw [hr] at hattempted
    cases hattempted
    simp [Route.recorded, hfails, counted]
  | _ =>
    rw [hr] at hattempted
    cases hattempted

theorem nothingToResume_of_next {relay : String} (hne : relay ≠ "")
    (h : (liveNext w s action).ingest.checkpoints.resumeFrom relay = none) :
    NothingToResume s relay action := by
  cases action with
  | handle relayURL payload a =>
    cases hp : progress w a s.clock relayURL payload s.ingest with
    | none =>
      simp only [liveNext, (handle_effects w a s.clock relayURL payload s.ingest).1, hp] at h
      exact h
    | some p =>
      rw [resumeFrom_handle hp] at h
      split_ifs at h
      exact h
  | setRelayStatus relayURL state lastError after flushedAfter a =>
    simp only [liveNext, LiveState.withCheckpoints] at h
    simp only [NothingToResume]
    rcases eq_or_ne (trimSpace relayURL) "" with hblank | hblank
    · rw [Checkpoints.setRelayStatus_blank state lastError hblank] at h
      have hother : relay ≠ trimSpace relayURL := by rwa [hblank]
      rwa [if_neg hother]
    · rw [Checkpoints.resumeFrom_setRelayStatus _ a _ _ state lastError hblank] at h
      rcases eq_or_ne relay (trimSpace relayURL) with hsame | hother
      · rwa [if_pos hsame] at h ⊢
      · rwa [if_neg hother] at h ⊢
  | flushAll after upserts =>
    exact ((Checkpoints.flushed_flushAll upserts _ _).resumeFrom_eq relay).symm.trans h
  | restart after => exact h
  | purge after purged => exact h

theorem inReach_next (h : InReach r s) (hg : StaysInReach w r s action) :
    InReach r (liveNext w s action) := by
  refine ⟨mirrored_next h.mirrored action, nonneg_next h.nonneg action, fun f hf hne => ?_,
    fun f hf hne hnone => ?_⟩
  · have hnonneg : 0 ≤ f.event.createdAt + r.overlapSeconds := add_nonneg
      (nonneg_next h.nonneg action f (mem_of_mem_pending hf)) r.overlap_nonneg
    rcases pending_next hf with hold | hnew
    · refine sinceLE_next hnonneg h.mirrored (h.since_le f hold hne) action ?_
      intro relayURL payload a he eventID createdAt hp hrelay
      exact hg.recorded relayURL payload a he eventID createdAt hp f hold hrelay
    · refine sinceLE_next hnonneg h.mirrored (hg.failed f hnew) action ?_
      rintro relayURL payload a rfl eventID createdAt hp -
      rw [progress_of_failsToInsert hnew] at hp
      cases hp
  · rw [now_next]
    exact hg.lookback f (pending_next hf) (nothingToResume_of_next hne hnone)

/-- In every state of a run whose actions keep the pending events in reach, a flush and a restart
resume at or before each of them. -/
theorem replaysFailed_of_staysInReach (w : Wiring) (r : ResumeSinceResolver) (clock : ℕ)
    (as : List LiveAction)
    (hg : Guarded (liveStep w) (StaysInReach w r) (LiveState.init w clock) as) :
    Always (liveStep w) (ReplaysFailed w r) (LiveState.init w clock) as := by
  intro bs hbs s hs
  refine replaysFailed_of_inReach (run_invariant ?_ (inReach_init r w clock)
    (guarded_initial hbs hg) hs)
  rintro u action v hu hgu ⟨⟩
  exact inReach_next hu hgu

end

def failingInsert : Answers := { calmAnswers with insertFault := some "commit tx: timeout" }

def startNovember : LiveState := LiveState.init plainWiring 1700000000000000000

theorem staysInReach_first_failure : StaysInReach plainWiring defaultResolver startNovember
      (.handle relayExample firstNote.payload failingInsert) := by
  have hcreated : (route plainWiring failingInsert startNovember.clock relayExample
      firstNote.payload startNovember.ingest.dedup).attempted.map (·.createdAt) =
        some 1700000000 := by
    decide
  obtain ⟨e, he, hcreated⟩ := Option.map_eq_some_iff.mp hcreated
  have hfails : FailsToInsert plainWiring startNovember
      (.handle relayExample firstNote.payload failingInsert) ⟨relayExample, e, false⟩ :=
    ⟨he, rfl, Bool.and_false _⟩
  refine ⟨?_, ?_, ?_⟩
  · rintro _ _ _ ⟨⟩ eventID createdAt hp
    rw [progress_of_failsToInsert hfails] at hp
    cases hp
  · intro f _ v hv
    exact absurd hv (by simp [startNovember, LiveState.init, Checkpoints.storedSince,
      Checkpoints.resumeFrom])
  · rintro f (hf | ⟨hf, -, -⟩) -
    · cases mem_of_mem_pending hf
    · obtain rfl : e = f.event := Option.some.inj (he.symm.trans hf)
      have hclock : unix ((LiveAction.handle relayExample firstNote.payload failingInsert).endsAt
          startNovember.clock) = 1700000000 := by decide
      rw [hcreated, hclock]
      decide

/-- A note that fails to be stored is sent again after a restart at once. -/
theorem replaysFailed_first_failure :
    Always (liveStep plainWiring) (ReplaysFailed plainWiring defaultResolver) startNovember
      [.handle relayExample firstNote.payload failingInsert] :=
  replaysFailed_of_staysInReach plainWiring defaultResolver 1700000000000000000
    [.handle relayExample firstNote.payload failingInsert]
    ⟨staysInReach_first_failure, fun _ _ => trivial⟩

def failureThenProgress : List LiveAction :=
  [.handle relayExample firstNote.payload failingInsert,
    .handle relayExample laterNote.payload { calmAnswers with seenAfter := 3600000000000 }]

def afterProgress : LiveState := failureThenProgress.foldl (liveNext plainWiring) startNovember

theorem since_and_pending_afterProgress :
    ((afterProgress.shutdown plainWiring true).resolveSince defaultResolver
        relayExample).toOption.map (·.since) = some 1700003540 ∧
      (pending afterProgress.ingest.attempts).map (fun f => (f.relayURL, f.event.createdAt)) =
        [(relayExample, 1700000000)] := by
  decide

/-- The first note is dated before the subscription that resumes. -/
theorem failed_note_not_replayed :
    ∃ s, run (liveStep plainWiring) startNovember failureThenProgress = some s ∧
      ¬ ReplaysFailed plainWiring defaultResolver s := by
  refine ⟨afterProgress, by simp [liveStep, afterProgress, failureThenProgress], fun h => ?_⟩
  obtain ⟨hsince, hpending⟩ := since_and_pending_afterProgress
  have hmem : (relayExample, 1700000000) ∈ (pending afterProgress.ingest.attempts).map
      (fun f => (f.relayURL, f.event.createdAt)) := by
    rw [hpending]
    exact mem_singleton_self _
  obtain ⟨f, hf, he⟩ := mem_map.mp hmem
  obtain ⟨hrelay, hcreated⟩ := Prod.mk.inj he
  obtain ⟨res, hres, hle⟩ := h f hf (by rw [hrelay]; decide)
  rw [← hrelay, hres] at hsince
  have hres' : res.since = 1700003540 := Option.some.inj hsince
  omega

end NostrMash.Live
