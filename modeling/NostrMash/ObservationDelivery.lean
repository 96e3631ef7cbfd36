import NostrMash.ObservationFlush

/-!
# Observations across shutdown

The buffer and the writes count the calls that the ledger says they do.
-/

namespace NostrMash.Observations
open BatchedCounts List Option

namespace Phase

def Drained : Phase → Prop
  | .writing final _ => final = true
  | .returned => True
  | _ => False

def Stopping : Phase → Prop
  | .draining final => final = true
  | p => p.Drained

def Carries (underway : List (Call × ℕ)) : Phase → Prop
  | .writing _ deltas => Tallies callKey deltas underway
  | _ => underway = []

end Phase

structure Inv (T : Traced) : Prop where
  counts : Tallies callKey T.loop.buffer.counts T.ledger.waiting
  phase : T.loop.phase.Carries T.ledger.underway
  written : List.Forall₂ (Tallies callKey) T.loop.written T.ledger.arrived
  stopping : T.loop.phase.Stopping → T.loop.cancelled = true
  late : T.loop.phase.Drained → ∀ e ∈ T.ledger.waiting, e.1.early = false
  keys : ∀ e ∈ T.ledger.waiting ++ (T.ledger.underway ++ T.ledger.arrived.flatten), callKey e ≠ ""

theorem inv_start (maxKeys : ℤ) : Inv (Traced.start maxKeys) where
  counts := tallies_empty
  phase := rfl
  written := .nil
  stopping h := h.elim
  late h := h.elim
  keys _ h := nomatch h

variable {T T' : Traced} {a : Action} {acts : List Action}

theorem inv_observe (h : Inv T) (pubkey : String) :
    Inv ⟨{ T.loop with buffer := T.loop.buffer.observe pubkey }, T.record (.observe pubkey)⟩ := by
  by_cases hcounts : T.loop.buffer.Counts pubkey
  · simp only [Traced.record, if_pos hcounts, ObservationBuffer.observe, if_neg hcounts.1,
      if_neg hcounts.2]
    refine ⟨h.counts.increment (⟨pubkey, _⟩, _), h.phase, h.written, h.stopping, ?_, ?_⟩
    · intro hdrained e he
      rcases mem_append.mp he with he | he
      · exact h.late hdrained e he
      · obtain rfl := mem_singleton.mp he
        have hstopping : T.loop.phase.Stopping := by
          cases hphase : T.loop.phase <;> simp_all [Phase.Stopping, Phase.Drained]
        simp [h.stopping hstopping]
    · obtain ⟨hwaiting, hothers⟩ := forall_mem_append.mp h.keys
      refine forall_mem_append.mpr ⟨forall_mem_append.mpr ⟨hwaiting, ?_⟩, hothers⟩
      exact forall_mem_singleton.mpr hcounts.1
  · simp only [Traced.record, if_neg hcounts, ObservationBuffer.observe_of_not_counts hcounts]
    exact ⟨h.counts, h.phase, h.written, h.stopping, h.late, h.keys⟩

theorem inv_afterFlush {final : Bool} {buffer : ObservationBuffer} {L : Ledger Call}
    {written : List Deltas} (hcounts : Tallies callKey buffer.counts L.waiting)
    (hunderway : L.underway = []) (hwritten : List.Forall₂ (Tallies callKey) written L.arrived)
    (hstopping : final = true → T.loop.cancelled = true)
    (hlate : final = true → ∀ e ∈ L.waiting, e.1.early = false)
    (hkeys : ∀ e ∈ L.waiting ++ (L.underway ++ L.arrived.flatten), callKey e ≠ "") :
    Inv ⟨{ T.loop with
      buffer := buffer, phase := State.afterFlush final, written := written }, L⟩ := by
  refine ⟨hcounts, ?_, hwritten, fun h => hstopping ?_, fun h => hlate ?_, hkeys⟩
  · rw [hunderway]
    cases final <;> rfl
  all_goals cases final
  all_goals first | rfl | exact h.elim

theorem inv_drain (h : Inv T) {s : State} (hs : T.loop.step .drain = some s) :
    Inv ⟨s, T.ledger.take⟩ := by
  simp only [State.step] at hs
  split at hs
  · rename_i final hphase
    have hunderway := h.phase
    have hstopping := h.stopping
    rw [hphase] at hunderway hstopping
    have htaken : T.ledger.take.underway = T.ledger.waiting :=
      (congrArg (· ++ T.ledger.waiting) hunderway).trans (nil_append _)
    have hkeys : ∀ e ∈ T.ledger.take.waiting ++ (T.ledger.take.underway ++
        T.ledger.take.arrived.flatten), callKey e ≠ "" := by
      intro e he
      refine h.keys e ?_
      rw [htaken] at he
      rcases mem_append.mp he with hnil | hmem
      · exact absurd hnil not_mem_nil
      · exact (mem_append.mp hmem).elim (mem_append_left _)
          fun harrived => mem_append_right _ (mem_append_right _ harrived)
    by_cases hrows : T.loop.buffer.counts.rows = []
    · rw [ObservationBuffer.drain, if_pos hrows] at hs
      cases hs
      have hnil := h.counts.rows_eq_nil_iff.mp hrows
      have hcounts := h.counts
      rw [hnil] at hcounts
      exact inv_afterFlush (L := T.ledger.take) hcounts (htaken.trans hnil) h.written hstopping
        (fun _ e he => absurd he not_mem_nil) hkeys
    · rw [ObservationBuffer.drain, if_neg hrows] at hs
      cases hs
      refine ⟨tallies_empty, ?_, h.written, hstopping, fun _ e he => absurd he not_mem_nil, hkeys⟩
      rw [htaken]
      exact h.counts
  · exact absurd hs (by simp)

theorem inv_write (h : Inv T) {succeeds : Bool} {s : State}
    (hs : T.loop.step (.write succeeds) = some s) : Inv ⟨s, T.record (.write succeeds)⟩ := by
  simp only [State.step] at hs
  split at hs
  · rename_i final deltas hphase
    have hunderway := h.phase
    have hstopping := h.stopping
    have hlate := h.late
    rw [hphase] at hunderway hstopping hlate
    cases succeeds with
    | true =>
      cases hs
      have hwritten := rel_append h.written (.cons hunderway .nil)
      refine inv_afterFlush (L := T.ledger.arrive) h.counts rfl hwritten hstopping hlate ?_
      intro e he
      simp only [Ledger.arrive, flatten_append, flatten_singleton, nil_append, mem_append] at he
      refine h.keys e ?_
      simp only [mem_append]
      tauto
    | false =>
      rw [if_neg Bool.false_ne_true] at hs
      split_ifs at hs
      cases hs
      refine inv_afterFlush (L := T.ledger.lose) h.counts rfl h.written hstopping hlate ?_
      intro e he
      refine h.keys e ?_
      simp only [Ledger.lose, nil_append, mem_append] at he ⊢
      tauto
  · exact nomatch hs

theorem inv_step (h : Inv T) (hstep : T.step a = some T') : Inv T' := by
  obtain ⟨s, hs, rfl⟩ := map_eq_some_iff.mp hstep
  cases a with
  | observe pubkey =>
    obtain rfl := some.inj hs
    exact inv_observe h pubkey
  | tick =>
    obtain rfl := some.inj hs
    exact ⟨h.counts, h.phase, h.written, h.stopping, h.late, h.keys⟩
  | cancel =>
    obtain rfl := some.inj hs
    exact ⟨h.counts, h.phase, h.written, fun _ => rfl, h.late, h.keys⟩
  | expire =>
    simp only [State.step] at hs
    split at hs
    · obtain rfl := some.inj hs
      exact ⟨h.counts, h.phase, h.written, h.stopping, h.late, h.keys⟩
    · obtain rfl := some.inj hs
      exact ⟨h.counts, h.phase, h.written, h.stopping, h.late, h.keys⟩
    · exact nomatch hs
  | receiveTick =>
    simp only [State.step] at hs
    split at hs
    · rename_i hphase
      split_ifs at hs
      obtain rfl := some.inj hs
      have hunderway := h.phase
      rw [hphase] at hunderway
      exact ⟨h.counts, hunderway, h.written, fun hf => absurd hf (by simp [Phase.Stopping]),
        fun hd => hd.elim, h.keys⟩
    · exact nomatch hs
  | receiveDone =>
    simp only [State.step] at hs
    split at hs
    · rename_i hphase
      split_ifs at hs with hcancelled
      obtain rfl := some.inj hs
      have hunderway := h.phase
      rw [hphase] at hunderway
      exact ⟨h.counts, hunderway, h.written, fun _ => hcancelled, fun hd => hd.elim, h.keys⟩
    · exact nomatch hs
  | drain => exact inv_drain h hs
  | write succeeds => exact inv_write h hs

theorem inv_run (h : Inv T) (hrun : Machine.run Traced.step T acts = some T') :
    Inv T' :=
  Machine.run_invariant_of_step (fun _ _ _ hinv hstep => inv_step hinv hstep) h hrun

/-- No call made before the cancellation is refused or lost. -/
def Kept (T : Traced) : Prop :=
  ∀ e ∈ T.ledger.refused ++ T.ledger.lost, e.1.early = false

/-- Before the cancellation the buffer counts every call, and no write fails that has such a call in
its batch. -/
def Keeps (T : Traced) : Action → Prop
  | .observe pubkey => T.loop.cancelled = true ∨ T.loop.buffer.Counts pubkey
  | .write succeeds => succeeds = true ∨ ∀ e ∈ T.ledger.underway, e.1.early = false
  | _ => True

theorem kept_step (hstep : T.step a = some T') : Kept T' ↔ Kept T ∧ Keeps T a := by
  obtain ⟨s, -, rfl⟩ := map_eq_some_iff.mp hstep
  unfold Kept Keeps
  cases a with
  | observe pubkey =>
    by_cases hcounts : T.loop.buffer.Counts pubkey
    · simp [Traced.record, hcounts, Ledger.accept]
    · simp only [Traced.record, if_neg hcounts, Ledger.refuse, forall_mem_append,
        forall_mem_singleton, Bool.not_eq_eq_eq_not, Bool.not_false, or_iff_left hcounts]
      exact and_right_comm
  | write succeeds =>
    cases succeeds with
    | true => simp [Traced.record, Ledger.arrive]
    | false =>
      simp only [Traced.record, Bool.false_eq_true, if_false, Ledger.lose, forall_mem_append,
        false_or, and_assoc]
  | _ => simp [Traced.record, Ledger.take]

/-- Every call made before the cancellation is in one successful write. -/
def CountedOnce (L : Ledger Call) : Prop :=
  ∀ e ∈ L.issued.zipIdx, e.1.early = true → L.deliveries e = 1

theorem countedOnce_iff_kept (h : Inv T) (hreturned : T.loop.phase = .returned) :
    CountedOnce T.ledger ↔ Kept T := by
  have hunderway := h.phase
  have hlate := h.late
  rw [hreturned] at hunderway hlate
  constructor
  · intro honce e he
    by_contra hearly
    have hissued : e ∈ T.ledger.issued.zipIdx := by
      rw [T.ledger.perm.mem_iff]
      simp only [mem_append] at he ⊢
      tauto
    have hplace := (Ledger.deliveries_eq_one_iff hissued).mp
      (honce e hissued (Bool.eq_true_of_not_eq_false hearly))
    exact (mem_append.mp he).elim hplace.1 hplace.2.2.2
  · intro hkept e he hearly
    have hne : ∀ l : List (Call × ℕ), (∀ e' ∈ l, e'.1.early = false) → e ∉ l :=
      fun l hl hmem => absurd (hl e hmem) (by simp [hearly])
    obtain ⟨hrefused, hlost⟩ := forall_mem_append.mp hkept
    refine (Ledger.deliveries_eq_one_iff he).mpr ⟨hne _ hrefused, hne _ (hlate trivial), ?_,
      hne _ hlost⟩
    rw [show T.ledger.underway = [] from hunderway]
    exact not_mem_nil

theorem countedOnce_iff_guarded (maxKeys : ℤ) (acts : List Action) (T : Traced)
    (hrun : Machine.run Traced.step (Traced.start maxKeys) acts = some T)
    (hreturned : T.loop.phase = .returned) :
    CountedOnce T.ledger ↔ Machine.Guarded Traced.step Keeps (Traced.start maxKeys) acts := by
  have hinv := inv_run (inv_start maxKeys) hrun
  rw [countedOnce_iff_kept hinv hreturned,
    Machine.run_iff_guarded (J := fun _ => True) (fun _ _ _ _ _ => trivial)
      (fun _ _ _ _ hstep => kept_step hstep) trivial hrun]
  exact and_iff_right fun e he => nomatch he

def interruptedFlush : List Action :=
  [.observe "alice", .tick, .receiveTick, .drain, .cancel, .write false, .receiveDone, .drain]

def quietShutdown : List Action :=
  [.observe "alice", .cancel, .receiveDone, .drain, .write true]

theorem quiet_shutdown_countedOnce : ∃ T,
    Machine.run Traced.step (Traced.start 0) quietShutdown = some T ∧ (CountedOnce T.ledger ↔
        Machine.Guarded Traced.step Keeps (Traced.start 0) quietShutdown) :=
  ⟨_, rfl, countedOnce_iff_guarded 0 quietShutdown _ rfl rfl⟩

/-- The batch is lost when the cancellation comes between the drain and the end of the write. -/
theorem interrupted_flush_loses_batch : ¬ ∀ (acts : List Action) (T : Traced),
    (∀ pubkey, .observe pubkey ∈ acts → observationKey pubkey ≠ "") →
      Machine.run Traced.step (Traced.start 0) acts = some T → T.loop.phase = .returned →
      CountedOnce T.ledger := by
  intro h
  have honce := h interruptedFlush _ (by simp [interruptedFlush, observationKey]; decide) rfl rfl
    (⟨"alice", true⟩, 0) (by decide) rfl
  exact nomatch honce

end NostrMash.Observations
