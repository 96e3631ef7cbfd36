import NostrMash.TrustJobs

/-!
# Retries of the jobs of a trust run

A run whose failure is recorded is finished, so that a retry of the failed job skips its work and
reports success.
-/

namespace NostrMash.Trust.Retry.RunState
open Machine List Option

section
variable (cfg : Config)

def Performs (a : Attempt) (s t : RunState) : Prop :=
  match a.job with
  | .sync => t.status = .running ∧ t.snapshotRef = some (syncRef cfg a.ref) ∧
      .compute (syncRef cfg a.ref) ∈ t.jobs
  | .compute ref => t.status = .running ∧ t.stage = some ref ∧ afterCompute cfg ref ∈ t.jobs
  | .neighborhoods ref => t.status = .running ∧ t.memberStage = some ref ∧ .promote ref ∈ t.jobs
  | .promote _ => t.status = .succeeded ∧ s.stage.isSome ∧ t.published = s.stage ∧
      (cfg.enableNeighborhoods = true → s.memberStage.isSome ∧ t.publishedMembers = s.memberStage)

def CanSucceed (s : RunState) : Prop :=
  ∃ attempts t, run (processJob cfg) s attempts = some t ∧ t.status = .succeeded

/-- An attempt of a job that has failed before, which meets no failing operation, does the work of
the job, and the run can still succeed. -/
def RetriesEffective (s : RunState) : Prop :=
  ∀ a t, a.job ∈ s.failedJobs → s.status ≠ .succeeded → a.job.enabled cfg = true →
    meetsFailure cfg s a = false → processJob cfg s a = some t →
    Performs cfg a s t ∧ CanSucceed cfg t

def SuccessKept (s : RunState) : Prop := s.succeededOnce = true → s.status = .succeeded

/-- If the attempt meets a failing operation, the run is not marked as failed, and no stage is
deleted. -/
def Unrecorded (s : RunState) (a : Attempt) : Prop :=
  a.job.enabled cfg = true → meetsFailure cfg s a = true →
    a.recorded = false ∧ (a.cleared = true → s.stage = none)

instance (s : RunState) (a : Attempt) : Decidable (Unrecorded cfg s a) :=
  inferInstanceAs (Decidable (_ → _ → _ ∧ (_ → _)))

end

variable {ref : String}

section
variable {cfg : Config} {s t : RunState} {a : Attempt}

/-- Jobs are enqueued in the order of the phases, and the stages of a run that goes on hold what
the enqueued jobs need. -/
structure Inv (cfg : Config) (s : RunState) : Prop where
  computed : ∀ ref, afterCompute cfg ref ∈ s.jobs → .compute ref ∈ s.jobs
  promote : ∀ ref, .promote ref ∈ s.jobs → afterCompute cfg ref ∈ s.jobs
  staged : s.status.terminal = false → ∀ ref, afterCompute cfg ref ∈ s.jobs → s.stage.isSome
  members : s.status.terminal = false → cfg.enableNeighborhoods = true →
    ∀ ref, .promote ref ∈ s.jobs → s.memberStage.isSome
  running : s.status ≠ .failed
  kept : SuccessKept s

theorem afterCompute_ne_sync (ref : String) : afterCompute cfg ref ≠ .sync := by
  unfold afterCompute
  split_ifs <;> simp

theorem afterCompute_ne_compute (ref ref' : String) : afterCompute cfg ref ≠ .compute ref' := by
  unfold afterCompute
  split_ifs <;> simp

theorem afterCompute_inj {ref' : String} (h : afterCompute cfg ref = afterCompute cfg ref') :
    ref = ref' := by
  unfold afterCompute at h
  split_ifs at h
  · exact Job.neighborhoods.inj h
  · exact Job.promote.inj h

theorem inv_init (cfg : Config) : Inv cfg init where
  computed ref h := absurd (mem_singleton.mp h) (afterCompute_ne_sync ref)
  promote _ h := nomatch (mem_singleton.mp h)
  staged _ ref h := absurd (mem_singleton.mp h) (afterCompute_ne_sync ref)
  members _ _ _ h := nomatch (mem_singleton.mp h)
  running := by simp [init]
  kept h := by simp [init] at h

theorem inv_noteFailed (h : Inv cfg s) (job : Job) : Inv cfg (s.noteFailed job) :=
  ⟨h.computed, h.promote, h.staged, h.members, h.running, h.kept⟩

theorem markRunFailed_unrecorded (hr : a.recorded = false)
    (hc : a.cleared = true → s.stage = none) : s.markRunFailed a = s := by
  cases hcl : a.cleared with
  | false => simp [markRunFailed, hr, hcl]
  | true => simp [markRunFailed, hr, ← hc hcl]

section
variable (h : Inv cfg s)
include h

section
variable (hrun : s.status.terminal = false)
include hrun

theorem Inv.not_succeededOnce :
    s.succeededOnce = false := by
  by_contra hs
  have hstatus := h.kept (by simpa using hs)
  rw [hstatus] at hrun
  exact nomatch hrun

theorem inv_sync (hj : a.job = .sync) :
    Inv cfg (work cfg s a) := by
  have hafter : ∀ ref, afterCompute cfg ref ∈ .compute (syncRef cfg a.ref) :: s.jobs →
      afterCompute cfg ref ∈ s.jobs := fun ref hm =>
    (mem_cons.mp hm).resolve_left (afterCompute_ne_compute ref _)
  have hpromote : ∀ ref, .promote ref ∈ .compute (syncRef cfg a.ref) :: s.jobs →
      .promote ref ∈ s.jobs := fun ref hm => (mem_cons.mp hm).resolve_left (by simp)
  simp only [work, hj]
  exact
    { computed := fun ref hm => .tail _ (h.computed ref (hafter ref hm))
      promote := fun ref hm => .tail _ (h.promote ref (hpromote ref hm))
      staged := fun _ ref hm => h.staged hrun ref (hafter ref hm)
      members := fun _ hn ref hm => h.members hrun hn ref (hpromote ref hm)
      running := by simp
      kept := fun hs => nomatch ((h.not_succeededOnce hrun).symm.trans hs) }

theorem inv_compute (hj : a.job = .compute ref)
    (hjob : .compute ref ∈ s.jobs) : Inv cfg (work cfg s a) := by
  simp only [work, hj]
  exact
    { computed := fun r hm => by
        rcases mem_cons.mp hm with heq | hold
        · obtain rfl := afterCompute_inj heq
          exact .tail _ hjob
        · exact .tail _ (h.computed r hold)
      promote := fun r hm => by
        rcases mem_cons.mp hm with heq | hold
        · cases hn : cfg.enableNeighborhoods with
          | true => simp [afterCompute, hn] at heq
          | false => simpa [afterCompute, hn] using hm
        · exact .tail _ (h.promote r hold)
      staged := fun _ _ _ => rfl
      members := fun _ hn r hm => by
        have hold : .promote r ∈ s.jobs :=
          (mem_cons.mp hm).resolve_left (by simp [afterCompute, hn])
        exact h.members hrun hn r hold
      running := by simp
      kept := fun hs => nomatch ((h.not_succeededOnce hrun).symm.trans hs) }

theorem inv_neighborhoods
    (hj : a.job = .neighborhoods ref) (hjob : .neighborhoods ref ∈ s.jobs)
    (hon : cfg.enableNeighborhoods = true) : Inv cfg (work cfg s a) := by
  have hafter : ∀ r, afterCompute cfg r ∈ .promote ref :: s.jobs → afterCompute cfg r ∈ s.jobs :=
    fun r hm => (mem_cons.mp hm).resolve_left (by simp [afterCompute, hon])
  simp only [work, hj]
  exact
    { computed := fun r hm => mem_cons_of_mem _ (h.computed r (hafter r hm))
      promote := fun r hm => by
        rcases mem_cons.mp hm with heq | hold
        · cases heq
          exact mem_cons_of_mem _ (by simpa [afterCompute, hon] using hjob)
        · exact mem_cons_of_mem _ (h.promote r hold)
      staged := fun _ r hm => h.staged hrun r (hafter r hm)
      members := fun _ _ _ _ => rfl
      running := by simp
      kept := fun hs => absurd ((h.not_succeededOnce hrun).symm.trans hs) (by simp) }

end

theorem inv_promote (hj : a.job = .promote ref) :
    Inv cfg (work cfg s a) := by
  simp only [work, hj]
  exact
    { computed := h.computed
      promote := h.promote
      staged := fun hrun => by simp [RunStatus.terminal] at hrun
      members := fun hrun => by simp [RunStatus.terminal] at hrun
      running := by simp
      kept := fun _ => rfl }

theorem inv_work (hjob : a.job ∈ s.jobs) (hon : a.job.enabled cfg = true)
    (hrun : s.status.terminal = false) : Inv cfg (work cfg s a) := by
  cases hj : a.job with
  | sync => exact inv_sync h hrun hj
  | compute ref => exact inv_compute h hrun hj (hj ▸ hjob)
  | neighborhoods ref =>
    rw [hj] at hon
    exact inv_neighborhoods h hrun hj (hj ▸ hjob) hon
  | promote ref => exact inv_promote h hj

theorem inv_processJob (hu : Unrecorded cfg s a)
    (hs : processJob cfg s a = some t) : Inv cfg t := by
  unfold processJob at hs
  split_ifs at hs with hjob hoff hmeets hterm
  · exact some.inj hs ▸ inv_noteFailed h a.job
  · obtain ⟨hr, hc⟩ := hu (by simpa using hoff) hmeets
    rw [markRunFailed_unrecorded hr hc] at hs
    exact some.inj hs ▸ inv_noteFailed h a.job
  · exact some.inj hs ▸ h
  · exact some.inj hs ▸
      inv_work h (by simpa using hjob) (by simpa using hoff) (by simpa using hterm)

end
end

section
variable {cfg : Config} {s t : RunState}

def faultless (job : Job) : Attempt :=
  { job := job, ref := "sync-1", fails := fun _ => false, recorded := false, cleared := false }

theorem processJob_work {a : Attempt} (hjob : a.job ∈ s.jobs) (hon : a.job.enabled cfg = true)
    (hmeets : meetsFailure cfg s a = false) (hrun : s.status.terminal = false) :
    processJob cfg s a = some (work cfg s a) := by
  simp [processJob, hjob, hon, hmeets, hrun]

theorem meetsFailure_faultless {job : Job}
    (hnew : ∀ next, enqueued cfg (faultless job) = some next → next ∉ s.jobs) :
    meetsFailure cfg s (faultless job) = false := by
  have hops : ∀ ops : List Operation, ops.any (faultless job).fails = false := fun ops =>
    any_eq_false.mpr fun _ _ => Bool.false_ne_true
  rw [meetsFailure, hops, hops]
  cases hn : enqueued cfg (faultless job) with
  | none => simp
  | some next => simp [hnew next hn]

theorem not_mem_of_enqueued {a : Attempt} {next : Job} (hmeets : meetsFailure cfg s a = false)
    (hrun : s.status.terminal = false) (hn : enqueued cfg a = some next) : next ∉ s.jobs := by
  simp only [meetsFailure, hrun, hn, Bool.or_eq_false_iff, Bool.not_false, Bool.true_and,
    any_some, decide_eq_false_iff_not] at hmeets
  exact hmeets.2.2

theorem CanSucceed.after {a : Attempt} (hs : processJob cfg s a = some t) (ht : CanSucceed cfg t) :
    CanSucceed cfg s := by
  obtain ⟨attempts, u, hu, hstatus⟩ := ht
  exact ⟨a :: attempts, u, by rw [run_cons, hs]; exact hu, hstatus⟩

section
variable (hrun : s.status.terminal = false)
include hrun

theorem canSucceed_promote (hjob : .promote ref ∈ s.jobs) :
    CanSucceed cfg s := by
  have hmeets : meetsFailure cfg s (faultless (.promote ref)) = false :=
    meetsFailure_faultless fun _ hn => nomatch hn
  exact CanSucceed.after (processJob_work hjob rfl hmeets hrun) ⟨[], _, rfl, rfl⟩

theorem canSucceed_neighborhoods
    (hon : cfg.enableNeighborhoods = true) (hjob : .neighborhoods ref ∈ s.jobs)
    (hnew : .promote ref ∉ s.jobs) : CanSucceed cfg s := by
  have hmeets : meetsFailure cfg s (faultless (.neighborhoods ref)) = false :=
    meetsFailure_faultless fun _ hn => some.inj hn ▸ hnew
  have hs : processJob cfg s (faultless (.neighborhoods ref)) = _ :=
    processJob_work hjob hon hmeets hrun
  exact CanSucceed.after hs (canSucceed_promote rfl (.head _))

theorem canSucceed_afterCompute
    (hjob : afterCompute cfg ref ∈ s.jobs)
    (hnew : cfg.enableNeighborhoods = true → .promote ref ∉ s.jobs) : CanSucceed cfg s := by
  cases hn : cfg.enableNeighborhoods with
  | true =>
    exact canSucceed_neighborhoods hrun hn (by simpa [afterCompute, hn] using hjob) (hnew hn)
  | false => exact canSucceed_promote hrun (by simpa [afterCompute, hn] using hjob)

end

section
variable (h : Inv cfg s)
include h

theorem Inv.promote_not_mem (hnew : afterCompute cfg ref ∉ s.jobs)
    (hn : cfg.enableNeighborhoods = true) : .promote ref ∉ afterCompute cfg ref :: s.jobs := by
  intro hm
  rcases mem_cons.mp hm with heq | hold
  · simp [afterCompute, hn] at heq
  · exact hnew (h.promote ref hold)

theorem canSucceed_compute (hc : cfg.enableScoreCompute = true)
    (hrun : s.status.terminal = false) (hjob : .compute ref ∈ s.jobs)
    (hnew : afterCompute cfg ref ∉ s.jobs) : CanSucceed cfg s := by
  have hmeets : meetsFailure cfg s (faultless (.compute ref)) = false :=
    meetsFailure_faultless fun _ hn => some.inj hn ▸ hnew
  have hs : processJob cfg s (faultless (.compute ref)) = _ :=
    processJob_work hjob hc hmeets hrun
  exact CanSucceed.after hs
    (canSucceed_afterCompute rfl (.head _) (h.promote_not_mem hnew))

theorem canSucceed_work (hc : cfg.enableScoreCompute = true) {a : Attempt}
    (hjob : a.job ∈ s.jobs) (hon : a.job.enabled cfg = true)
    (hmeets : meetsFailure cfg s a = false) (hrun : s.status.terminal = false) :
    CanSucceed cfg (work cfg s a) := by
  have hinv := inv_work h hjob hon hrun
  cases hj : a.job with
  | sync =>
    have hnew : .compute (syncRef cfg a.ref) ∉ s.jobs :=
      not_mem_of_enqueued hmeets hrun (by simp [enqueued, hj])
    have hafter :
        afterCompute cfg (syncRef cfg a.ref) ∉ .compute (syncRef cfg a.ref) :: s.jobs := by
      intro hm
      rcases mem_cons.mp hm with heq | hold
      · exact afterCompute_ne_compute _ _ heq
      · exact hnew (h.computed _ hold)
    simp only [work, hj] at hinv ⊢
    exact canSucceed_compute hinv hc rfl (.head _) hafter
  | compute ref =>
    have hnew : afterCompute cfg ref ∉ s.jobs :=
      not_mem_of_enqueued hmeets hrun (by simp [enqueued, hj])
    simp only [work, hj]
    exact canSucceed_afterCompute rfl (.head _) (h.promote_not_mem hnew)
  | neighborhoods ref =>
    simp only [work, hj]
    exact canSucceed_promote rfl (.head _)
  | promote ref =>
    simp only [work, hj]
    exact ⟨[], _, rfl, rfl⟩

theorem performs_work {a : Attempt} (hjob : a.job ∈ s.jobs)
    (hrun : s.status.terminal = false) : Performs cfg a s (work cfg s a) := by
  cases hj : a.job with
  | promote ref =>
    rw [hj] at hjob
    simp only [Performs, work, hj, true_and]
    refine ⟨h.staged hrun ref (h.promote ref hjob), fun hn => ?_⟩
    exact ⟨h.members hrun hn ref hjob, if_pos hn⟩
  | _ => simp [Performs, work, hj]

theorem Inv.retriesEffective (hc : cfg.enableScoreCompute = true) :
    RetriesEffective cfg s := by
  intro a t _ hstatus hon hmeets hs
  have hrun : s.status.terminal = false := by
    have hfailed := h.running
    simp [RunStatus.terminal, hstatus, hfailed]
  have hjob : a.job ∈ s.jobs := by
    by_contra hnot
    simp [processJob, hnot] at hs
  rw [processJob_work hjob hon hmeets hrun, Option.some.injEq] at hs
  subst hs
  exact ⟨performs_work h hjob hrun, canSucceed_work h hc hjob hon hmeets hrun⟩

end
end

/-- As long as no failure is recorded, every retry that meets no failing operation does the work of
its job and leaves the run on its way to success, and a run that has succeeded stays so. -/
theorem always_retriesEffective_of_unrecorded (cfg : Config) (hc : cfg.enableScoreCompute = true)
    (attempts : List Attempt) (hg : Guarded (processJob cfg) (Unrecorded cfg) init attempts) :
    Always (processJob cfg) (fun s => RetriesEffective cfg s ∧ SuccessKept s) init attempts := by
  intro _ hp t hr
  have hinv : Inv cfg t := run_invariant (fun _ _ _ h hu hs => inv_processJob h hu hs)
    (inv_init cfg) (guarded_initial hp hg) hr
  exact ⟨hinv.retriesEffective hc, hinv.kept⟩

def allPhases : Config :=
  { enableRedisSync := true, enableScoreCompute := true, enableNeighborhoods := true
    enableSeedTeleport := true, enableInteractionGraph := true }

def diesAt (job : Job) (op : Operation) : Attempt :=
  { job := job, ref := "sync-1", fails := fun o => o = op, recorded := false, cleared := false }

def failsAt (job : Job) (op : Operation) : Attempt :=
  { job := job, ref := "sync-1", fails := fun o => o = op, recorded := true, cleared := true }

def dyingWorkers : List Attempt :=
  [diesAt .sync .commit, faultless .sync, diesAt (.compute "sync-1") .loadAdjacency,
    faultless (.compute "sync-1"), diesAt (.neighborhoods "sync-1") .writeNeighborhoods,
    faultless (.neighborhoods "sync-1"), diesAt (.promote "sync-1") .publishScores,
    faultless (.promote "sync-1")]

theorem retries_after_dying_workers :
    ((run (processJob allPhases) init dyingWorkers).map fun s => (s.status, s.published)) =
        some (.succeeded, some "sync-1") ∧
      Always (processJob allPhases) (fun s => RetriesEffective allPhases s ∧ SuccessKept s) init
        dyingWorkers :=
  ⟨by decide, always_retriesEffective_of_unrecorded allPhases rfl dyingWorkers
    (by decide)⟩

/-- The promote fails once, or a second promote fails after the first. -/
theorem recorded_failure_ends_retries : (∃ s, run (processJob allPhases) init
        [faultless .sync, faultless (.compute "sync-1"), faultless (.neighborhoods "sync-1"),
          failsAt (.promote "sync-1") .publishScores] = some s ∧
      s.failedJobs = [.promote "sync-1"] ∧
      meetsFailure allPhases s (faultless (.promote "sync-1")) = false ∧
      processJob allPhases s (faultless (.promote "sync-1")) = some s ∧ s.status = .failed ∧
      s.published = none ∧ ¬ RetriesEffective allPhases s) ∧ ∃ s, run (processJob allPhases) init
        [faultless .sync, faultless (.compute "sync-1"), faultless (.neighborhoods "sync-1"),
          faultless (.promote "sync-1"), failsAt (.promote "sync-1") .beginTx] = some s ∧
      s.succeededOnce = true ∧ s.status = .failed ∧ ¬ SuccessKept s := by
  refine ⟨⟨_, rfl, rfl, rfl, rfl, rfl, rfl, fun h => ?_⟩, ⟨_, rfl, rfl, rfl, fun h => ?_⟩⟩
  · have hretry := h (faultless (.promote "sync-1")) _ (.head _) nofun rfl rfl rfl
    exact absurd hretry.1.1 nofun
  · exact absurd (h rfl) nofun

end NostrMash.Trust.Retry.RunState
