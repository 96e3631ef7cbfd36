import NostrMash.JobLeases

/-!
# Fencing of stale attempts

A report takes effect whenever the job runs under the name of its worker. The name does not tell
the attempts of one worker apart, so a stale attempt is fenced off exactly as long as its own worker
does not claim the job again.
-/

namespace NostrMash.Queue
open Machine List

structure LeaseInv (s : LeaseState) : Prop where
  named : ∀ a ∈ s.attempts, trimSpace a.workerID ≠ ""
  epoch_le : ∀ a ∈ s.attempts, a.epoch ≤ s.epochs a.jobID

/-- A step that starts no attempt; `ids` are the jobs that it recovers. -/
structure Quiet (s s' : LeaseState) (ids : List ℕ) : Prop where
  epochs_eq : s'.epochs = countIn ids s.epochs
  attempts_sub : ∀ a ∈ s'.attempts, a ∈ s.attempts
  noneStarted : NoneStarted s.table s'.table
  released : ∀ row ∈ s'.table.rows, row.status = .running → row.id ∉ ids

inductive LeaseStep (s s' : LeaseState) (action : LeaseAction) : Prop where
  | claim (workerID workerPool : String) (limit : ℤ) (locked : ℕ → Bool) (now : ℤ) :
      action = .call (.claimAvailableForPool none workerID workerPool limit locked now) →
      trimSpace workerID ≠ "" → trimSpace workerPool ≠ "" →
      s' = s.start workerID
        (s.table.claim (trimSpace workerID) now (claimable s.table (trimSpace workerPool)
          (if limit ≤ 0 then 1 else limit.toNat) locked now)).1
        (s.table.claim (trimSpace workerID) now (claimable s.table (trimSpace workerPool)
          (if limit ≤ 0 then 1 else limit.toNat) locked now)).2 → LeaseStep s s' action
  | quiet (ids : List ℕ) : NoReclaim s action → Quiet s s' ids → LeaseStep s s' action

variable {s s' : LeaseState} {action : LeaseAction} {fault : Option String}
  {workerID workerPool : String} {locked : ℕ → Bool} {limit now : ℤ}

theorem countIn_nil (epochs : ℕ → ℕ) : countIn [] epochs = epochs := by
  funext id
  exact if_neg not_mem_nil

theorem quiet_nil {T : JobTable} {attempts : List Attempt} (hsub : ∀ a ∈ attempts, a ∈ s.attempts)
    (hnone : NoneStarted s.table T) :
    Quiet s { s with table := T, attempts := attempts } [] where
  epochs_eq := (countIn_nil s.epochs).symm
  attempts_sub := hsub
  noneStarted := hnone
  released _ _ _ := not_mem_nil

theorem quiet_refl (s : LeaseState) : Quiet s s [] :=
  quiet_nil (fun _ ha => ha) fun _ hrow _ => hrow

theorem noneStarted_insertJob (T : JobTable) {job : Job} (hnew : job.status = .pending) :
    NoneStarted T (T.insertJob job).2 := by
  intro row hrow hrunning
  rcases T.rows_insertJob job with ⟨hrows, -⟩ | ⟨hrows, -⟩
  · exact hrows ▸ hrow
  · rw [hrows] at hrow
    rcases mem_append.mp hrow with hrow | hrow
    · exact hrow
    · rw [mem_singleton.mp hrow] at hrunning
      exact nomatch hnew.symm.trans hrunning

theorem noneStarted_refl (T : JobTable) : NoneStarted T T := fun _ hrow _ => hrow

theorem noneStarted_complete (T : JobTable) (fault : Option String) (jobID : ℕ)
    (workerID : String) (now : ℤ) :
    NoneStarted T (orSame T (completeJob T fault jobID workerID now)) := by
  refine of_orSame (P := NoneStarted T) (noneStarted_refl T) fun T' h => ?_
  rw [(completeJob_eq_ok h).2]
  exact noneStarted_update _ fun _ => nofun

theorem noneStarted_fail (T : JobTable) (fault : Option String) (jobID : ℕ)
    (workerID lastError : String) (retryAfter clock now : ℤ) : NoneStarted T
      (orSame T ((failJob T fault jobID workerID lastError retryAfter clock now).map (·.2))) := by
  refine of_orSame_map (P := NoneStarted T) (noneStarted_refl T) fun p h => ?_
  obtain ⟨row, -, -, hp⟩ := failJob_eq_ok h
  rw [hp]
  exact noneStarted_update _ fun job => status_unsuccessful job _ _ _ _

theorem quiet_recover (s : LeaseState) (rows : List Job) (now : ℤ) : Quiet s { s with
      table := (s.table.recover now rows).2
      epochs := countIn (rows.map (·.id)) s.epochs } (rows.map (·.id)) := by
  refine ⟨rfl, fun _ ha => ha, ?_, ?_⟩
  · exact noneStarted_update (f := Job.recovered now) (fun _ => ⟨rfl, rfl⟩)
      fun job => status_unsuccessful job _ _ _ _
  · intro row hrow hrunning hid
    obtain ⟨job, hjob, rfl⟩ := mem_map.mp hrow
    split_ifs at hrunning hid with hmem
    · exact status_unsuccessful job _ _ _ _ hrunning
    · exact hmem (decide_eq_true hid)

theorem noReclaim_of_error {err : String} (h : LeaseInv s)
    (herr : claimAvailableForPool s.table fault workerID workerPool limit locked now = .error err) :
    NoReclaim s (.call (.claimAvailableForPool fault workerID workerPool limit locked now)) := by
  rintro rfl hpool a ha hsame
  have hworker : trimSpace workerID ≠ "" := hsame ▸ h.named a ha
  rw [claimAvailableForPool, if_neg hworker, if_neg hpool] at herr
  exact nomatch herr

theorem leaseStep_claim (h : LeaseInv s) :
    LeaseStep s (s.claim fault workerID workerPool limit locked now)
      (.call (.claimAvailableForPool fault workerID workerPool limit locked now)) := by
  unfold LeaseState.claim
  split
  · rename_i claimed T hclaim
    obtain ⟨⟨hworker, hpool, rfl⟩, hr⟩ := claimAvailableForPool_eq_ok hclaim
    refine .claim workerID workerPool limit locked now rfl hworker hpool ?_
    rw [← hr]
  · rename_i err herr
    exact .quiet [] (noReclaim_of_error h herr) (quiet_refl s)

theorem leaseStep_recover {olderThan : Option ℤ} :
    LeaseStep s (s.recover fault workerPool olderThan limit locked now)
      (.call (.recoverStaleRunningJobs fault workerPool olderThan limit locked now)) := by
  unfold LeaseState.recover
  split
  · rename_i result T cutoff hrecover
    obtain ⟨cutoff', hcutoff, hr⟩ := recoverStaleRunningJobs_eq_ok hrecover
    have hT : T = _ := congrArg Prod.snd hr
    rw [hT, Option.some.inj hcutoff]
    exact .quiet _ trivial (quiet_recover s _ now)
  · exact .quiet [] trivial (quiet_refl s)

theorem leaseStep_call {call : Call} (h : LeaseInv s) (hs : s.callStep call = some s') :
    LeaseStep s s' (.call call) := by
  cases call with
  | claimAvailableForPool fault workerID workerPool limit locked now =>
    cases hs
    exact leaseStep_claim h
  | recoverStaleRunningJobs fault workerPool olderThan limit locked now =>
    cases hs
    exact leaseStep_recover
  | enqueue fault clock now params =>
    cases hs
    refine .quiet [] trivial (quiet_nil (fun _ ha => ha) ?_)
    refine of_orSame_map (P := NoneStarted s.table) (noneStarted_refl _) fun p hp => ?_
    rw [enqueue_eq_ok hp]
    exact noneStarted_insertJob _ rfl
  | enqueueEventJobTx fault contextPool jobType eventID suffix maxAttempts now =>
    cases hs
    refine .quiet [] trivial (quiet_nil (fun _ ha => ha) ?_)
    refine of_orSame (P := NoneStarted s.table) (noneStarted_refl _) fun T hT => ?_
    rw [enqueueEventJobTx_eq_ok hT]
    exact noneStarted_insertJob _ rfl
  | purgeTerminalJobs succeededFault deadFault succeededBefore deadBefore limit =>
    cases hs
    refine .quiet [] trivial (quiet_nil (fun _ ha => ha) fun row hrow _ => ?_)
    exact (purges_purgeTerminalJobs s.table _ _ _ _ _).sub row hrow
  | completeJob fault jobID workerID now => exact nomatch hs
  | failJob fault jobID workerID lastError retryAfter clock now => exact nomatch hs

theorem leaseStep_cases (h : LeaseInv s) (hs : leaseStep s action = some s') :
    LeaseStep s s' action := by
  cases action with
  | call call => exact leaseStep_call h hs
  | complete a fault now =>
    simp only [leaseStep, Option.ite_none_right_eq_some, Option.some.injEq] at hs
    rw [← hs.2]
    exact .quiet [] trivial (quiet_nil (fun _ ha => mem_of_mem_erase ha)
      (noneStarted_complete _ _ _ _ _))
  | fail a fault lastError retryAfter clock now =>
    simp only [leaseStep, Option.ite_none_right_eq_some, Option.some.injEq] at hs
    rw [← hs.2]
    exact .quiet [] trivial (quiet_nil (fun _ ha => mem_of_mem_erase ha)
      (noneStarted_fail _ _ _ _ _ _ _ _))
  | abandon a =>
    simp only [leaseStep, Option.ite_none_right_eq_some, Option.some.injEq] at hs
    rw [← hs.2]
    exact .quiet [] trivial (quiet_nil (fun _ ha => mem_of_mem_erase ha) fun _ hrow _ => hrow)

theorem le_countIn (ids : List ℕ) (epochs : ℕ → ℕ) (id : ℕ) :
    epochs id ≤ countIn ids epochs id := by
  unfold countIn
  split_ifs <;> omega

theorem leaseInv_step (h : LeaseInv s) (hs : leaseStep s action = some s') : LeaseInv s' := by
  cases leaseStep_cases h hs with
  | claim workerID workerPool limit locked now _ hworker _ hs' =>
    rw [hs']
    refine ⟨fun a ha => ?_, fun a ha => ?_⟩
    · rcases mem_append.mp ha with ha | ha
      · obtain ⟨job, -, rfl⟩ := mem_map.mp ha
        exact hworker
      · exact h.named a ha
    · rcases mem_append.mp ha with ha | ha
      · obtain ⟨job, hjob, rfl⟩ := mem_map.mp ha
        exact (if_pos (mem_map_of_mem hjob)).ge
      · exact (h.epoch_le a ha).trans (le_countIn _ _ _)
  | quiet ids _ hquiet =>
    refine ⟨fun a ha => h.named a (hquiet.attempts_sub a ha), fun a ha => ?_⟩
    rw [hquiet.epochs_eq]
    exact (h.epoch_le a (hquiet.attempts_sub a ha)).trans (le_countIn _ _ _)

theorem fenced_quiet (h : LeaseInv s) (h' : LeaseInv s') (hf : Fenced s) {ids : List ℕ}
    (hquiet : Quiet s s' ids) : Fenced s' := by
  rw [fenced_iff h.named] at hf
  rw [fenced_iff h'.named]
  intro a ha howned
  have hcurrent : a.epoch = s.epochs a.jobID :=
    hf a (hquiet.attempts_sub a ha) (howned.of_noneStarted hquiet.noneStarted)
  obtain ⟨row, hrow, hown⟩ := howned
  obtain ⟨hid, hrunning, -⟩ := of_decide_eq_true hown
  have hout : a.jobID ∉ ids := hid ▸ hquiet.released row hrow hrunning
  rw [LeaseState.IsCurrent, hquiet.epochs_eq, countIn, if_neg hout]
  exact hcurrent

theorem map_id_claimed (rows : List Job) (workerID : String) (now : ℤ) :
    (rows.map (Job.claimed workerID now)).map (·.id) = rows.map (·.id) := by
  rw [map_map]
  rfl

theorem fenced_claim_iff (h : LeaseInv s) (hf : Fenced s) {rows : List Job}
    (hrows : ∀ job ∈ rows, job ∈ s.table.rows)
    (h' : LeaseInv (s.start workerID (s.table.claim (trimSpace workerID) now rows).1
      (s.table.claim (trimSpace workerID) now rows).2)) :
    Fenced (s.start workerID (s.table.claim (trimSpace workerID) now rows).1
        (s.table.claim (trimSpace workerID) now rows).2) ↔
      ∀ a ∈ s.attempts, trimSpace a.workerID = trimSpace workerID →
        ∀ job ∈ rows, job.id ≠ a.jobID := by
  rw [fenced_iff h.named] at hf
  rw [fenced_iff h'.named]
  have hepoch : ∀ id, (s.start workerID (s.table.claim (trimSpace workerID) now rows).1
      (s.table.claim (trimSpace workerID) now rows).2).epochs id =
        countIn (rows.map (·.id)) s.epochs id := by
    intro id
    show countIn ((rows.map _).map _) _ _ = _
    rw [map_id_claimed]
  constructor
  · intro hfenced a ha hsame job hjob hid
    have howned : Owned (s.table.claim (trimSpace workerID) now rows).2 a := by
      refine ⟨job.claimed (trimSpace workerID) now, mem_map.mpr ⟨job, hrows job hjob, ?_⟩, ?_⟩
      · exact if_pos (decide_eq_true (mem_map_of_mem hjob))
      · exact decide_eq_true ⟨hid, rfl, congrArg some hsame.symm⟩
    have hcurrent := hfenced a (mem_append_right _ ha) howned
    have hle := h.epoch_le a ha
    rw [LeaseState.IsCurrent, hepoch, countIn, if_pos (hid ▸ mem_map_of_mem hjob)] at hcurrent
    omega
  · intro hfree a ha howned
    rw [LeaseState.IsCurrent, hepoch]
    rcases mem_append.mp ha with ha | ha
    · obtain ⟨job, hjob, rfl⟩ := mem_map.mp ha
      obtain ⟨row, hrow, rfl⟩ := mem_map.mp hjob
      exact (if_pos (mem_map_of_mem hrow)).symm
    · obtain ⟨row, hrow, hown⟩ := howned
      obtain ⟨old, hold, rfl⟩ := mem_map.mp hrow
      obtain ⟨hid, -, hby⟩ := of_decide_eq_true hown
      by_cases hmem : old.id ∈ rows.map (·.id)
      · rw [if_pos (decide_eq_true hmem)] at hid hby
        obtain ⟨job, hjob, hjobid⟩ := mem_map.mp hmem
        exact absurd (hjobid.trans hid) (hfree a ha (Option.some.inj hby).symm job hjob)
      · have hsame : (if decide (old.id ∈ rows.map (·.id)) = true then
            old.claimed (trimSpace workerID) now else old) = old :=
          if_neg (by simpa using hmem)
        rw [hsame] at hown hid
        rw [countIn, if_neg (hid ▸ hmem)]
        exact hf a ha ⟨old, hold, hown⟩

theorem fenced_step_iff (h : LeaseInv s) (hf : Fenced s) (hs : leaseStep s action = some s') :
    Fenced s' ↔ NoReclaim s action := by
  have h' := leaseInv_step h hs
  cases leaseStep_cases h hs with
  | claim workerID workerPool limit locked now haction hworker hpool hs' =>
    subst hs' haction
    rw [fenced_claim_iff h hf (fun _ => mem_of_mem_claimable) h']
    exact ⟨fun hfree _ _ => hfree, fun hfree => hfree rfl hpool⟩
  | quiet ids hfree hquiet => exact iff_of_true (fenced_quiet h h' hf hquiet) hfree

theorem noReclaim_of_none (hs : leaseStep s action = none) : NoReclaim s action := by
  cases action with
  | call call =>
    cases call with
    | claimAvailableForPool fault workerID workerPool limit locked now => exact nomatch hs
    | _ => trivial
  | _ => trivial

/-- In every state of a run the reports of stale attempts are without effect exactly if no worker
claims a job again before its earlier attempt at the job has reported. -/
theorem always_fenced_iff_noReclaim (actions : List LeaseAction) :
    Always leaseStep Fenced .init actions ↔ Guarded leaseStep NoReclaim .init actions := by
  refine always_iff_guarded (J := LeaseInv) (fun s action s' h hs => leaseInv_step h hs)
    (fun s action s' h hf hs => fenced_step_iff h hf hs)
    (fun s action _ _ hs => noReclaim_of_none hs) ?_ ?_
  · exact ⟨fun a ha => absurd ha not_mem_nil, fun a ha => absurd ha not_mem_nil⟩
  · exact fun a ha => absurd ha not_mem_nil

def bundleParams : EnqueueParams :=
  { jobType := "derive_event_bundle", workerPool := "", payload := "", idempotencyKey := ""
    maxAttempts := 5, runAfter := none }

def slowAttempt : List LeaseAction :=
  [.call (.enqueue none 0 0 bundleParams),
    .call (.claimAvailableForPool none "host:1" "default" 1 (fun _ => false) 0),
    .call (.recoverStaleRunningJobs none "default" (some 900) 100 (fun _ => false) 1800),
    .call (.claimAvailableForPool none "host:1" "default" 1 (fun _ => false) 1800)]

theorem slowAttempt_completes_newer : ∃ s, run leaseStep .init slowAttempt = some s ∧
    ∃ a ∈ s.attempts, ¬ s.IsCurrent a ∧
      ∃ T, completeJob s.table none a.jobID a.workerID 1801 = .ok T ∧
        T.rows.map (·.status) = [.succeeded] := by
  have hrun : (run leaseStep .init slowAttempt).any (fun s => s.attempts.any fun a =>
      decide (a.epoch ≠ s.epochs a.jobID) &&
        (completeJob s.table none a.jobID a.workerID 1801).toOption.any fun T =>
          decide (T.rows.map (·.status) = [.succeeded])) = true := by decide
  obtain ⟨s, hs, hattempts⟩ := Option.any_eq_true _ _ |>.mp hrun
  obtain ⟨a, ha, hfacts⟩ := any_eq_true.mp hattempts
  rw [Bool.and_eq_true, decide_eq_true_eq] at hfacts
  obtain ⟨T, hT, hstatus⟩ := Option.any_eq_true _ _ |>.mp hfacts.2
  refine ⟨s, hs, a, ha, hfacts.1, T, ?_, of_decide_eq_true hstatus⟩
  cases hc : completeJob s.table none a.jobID a.workerID 1801 with
  | ok T' => rw [hc] at hT; exact congrArg Except.ok (Option.some.inj hT)
  | error err => rw [hc] at hT; exact nomatch hT

end NostrMash.Queue
