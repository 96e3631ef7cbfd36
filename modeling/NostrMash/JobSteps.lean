import NostrMash.JobQueue

/-!
# Steps of the job queue

Every call of the queue changes rows in few ways: a pending row is claimed, a running row completes
or ends without success, a terminal row is deleted, and a pending row is inserted.
-/

namespace NostrMash.Queue
open List
variable {p : Job → Bool}

section

inductive RowStep (job : Job) : Job → Prop where
  | keep : RowStep job job
  | claim (workerID : String) (now : ℤ) : job.status = .pending →
      RowStep job (job.claimed workerID now)
  | complete (now : ℤ) : job.status = .running → RowStep job (job.completed now)
  | fail (lastError : String) (retryAt deadAt now : ℤ) : job.status = .running →
      RowStep job (job.unsuccessful lastError retryAt deadAt now)

def Job.IsNew (job : Job) : Prop :=
  job.status = .pending ∧ job.attempts = 0 ∧ 0 < job.maxAttempts ∧ job.lockedAt = none ∧
    job.lockedBy = none ∧ job.finishedAt = none

structure Evolves (T T' : JobTable) : Prop where
  nextID_le : T.nextID ≤ T'.nextID
  kept : ∀ job ∈ T.rows, (∃ job' ∈ T'.rows, RowStep job job') ∨
    (job.status.isTerminal = true ∧ ∀ row ∈ T'.rows, row.id ≠ job.id)
  origin : ∀ job' ∈ T'.rows, (∃ job ∈ T.rows, RowStep job job') ∨
    (T.nextID ≤ job'.id ∧ job'.IsNew)

variable {T T' T'' : JobTable} {job job' : Job}

theorem RowStep.sameKeys (h : RowStep job job') : job'.SameKeys job := by
  cases h <;> exact ⟨rfl, rfl⟩

theorem evolves_refl (T : JobTable) : Evolves T T :=
  ⟨le_rfl, fun job hjob => .inl ⟨job, hjob, .keep⟩, fun job hjob => .inl ⟨job, hjob, .keep⟩⟩

theorem evolves_update {f : Job → Job} (hf : ∀ job, (f job).SameKeys job)
    (h : ∀ job ∈ T.rows, p job = true → RowStep job (f job)) : Evolves T (T.update p f hf) := by
  have hstep : ∀ job ∈ T.rows, RowStep job (if p job then f job else job) := by
    intro job hjob
    split_ifs with hp
    · exact h job hjob hp
    · exact .keep
  refine ⟨le_rfl, fun job hjob => .inl ⟨_, mem_map_of_mem hjob, hstep job hjob⟩, ?_⟩
  intro job' hjob'
  obtain ⟨job, hjob, rfl⟩ := mem_map.mp hjob'
  exact .inl ⟨job, hjob, hstep job hjob⟩

theorem evolves_insertJob (hnew : job.IsNew) : Evolves T (T.insertJob job).2 := by
  have hnext : T.nextID ≤ (T.insertJob job).2.nextID := by
    rw [T.nextID_insertJob]
    exact Nat.le_succ _
  rcases T.rows_insertJob job with ⟨hrows, -⟩ | ⟨hrows, -⟩
  · refine ⟨hnext, ?_, ?_⟩
    · exact fun row hrow => .inl ⟨row, hrows ▸ hrow, .keep⟩
    · exact fun row hrow => .inl ⟨row, hrows ▸ hrow, .keep⟩
  · refine ⟨hnext, fun row hrow => .inl ⟨row, ?_, .keep⟩, fun row hrow => ?_⟩
    · rw [hrows]
      exact mem_append_left _ hrow
    · rw [hrows] at hrow
      rcases mem_append.mp hrow with hrow | hrow
      · exact .inl ⟨row, hrow, .keep⟩
      · rw [mem_singleton.mp hrow]
        exact .inr ⟨le_rfl, hnew⟩

structure Purges (T T' : JobTable) : Prop where
  nextID_eq : T'.nextID = T.nextID
  sub : ∀ job ∈ T'.rows, job ∈ T.rows
  kept : ∀ job ∈ T.rows, job ∈ T'.rows ∨ job.status.isTerminal = true

theorem Purges.refl (T : JobTable) : Purges T T :=
  ⟨rfl, fun _ hjob => hjob, fun _ hjob => .inl hjob⟩

theorem Purges.trans (h : Purges T T') (h' : Purges T' T'') : Purges T T'' := by
  refine ⟨h'.nextID_eq.trans h.nextID_eq, fun job hjob => h.sub job (h'.sub job hjob), ?_⟩
  intro job hjob
  rcases h.kept job hjob with hkept | hterminal
  · exact h'.kept job hkept
  · exact .inr hterminal

theorem Purges.evolves (h : Purges T T') : Evolves T T' := by
  refine ⟨h.nextID_eq.ge, fun job hjob => ?_, fun job hjob => .inl ⟨job, h.sub job hjob, .keep⟩⟩
  by_cases hkept : job ∈ T'.rows
  · exact .inl ⟨job, hkept, .keep⟩
  · refine .inr ⟨(h.kept job hjob).resolve_left hkept, fun row hrow hid => hkept ?_⟩
    exact JobTable.eq_of_id_eq (h.sub row hrow) hjob hid ▸ hrow

end

variable {status : Status} {workerPool : String} {limit : ℕ} {locked : ℕ → Bool} {now : ℤ}

section

inductive Call where
  | enqueue (fault : Option String) (clock now : ℤ) (params : EnqueueParams)
  | enqueueEventJobTx (fault contextPool : Option String) (jobType eventID suffix : String)
      (maxAttempts now : ℤ)
  | claimAvailableForPool (fault : Option String) (workerID workerPool : String) (limit : ℤ)
      (locked : ℕ → Bool) (now : ℤ)
  | completeJob (fault : Option String) (jobID : ℕ) (workerID : String) (now : ℤ)
  | failJob (fault : Option String) (jobID : ℕ) (workerID lastError : String)
      (retryAfter clock now : ℤ)
  | recoverStaleRunningJobs (fault : Option String) (workerPool : String) (olderThan : Option ℤ)
      (limit : ℤ) (locked : ℕ → Bool) (now : ℤ)
  | purgeTerminalJobs (succeededFault deadFault : Option String)
      (succeededBefore deadBefore : Option ℤ) (limit : ℤ)

def orSame (T : JobTable) : Except String JobTable → JobTable
  | .ok T' => T'
  | .error _ => T

def Call.exec (T : JobTable) : Call → JobTable
  | enqueue fault clock now params =>
    orSame T ((Queue.enqueue T fault clock now params).map (·.2))
  | enqueueEventJobTx fault contextPool jobType eventID suffix maxAttempts now =>
    orSame T (Queue.enqueueEventJobTx T fault contextPool jobType eventID suffix maxAttempts now)
  | claimAvailableForPool fault workerID workerPool limit locked now =>
    orSame T ((Queue.claimAvailableForPool T fault workerID workerPool limit locked now).map (·.2))
  | completeJob fault jobID workerID now =>
    orSame T (Queue.completeJob T fault jobID workerID now)
  | failJob fault jobID workerID lastError retryAfter clock now =>
    orSame T ((Queue.failJob T fault jobID workerID lastError retryAfter clock now).map (·.2))
  | recoverStaleRunningJobs fault workerPool olderThan limit locked now =>
    orSame T
      ((Queue.recoverStaleRunningJobs T fault workerPool olderThan limit locked now).map (·.2))
  | purgeTerminalJobs succeededFault deadFault succeededBefore deadBefore limit =>
    (Queue.purgeTerminalJobs T succeededFault deadFault succeededBefore deadBefore limit).table

def Call.enqueues : Call → Bool
  | enqueue _ _ _ _ => true
  | enqueueEventJobTx _ _ _ _ _ _ _ => true
  | _ => false

variable {T : JobTable} {fault : Option String} {jobType workerID : String} {jobID : ℕ}
  {clock maxAttempts : ℤ}

theorem isNew_newJob {pool : String} {payload : Payload} {key : Option String} {runAfter : ℤ} :
    (newJob jobType pool payload key (defaultMaxAttempts maxAttempts) runAfter now).IsNew := by
  refine ⟨rfl, rfl, ?_, rfl, rfl, rfl⟩
  show 0 < (defaultMaxAttempts maxAttempts).toNat
  unfold defaultMaxAttempts
  split_ifs <;> omega

theorem status_of_mem_batch {age : Job → ℤ} (hp : ∀ job, p job = true → job.status = status)
    {job : Job} (hjob : job ∈ T.rows)
    (hid : job.id ∈ (oldest age limit (T.rows.filter p)).map (·.id)) : job.status = status := by
  obtain ⟨row, hrow, hrowid⟩ := mem_map.mp hid
  obtain ⟨hmem, hstatus⟩ := mem_filter.mp (mem_of_mem_oldest hrow)
  rw [← JobTable.eq_of_id_eq hmem hjob hrowid]
  exact hp row hstatus

theorem enqueue_eq_ok {params : EnqueueParams} {r : Job × JobTable}
    (h : enqueue T fault clock now params = .ok r) :
    r = T.insertJob (params.job clock now) := by
  unfold enqueue at h
  split_ifs at h
  split at h
  · exact nomatch h
  · exact (Except.ok.inj h).symm

theorem enqueueEventJobTx_eq_ok {contextPool : Option String} {eventID suffix : String}
    {T' : JobTable}
    (h : enqueueEventJobTx T fault contextPool jobType eventID suffix maxAttempts now = .ok T') :
    T' = (T.insertJob (eventJob contextPool jobType eventID suffix maxAttempts now)).2 := by
  unfold enqueueEventJobTx at h
  split at h
  · exact nomatch h
  · exact (Except.ok.inj h).symm

theorem claimAvailableForPool_eq_ok {limit : ℤ} {r : List Job × JobTable}
    (h : claimAvailableForPool T fault workerID workerPool limit locked now = .ok r) :
    (trimSpace workerID ≠ "" ∧ trimSpace workerPool ≠ "" ∧ fault = none) ∧
      r = T.claim (trimSpace workerID) now (claimable T (trimSpace workerPool)
        (if limit ≤ 0 then 1 else limit.toNat) locked now) := by
  unfold claimAvailableForPool at h
  split at h
  · exact nomatch h
  · rename_i hworker
    split at h
    · exact nomatch h
    · rename_i hpool
      cases fault with
      | some err => exact nomatch h
      | none => exact ⟨⟨hworker, hpool, rfl⟩, (Except.ok.inj h).symm⟩

theorem completeJob_eq_ok {T' : JobTable} (h : completeJob T fault jobID workerID now = .ok T') :
    (∃ row ∈ T.rows, row.ownedBy jobID (trimSpace workerID) = true) ∧
      T' = T.update (Job.ownedBy jobID (trimSpace workerID)) (Job.completed now)
        fun _ => ⟨rfl, rfl⟩ := by
  unfold completeJob at h
  split_ifs at h
  split at h
  · exact nomatch h
  · exact nomatch h
  · rename_i row hrow
    rw [← Except.ok.inj h]
    exact ⟨⟨row, List.mem_of_find?_eq_some hrow, List.find?_some hrow⟩, rfl⟩

theorem failJob_eq_ok {lastError : String} {retryAfter : ℤ} {r : FailureResult × JobTable}
    (h : failJob T fault jobID workerID lastError retryAfter clock now = .ok r) :
    ∃ row ∈ T.rows, row.ownedBy jobID (trimSpace workerID) = true ∧
      r.2 = T.update (·.id = jobID) (Job.failed lastError retryAfter clock now)
        fun _ => ⟨rfl, rfl⟩ := by
  unfold failJob at h
  split_ifs at h
  split at h
  · exact nomatch h
  · exact nomatch h
  · rename_i row hrow
    rw [← Except.ok.inj h]
    exact ⟨row, List.mem_of_find?_eq_some hrow, List.find?_some hrow, rfl⟩

theorem recoverStaleRunningJobs_eq_ok {olderThan : Option ℤ} {limit : ℤ}
    {r : RecoveryResult × JobTable}
    (h : recoverStaleRunningJobs T fault workerPool olderThan limit locked now = .ok r) :
    ∃ cutoff, olderThan = some cutoff ∧
      r = T.recover now (stale T (trimSpace workerPool) cutoff limit.toNat locked) := by
  unfold recoverStaleRunningJobs at h
  split at h
  · exact nomatch h
  · cases olderThan with
    | none => exact nomatch h
    | some cutoff =>
      dsimp only at h
      split at h
      · exact nomatch h
      · cases fault with
        | some err => exact nomatch h
        | none => exact ⟨cutoff, rfl, (Except.ok.inj h).symm⟩

end

variable {T : JobTable} {P : JobTable → Prop}

theorem mem_of_mem_claimable {job : Job} (h : job ∈ claimable T workerPool limit locked now) :
    job ∈ T.rows :=
  (mem_filter.mp (mem_of_mem_oldest h)).1

theorem evolves_claim (workerID workerPool : String) (limit : ℕ) (locked : ℕ → Bool) (now : ℤ) :
    Evolves T (T.claim workerID now (claimable T workerPool limit locked now)).2 := by
  refine evolves_update (f := Job.claimed workerID now) (fun _ => ⟨rfl, rfl⟩)
    fun job hjob hid => .claim _ _ ?_
  exact status_of_mem_batch (fun row hrow => (of_decide_eq_true hrow).1) hjob
    (of_decide_eq_true hid)

theorem evolves_recover (workerPool : String) (cutoff : ℤ) (limit : ℕ) (locked : ℕ → Bool)
    (now : ℤ) : Evolves T (T.recover now (stale T workerPool cutoff limit locked)).2 := by
  refine evolves_update (f := Job.recovered now) (fun _ => ⟨rfl, rfl⟩)
    fun job hjob hid => .fail _ _ _ _ ?_
  exact status_of_mem_batch (fun row hrow => (of_decide_eq_true hrow).1) hjob
    (of_decide_eq_true hid)

theorem purges_purgeTerminalStatus (T : JobTable) (hs : status.isTerminal = true)
    (finishedBefore : ℤ) (limit : ℕ) :
    Purges T (purgeTerminalStatus T status finishedBefore limit).2 := by
  refine ⟨rfl, fun job hjob => (mem_filter.mp hjob).1, fun job hjob => ?_⟩
  by_cases hid : job.id ∈ (oldest (fun job => job.finishedAt.getD 0) limit
      (T.rows.filter fun job => job.status = status ∧
        job.finishedAt.any (· < finishedBefore))).map (·.id)
  · have hstatus : job.status = status :=
      status_of_mem_batch (fun row hrow => (of_decide_eq_true hrow).1) hjob hid
    exact .inr (hstatus ▸ hs)
  · refine .inl (mem_filter.mpr ⟨hjob, ?_⟩)
    exact Bool.not_eq_true' _ |>.mpr (decide_eq_false hid)

theorem purges_purgeTerminalJobs (T : JobTable) (succeededFault deadFault : Option String)
    (succeededBefore deadBefore : Option ℤ) (limit : ℤ) : Purges T
      (purgeTerminalJobs T succeededFault deadFault succeededBefore deadBefore limit).table := by
  have hterminal : Status.succeeded.isTerminal = true := rfl
  have hfirst := purges_purgeTerminalStatus T hterminal (succeededBefore.getD 0) limit.toNat
  unfold purgeTerminalJobs
  split_ifs
  · exact .refl T
  · exact .refl T
  · cases succeededFault with
    | some err => exact .refl T
    | none =>
      dsimp only
      split_ifs
      · exact hfirst
      · cases deadFault with
        | some err => exact hfirst
        | none => exact hfirst.trans (purges_purgeTerminalStatus _ rfl _ _)

theorem of_orSame (hsame : P T) {r : Except String JobTable} (h : ∀ T', r = .ok T' → P T') :
    P (orSame T r) := by
  cases r with
  | ok T' => exact h T' rfl
  | error err => exact hsame

theorem of_orSame_map (hsame : P T) {α : Type} {r : Except String (α × JobTable)}
    (h : ∀ p, r = .ok p → P p.2) :
    P (orSame T (r.map (·.2))) := by
  cases r with
  | ok p => exact h p rfl
  | error err => exact hsame

theorem evolves_exec (T : JobTable) (call : Call) : Evolves T (call.exec T) := by
  cases call with
  | enqueue fault clock now params =>
    refine of_orSame_map (P := Evolves T) (evolves_refl T) fun p h => ?_
    rw [enqueue_eq_ok h]
    exact evolves_insertJob isNew_newJob
  | enqueueEventJobTx fault contextPool jobType eventID suffix maxAttempts now =>
    refine of_orSame (P := Evolves T) (evolves_refl T) fun T' h => ?_
    rw [enqueueEventJobTx_eq_ok h]
    exact evolves_insertJob isNew_newJob
  | claimAvailableForPool fault workerID workerPool limit locked now =>
    refine of_orSame_map (P := Evolves T) (evolves_refl T) fun p h => ?_
    rw [(claimAvailableForPool_eq_ok h).2]
    exact evolves_claim _ _ _ _ _
  | completeJob fault jobID workerID now =>
    refine of_orSame (P := Evolves T) (evolves_refl T) fun T' h => ?_
    rw [(completeJob_eq_ok h).2]
    exact evolves_update _ fun job _ howned => .complete now (of_decide_eq_true howned).2.1
  | failJob fault jobID workerID lastError retryAfter clock now =>
    refine of_orSame_map (P := Evolves T) (evolves_refl T) fun p h => ?_
    obtain ⟨row, hrow, howned, hp⟩ := failJob_eq_ok h
    rw [hp]
    refine evolves_update _ fun job hjob hid => .fail _ _ _ _ ?_
    obtain ⟨hrowid, hrunning, -⟩ := of_decide_eq_true howned
    rw [JobTable.eq_of_id_eq hjob hrow ((of_decide_eq_true hid).trans hrowid.symm)]
    exact hrunning
  | recoverStaleRunningJobs fault workerPool olderThan limit locked now =>
    refine of_orSame_map (P := Evolves T) (evolves_refl T) fun p h => ?_
    obtain ⟨cutoff, -, hp⟩ := recoverStaleRunningJobs_eq_ok h
    rw [hp]
    exact evolves_recover _ _ _ _ _
  | purgeTerminalJobs succeededFault deadFault succeededBefore deadBefore limit =>
    exact (purges_purgeTerminalJobs T _ _ _ _ _).evolves

theorem nextID_exec (T : JobTable) {call : Call} (h : call.enqueues = false) :
    (call.exec T).nextID = T.nextID := by
  cases call with
  | enqueue => exact nomatch h
  | enqueueEventJobTx => exact nomatch h
  | claimAvailableForPool =>
    refine of_orSame_map (P := fun T' => T'.nextID = T.nextID) rfl fun p hp => ?_
    rw [(claimAvailableForPool_eq_ok hp).2]
    rfl
  | completeJob =>
    refine of_orSame (P := fun T' => T'.nextID = T.nextID) rfl fun T' hT' => ?_
    rw [(completeJob_eq_ok hT').2]
    rfl
  | failJob =>
    refine of_orSame_map (P := fun T' => T'.nextID = T.nextID) rfl fun p hp => ?_
    obtain ⟨row, -, -, hp⟩ := failJob_eq_ok hp
    rw [hp]
    rfl
  | recoverStaleRunningJobs =>
    refine of_orSame_map (P := fun T' => T'.nextID = T.nextID) rfl fun p hp => ?_
    obtain ⟨cutoff, -, hp⟩ := recoverStaleRunningJobs_eq_ok hp
    rw [hp]
    rfl
  | purgeTerminalJobs => exact (purges_purgeTerminalJobs T _ _ _ _ _).nextID_eq

end NostrMash.Queue
