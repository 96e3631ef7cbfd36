import NostrMash.JobSteps
import NostrMash.Machine

/-!
# Attempts at jobs

A claim starts an attempt at each job it returns, and the attempt later reports with `CompleteJob`
or `FailJob` under the identifier of its worker, which all goroutines of a process share.
-/

namespace NostrMash.Queue
structure Attempt where
  jobID : ℕ
  workerID : String
  /-- The claims and recoveries of the job up to the claim of the attempt. -/
  epoch : ℕ
  deriving DecidableEq

structure LeaseState where
  table : JobTable
  epochs : ℕ → ℕ
  attempts : List Attempt

inductive LeaseAction where
  /-- A call other than a report. -/
  | call (call : Call)
  | complete (attempt : Attempt) (fault : Option String) (now : ℤ)
  | fail (attempt : Attempt) (fault : Option String) (lastError : String)
      (retryAfter clock now : ℤ)
  /-- The attempt ends without a report. -/
  | abandon (attempt : Attempt)

def LeaseState.init : LeaseState := { table := .empty, epochs := fun _ => 0, attempts := [] }

def countIn (ids : List ℕ) (epochs : ℕ → ℕ) (id : ℕ) : ℕ :=
  if id ∈ ids then epochs id + 1 else epochs id

def LeaseState.start (s : LeaseState) (workerID : String) (claimed : List Job) (T : JobTable) :
    LeaseState where
  table := T
  epochs := countIn (claimed.map (·.id)) s.epochs
  attempts := claimed.map (fun job => ⟨job.id, workerID, s.epochs job.id + 1⟩) ++ s.attempts

def LeaseState.claim (s : LeaseState) (fault : Option String) (workerID workerPool : String)
    (limit : ℤ) (locked : ℕ → Bool) (now : ℤ) : LeaseState :=
  match claimAvailableForPool s.table fault workerID workerPool limit locked now with
  | .ok (claimed, T) => s.start workerID claimed T
  | .error _ => s

def LeaseState.recover (s : LeaseState) (fault : Option String) (workerPool : String)
    (olderThan : Option ℤ) (limit : ℤ) (locked : ℕ → Bool) (now : ℤ) : LeaseState :=
  match recoverStaleRunningJobs s.table fault workerPool olderThan limit locked now, olderThan with
  | .ok (_, T), some cutoff =>
    let ids := (stale s.table (trimSpace workerPool) cutoff limit.toNat locked).map (·.id)
    { s with table := T, epochs := countIn ids s.epochs }
  | _, _ => s

def LeaseState.callStep (s : LeaseState) : Call → Option LeaseState
  | .claimAvailableForPool fault workerID workerPool limit locked now =>
    some (s.claim fault workerID workerPool limit locked now)
  | .recoverStaleRunningJobs fault workerPool olderThan limit locked now =>
    some (s.recover fault workerPool olderThan limit locked now)
  | .enqueue fault clock now params =>
    some { s with table := (Call.enqueue fault clock now params).exec s.table }
  | .enqueueEventJobTx fault contextPool jobType eventID suffix maxAttempts now =>
    some { s with
      table := (Call.enqueueEventJobTx fault contextPool jobType eventID suffix maxAttempts
        now).exec s.table }
  | .purgeTerminalJobs succeededFault deadFault succeededBefore deadBefore limit =>
    some { s with
      table := (Call.purgeTerminalJobs succeededFault deadFault succeededBefore deadBefore
        limit).exec s.table }
  | .completeJob _ _ _ _ => none
  | .failJob _ _ _ _ _ _ _ => none

def leaseStep (s : LeaseState) : LeaseAction → Option LeaseState
  | .call call => s.callStep call
  | .complete a fault now =>
    if a ∈ s.attempts then
      some { s with
        table := orSame s.table (completeJob s.table fault a.jobID a.workerID now)
        attempts := s.attempts.erase a }
    else none
  | .fail a fault lastError retryAfter clock now =>
    if a ∈ s.attempts then
      some { s with
        table := orSame s.table
          ((failJob s.table fault a.jobID a.workerID lastError retryAfter clock now).map (·.2))
        attempts := s.attempts.erase a }
    else none
  | .abandon a =>
    if a ∈ s.attempts then some { s with attempts := s.attempts.erase a } else none

/-- The job was neither claimed nor recovered since the claim of the attempt. -/
def LeaseState.IsCurrent (s : LeaseState) (a : Attempt) : Prop := a.epoch = s.epochs a.jobID

/-- The report of an attempt takes effect only if the attempt is current. -/
def Fenced (s : LeaseState) : Prop :=
  ∀ a ∈ s.attempts,
    (∀ fault now T, completeJob s.table fault a.jobID a.workerID now = .ok T → s.IsCurrent a) ∧
      ∀ fault lastError retryAfter clock now r,
        failJob s.table fault a.jobID a.workerID lastError retryAfter clock now = .ok r →
          s.IsCurrent a

/-- A worker claims no job of which an earlier attempt of its own has not reported. -/
def NoReclaim (s : LeaseState) : LeaseAction → Prop
  | .call (.claimAvailableForPool fault workerID workerPool limit locked now) =>
    fault = none → trimSpace workerPool ≠ "" → ∀ a ∈ s.attempts,
      trimSpace a.workerID = trimSpace workerID →
        ∀ job ∈ claimable s.table (trimSpace workerPool) (if limit ≤ 0 then 1 else limit.toNat)
          locked now, job.id ≠ a.jobID
  | _ => True

variable {s : LeaseState} {a : Attempt} {T : JobTable}

def Owned (T : JobTable) (a : Attempt) : Prop :=
  ∃ row ∈ T.rows, row.ownedBy a.jobID (trimSpace a.workerID) = true

theorem exists_completeJob (hne : trimSpace a.workerID ≠ "") (h : Owned T a) :
    ∃ T', completeJob T none a.jobID a.workerID 0 = .ok T' := by
  obtain ⟨row, hrow, howned⟩ := h
  obtain ⟨found, hfound⟩ : ∃ found,
      T.rows.find? (Job.ownedBy a.jobID (trimSpace a.workerID)) = some found :=
    Option.isSome_iff_exists.mp (List.find?_isSome.mpr ⟨row, hrow, howned⟩)
  unfold completeJob
  rw [if_neg hne, hfound]
  exact ⟨_, rfl⟩

theorem fenced_iff (hne : ∀ a ∈ s.attempts, trimSpace a.workerID ≠ "") :
    Fenced s ↔ ∀ a ∈ s.attempts, Owned s.table a → s.IsCurrent a := by
  constructor
  · intro h a ha howned
    obtain ⟨T, hT⟩ := exists_completeJob (hne a ha) howned
    exact (h a ha).1 none 0 T hT
  · intro h a ha
    refine ⟨fun fault now T hT => h a ha (completeJob_eq_ok hT).1, ?_⟩
    intro fault lastError retryAfter clock now r hr
    obtain ⟨row, hrow, howned, -⟩ := failJob_eq_ok hr
    exact h a ha ⟨row, hrow, howned⟩

def NoneStarted (T T' : JobTable) : Prop :=
  ∀ row ∈ T'.rows, row.status = .running → row ∈ T.rows

theorem Owned.of_noneStarted {T' : JobTable} (h : NoneStarted T T') (howned : Owned T' a) :
    Owned T a := by
  obtain ⟨row, hrow, hown⟩ := howned
  exact ⟨row, h row hrow (of_decide_eq_true hown).2.1, hown⟩

theorem noneStarted_update {p : Job → Bool} {f : Job → Job} (hf : ∀ job, (f job).SameKeys job)
    (hstatus : ∀ job, (f job).status ≠ .running) :
    NoneStarted T (T.update p f hf) := by
  intro row hrow hrunning
  obtain ⟨job, hjob, rfl⟩ := List.mem_map.mp hrow
  split_ifs at hrunning ⊢
  · exact absurd hrunning (hstatus job)
  · exact hjob

theorem status_unsuccessful (job : Job) (lastError : String) (retryAt deadAt now : ℤ) :
    (job.unsuccessful lastError retryAt deadAt now).status ≠ .running := by
  unfold Job.unsuccessful
  split_ifs <;> exact nofun

end NostrMash.Queue
