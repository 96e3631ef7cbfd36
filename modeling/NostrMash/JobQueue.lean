import NostrMash.JobTable
import NostrMash.Text
import NostrMash.OldestFirst

/-!
# The job queue

The calls of `Queue` and the enqueue of event jobs, on the table of jobs. `now` is the clock of the
database and `clock` that of the calling process. A fault is the error of a statement or of the
commit, and leaves the table as it was.
-/

namespace NostrMash.Queue

def workerPoolForJobType (jobType : String) : String :=
  if "trust_".toList.isPrefixOf (trimSpace jobType).toList then "trust" else "default"

def newJob (jobType workerPool : String) (payload : Payload) (idempotencyKey : Option String)
    (maxAttempts : ℤ) (runAfter now : ℤ) : Job :=
  { id := 0, jobType := jobType, workerPool := workerPool, payload := payload
    idempotencyKey := idempotencyKey, status := .pending, attempts := 0
    maxAttempts := maxAttempts.toNat, runAfter := runAfter, lockedAt := none, lockedBy := none
    lastError := none, createdAt := now, updatedAt := now, finishedAt := none }

def defaultMaxAttempts (maxAttempts : ℤ) : ℤ := if maxAttempts ≤ 0 then 5 else maxAttempts

def int4Fault (n : ℤ) : Option String :=
  if 2147483647 < n then some "greater than maximum value for int4" else none

structure EnqueueParams where
  jobType : String
  workerPool : String
  payload : String
  idempotencyKey : String
  maxAttempts : ℤ
  /-- The zero time is `none`. -/
  runAfter : Option ℤ

def EnqueueParams.job (params : EnqueueParams) (clock now : ℤ) : Job :=
  let jobType := trimSpace params.jobType
  let key := trimSpace params.idempotencyKey
  let pool := trimSpace params.workerPool
  newJob jobType (if pool = "" then workerPoolForJobType jobType else pool)
    (.raw (if params.payload = "" then "\x7b\x7d" else params.payload))
    (if key = "" then none else some key) (defaultMaxAttempts params.maxAttempts)
    (params.runAfter.getD clock) now

def enqueue (T : JobTable) (fault : Option String) (clock now : ℤ) (params : EnqueueParams) :
    Except String (Job × JobTable) :=
  if trimSpace params.jobType = "" then .error "job type is required"
  else
    match fault <|> int4Fault (defaultMaxAttempts params.maxAttempts) with
    | some err => .error ("enqueue job: " ++ err)
    | none => .ok (T.insertJob (params.job clock now))

def eventJobKey (jobType eventID suffix : String) : String :=
  if trimSpace suffix = "" then jobType ++ ":" ++ eventID
  else jobType ++ ":" ++ eventID ++ ":" ++ trimSpace suffix

def eventJobPool (contextPool : Option String) (jobType : String) : String :=
  match (contextPool.map trimSpace).filter (· ≠ "") with
  | some override =>
    if workerPoolForJobType jobType ≠ "trust" then override else workerPoolForJobType jobType
  | none => workerPoolForJobType jobType

def eventJob (contextPool : Option String) (jobType eventID suffix : String)
    (maxAttempts now : ℤ) : Job :=
  newJob jobType (eventJobPool contextPool jobType) (.event eventID)
    (some (eventJobKey jobType eventID suffix)) (defaultMaxAttempts maxAttempts) now now

def enqueueEventJobTx (T : JobTable) (fault contextPool : Option String)
    (jobType eventID suffix : String) (maxAttempts now : ℤ) : Except String JobTable :=
  match fault <|> int4Fault (defaultMaxAttempts maxAttempts) with
  | some err => .error ("enqueue " ++ jobType ++ " for event " ++ eventID ++ ": " ++ err)
  | none => .ok (T.insertJob (eventJob contextPool jobType eventID suffix maxAttempts now)).2

def claimable (T : JobTable) (workerPool : String) (limit : ℕ) (locked : ℕ → Bool) (now : ℤ) :
    List Job :=
  oldest Job.runAfter limit (T.rows.filter fun job =>
    job.status = .pending ∧ job.workerPool = workerPool ∧ job.runAfter ≤ now ∧ ¬ locked job.id)

def Job.claimed (workerID : String) (now : ℤ) (job : Job) : Job :=
  { job with
    status := .running, lockedAt := some now, lockedBy := some workerID, updatedAt := now }

def JobTable.claim (T : JobTable) (workerID : String) (now : ℤ) (rows : List Job) :
    List Job × JobTable :=
  (rows.map (Job.claimed workerID now),
    T.update (·.id ∈ rows.map (·.id)) (Job.claimed workerID now) fun _ => ⟨rfl, rfl⟩)

def claimAvailableForPool (T : JobTable) (fault : Option String) (workerID workerPool : String)
    (limit : ℤ) (locked : ℕ → Bool) (now : ℤ) : Except String (List Job × JobTable) :=
  if trimSpace workerID = "" then .error "worker id is required"
  else if trimSpace workerPool = "" then .error "worker pool is required"
  else
    match fault with
    | some err => .error err
    | none => .ok (T.claim (trimSpace workerID) now
        (claimable T (trimSpace workerPool) (if limit ≤ 0 then 1 else limit.toNat) locked now))

def Job.ownedBy (jobID : ℕ) (workerID : String) (job : Job) : Bool :=
  job.id = jobID ∧ job.status = .running ∧ job.lockedBy = some workerID

def Job.completed (now : ℤ) (job : Job) : Job :=
  { job with
    status := .succeeded, lockedAt := none, lockedBy := none, lastError := none
    updatedAt := now, finishedAt := some now }

def completeJob (T : JobTable) (fault : Option String) (jobID : ℕ) (workerID : String) (now : ℤ) :
    Except String JobTable :=
  if trimSpace workerID = "" then .error "worker id is required"
  else
    match fault, T.rows.find? (Job.ownedBy jobID (trimSpace workerID)) with
    | some err, _ => .error ("complete job: " ++ err)
    | none, none => .error "job is not locked by worker"
    | none, some _ => .ok (T.update (Job.ownedBy jobID (trimSpace workerID)) (Job.completed now)
        fun _ => ⟨rfl, rfl⟩)

def Job.unsuccessful (lastError : String) (retryAt deadAt now : ℤ) (job : Job) : Job :=
  { job with
    status := if job.maxAttempts ≤ job.attempts + 1 then .dead else .pending
    attempts := job.attempts + 1
    runAfter := if job.maxAttempts ≤ job.attempts + 1 then deadAt else retryAt
    lockedAt := none, lockedBy := none, lastError := some lastError, updatedAt := now
    finishedAt := if job.maxAttempts ≤ job.attempts + 1 then some now else job.finishedAt }

structure FailureResult where
  status : Status
  attempts : ℕ
  maxAttempts : ℕ
  deriving DecidableEq

def failureText (lastError : String) : String :=
  if trimSpace lastError = "" then "unknown job error" else trimSpace lastError

def Job.failed (lastError : String) (retryAfter clock now : ℤ) (job : Job) : Job :=
  job.unsuccessful (failureText lastError) (clock + max retryAfter 0) clock now

def failJob (T : JobTable) (fault : Option String) (jobID : ℕ) (workerID lastError : String)
    (retryAfter clock now : ℤ) : Except String (FailureResult × JobTable) :=
  if trimSpace workerID = "" then .error "worker id is required"
  else
    match fault, T.rows.find? (Job.ownedBy jobID (trimSpace workerID)) with
    | some err, _ => .error err
    | none, none => .error "job is not locked by worker"
    | none, some row =>
      let next := row.failed lastError retryAfter clock now
      .ok (⟨next.status, next.attempts, row.maxAttempts⟩,
        T.update (·.id = jobID) (Job.failed lastError retryAfter clock now) fun _ => ⟨rfl, rfl⟩)

def staleRunningRecoveryError : String := "job lease expired / worker lost before completion"

def stale (T : JobTable) (workerPool : String) (olderThan : ℤ) (limit : ℕ) (locked : ℕ → Bool) :
    List Job :=
  oldest (fun job => job.lockedAt.getD 0) limit (T.rows.filter fun job =>
    job.status = .running ∧ job.workerPool = workerPool ∧ job.lockedAt.any (· < olderThan) ∧
      ¬ locked job.id)

/-- A dead job keeps its `run_after` here, unlike in `FailJob`. -/
def Job.recovered (now : ℤ) (job : Job) : Job :=
  job.unsuccessful staleRunningRecoveryError now job.runAfter now

structure RecoveryResult where
  recovered : ℕ
  deadLettered : ℕ
  deriving DecidableEq

def JobTable.recover (T : JobTable) (now : ℤ) (rows : List Job) : RecoveryResult × JobTable :=
  let recovered := rows.map (Job.recovered now)
  ({ recovered := recovered.countP (·.status = .pending)
     deadLettered := recovered.countP (·.status = .dead) },
    T.update (·.id ∈ rows.map (·.id)) (Job.recovered now) fun _ => ⟨rfl, rfl⟩)

def recoverStaleRunningJobs (T : JobTable) (fault : Option String) (workerPool : String)
    (olderThan : Option ℤ) (limit : ℤ) (locked : ℕ → Bool) (now : ℤ) :
    Except String (RecoveryResult × JobTable) :=
  if trimSpace workerPool = "" then .error "worker pool is required"
  else
    match olderThan with
    | none => .error "olderThan is required"
    | some olderThan =>
      if limit ≤ 0 then .error "limit must be > 0"
      else
        match fault with
        | some err => .error ("recover stale running jobs: " ++ err)
        | none =>
          .ok (T.recover now (stale T (trimSpace workerPool) olderThan limit.toNat locked))

def purgeTerminalStatus (T : JobTable) (status : Status) (finishedBefore : ℤ) (limit : ℕ) :
    ℕ × JobTable :=
  let ids := (oldest (fun job => job.finishedAt.getD 0) limit (T.rows.filter fun job =>
    job.status = status ∧ job.finishedAt.any (· < finishedBefore))).map (·.id)
  (ids.length, T.delete fun job => job.id ∈ ids)

structure PurgeOutcome where
  deleted : ℕ
  err : Option String
  table : JobTable

def purgeTerminalJobs (T : JobTable) (succeededFault deadFault : Option String)
    (succeededBefore deadBefore : Option ℤ) (limit : ℤ) : PurgeOutcome :=
  if limit ≤ 0 then ⟨0, some "limit must be > 0", T⟩
  else if succeededBefore = none ∧ deadBefore = none then
    ⟨0, some "at least one cutoff must be provided", T⟩
  else
    match succeededFault with
    | some err => ⟨0, some ("purge terminal jobs: " ++ err), T⟩
    | none =>
      let succeeded := purgeTerminalStatus T .succeeded (succeededBefore.getD 0) limit.toNat
      let remaining := limit.toNat - succeeded.1
      if remaining = 0 then ⟨succeeded.1, none, succeeded.2⟩
      else
        match deadFault with
        | some err => ⟨succeeded.1, some ("purge terminal jobs: " ++ err), succeeded.2⟩
        | none =>
          let dead := purgeTerminalStatus succeeded.2 .dead (deadBefore.getD 0) remaining
          ⟨succeeded.1 + dead.1, none, dead.2⟩

end NostrMash.Queue
