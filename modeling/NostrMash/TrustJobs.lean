import NostrMash.TrustRuns

/-!
# Attempts of the jobs of a trust run

An attempt of a job runs the operations of its phase one after the other and stops at the first one
that fails. It reads the status of its run after the first few operations, and skips the rest when
the run is finished.
-/

namespace NostrMash.Trust.Retry

structure Config where
  enableRedisSync : Bool
  enableScoreCompute : Bool
  enableNeighborhoods : Bool
  enableSeedTeleport : Bool
  enableInteractionGraph : Bool

inductive Job where
  | sync
  | compute (ref : String)
  | neighborhoods (ref : String)
  | promote (ref : String)
  deriving DecidableEq

inductive Operation where
  | writeGraphSnapshot
  | setActiveSnapshot
  | beginTx
  | setStatementTimeout
  | lockRun
  | countFollowerEdges
  | markRunning
  | enqueueNext
  | setJobID
  | commit
  | markPhase
  | commitClaim
  | loadAdjacency
  | loadActiveSeeds
  | refreshInteractionWeights
  | loadInteractionWeights
  | beginPersist
  | setPersistTimeout
  | lockRunForPersist
  | clearStage
  | purgeTerminalStage
  | writeStage
  | markComputed
  | writeNeighborhoods
  | clearScores
  | publishScores
  | refreshPubkeysLatest
  | clearMembers
  | publishMembers
  | clearMemberStage
  | markSucceeded
  deriving DecidableEq

section
variable (cfg : Config)

def Job.checkOps : Job → List Operation
  | sync =>
    (if cfg.enableRedisSync then [.writeGraphSnapshot, .setActiveSnapshot] else []) ++
      [.beginTx, .setStatementTimeout, .lockRun]
  | compute _ => [.beginTx, .lockRun]
  | neighborhoods _ => [.beginTx, .lockRun]
  | promote _ => [.beginTx, .setStatementTimeout, .lockRun]

/-- The operations after it. -/
def Job.workOps : Job → List Operation
  | sync => [.countFollowerEdges, .markRunning, .enqueueNext, .setJobID, .commit]
  | compute _ =>
    [.markPhase, .commitClaim, .loadAdjacency] ++
      (if cfg.enableSeedTeleport then [.loadActiveSeeds] else []) ++
      (if cfg.enableInteractionGraph then [.refreshInteractionWeights, .loadInteractionWeights]
        else []) ++
      [.beginPersist, .setPersistTimeout, .lockRunForPersist, .clearStage, .purgeTerminalStage,
        .writeStage, .enqueueNext, .markComputed, .commit]
  | neighborhoods _ =>
    [.markPhase, .commitClaim, .loadAdjacency, .loadActiveSeeds, .writeNeighborhoods,
      .beginPersist, .setPersistTimeout, .lockRunForPersist, .clearStage, .writeStage,
      .enqueueNext, .markComputed, .commit]
  | promote _ =>
    [.markPhase, .clearScores, .publishScores, .refreshPubkeysLatest] ++
      (if cfg.enableNeighborhoods then [.clearMembers, .publishMembers, .clearMemberStage]
        else []) ++
      [.clearStage, .markSucceeded, .commit]

/-- A job of a phase that is switched off is refused before anything is done. -/
def Job.enabled : Job → Bool
  | compute _ => cfg.enableScoreCompute
  | neighborhoods _ => cfg.enableNeighborhoods
  | _ => true

def syncRef (ref : String) : String := if cfg.enableRedisSync then ref else "postgres-only"

def afterCompute (ref : String) : Job :=
  if cfg.enableNeighborhoods then .neighborhoods ref else .promote ref

end

/-- An attempt of a job: the operations that fail, and which updates of `markRunFailed` take effect.
-/
structure Attempt where
  job : Job
  ref : String
  fails : Operation → Bool
  recorded : Bool
  cleared : Bool

/-- The state of one run. -/
structure RunState where
  status : RunStatus
  snapshotRef : Option String
  jobs : List Job
  stage : Option String
  memberStage : Option String
  published : Option String
  publishedMembers : Option String
  /-- Jobs with a failed attempt. -/
  failedJobs : List Job
  succeededOnce : Bool

namespace RunState

def init : RunState :=
  { status := .pending, snapshotRef := none, jobs := [.sync], stage := none, memberStage := none
    published := none, publishedMembers := none, failedJobs := [], succeededOnce := false }

def enqueued (cfg : Config) (a : Attempt) : Option Job :=
  match a.job with
  | .sync => some (.compute (syncRef cfg a.ref))
  | .compute ref => some (afterCompute cfg ref)
  | .neighborhoods ref => some (.promote ref)
  | .promote _ => none

/-- One of the operations that the attempt gets to fails. -/
def meetsFailure (cfg : Config) (s : RunState) (a : Attempt) : Bool :=
  (a.job.checkOps cfg).any a.fails ||
    (!s.status.terminal && ((a.job.workOps cfg).any a.fails || (enqueued cfg a).any (· ∈ s.jobs)))

def work (cfg : Config) (s : RunState) (a : Attempt) : RunState :=
  match a.job with
  | .sync =>
    { s with
      status := .running
      snapshotRef := some (syncRef cfg a.ref)
      jobs := .compute (syncRef cfg a.ref) :: s.jobs }
  | .compute ref =>
    { s with
      status := .running
      snapshotRef := some ref
      stage := some ref
      jobs := afterCompute cfg ref :: s.jobs }
  | .neighborhoods ref =>
    { s with
      status := .running
      snapshotRef := some ref
      memberStage := some ref
      jobs := .promote ref :: s.jobs }
  | .promote ref =>
    { s with
      status := .succeeded
      snapshotRef := some ref
      published := s.stage
      stage := none
      publishedMembers := if cfg.enableNeighborhoods then s.memberStage else s.publishedMembers
      memberStage := if cfg.enableNeighborhoods then none else s.memberStage
      succeededOnce := true }

def markRunFailed (s : RunState) (a : Attempt) : RunState :=
  { s with
    status := if a.recorded then .failed else s.status
    stage := if a.cleared then none else s.stage }

def noteFailed (s : RunState) (job : Job) : RunState :=
  { s with failedJobs := job :: s.failedJobs }

def processJob (cfg : Config) (s : RunState) (a : Attempt) : Option RunState :=
  if a.job ∉ s.jobs then none
  else if a.job.enabled cfg = false then some (s.noteFailed a.job)
  else if meetsFailure cfg s a = true then some ((s.markRunFailed a).noteFailed a.job)
  else if s.status.terminal = true then some s
  else some (work cfg s a)

end RunState
end NostrMash.Trust.Retry
