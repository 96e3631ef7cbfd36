import NostrMash.Machine
import NostrMash.Text
import Mathlib.Data.Finset.Image

/-!
# Trust runs

A trust run copies the follow graph to Redis, ranks the copy, stages the ranking and promotes the
staged rows to the published scores. Runs and retries of their jobs interleave.
-/

namespace NostrMash.Trust

inductive RunStatus where
  | pending
  | running
  | succeeded
  | failed
  deriving DecidableEq

def RunStatus.terminal (status : RunStatus) : Bool := status = .succeeded || status = .failed

abbrev Edge := String × String

def cleanEdges (rows : List Edge) : List Edge :=
  (rows.map fun e => (trimSpace e.1, trimSpace e.2)).filter fun e => e.1 ≠ "" && e.2 ≠ ""

def endpoints (edges : Finset Edge) : Finset String := edges.image Prod.fst ∪ edges.image Prod.snd

@[ext] structure FollowGraph where
  nodes : Finset String
  follows : Finset Edge
  deriving DecidableEq

namespace FollowGraph

def empty : FollowGraph := { nodes := ∅, follows := ∅ }

def ofRows (rows : List Edge) : FollowGraph :=
  { nodes := endpoints (cleanEdges rows).toFinset, follows := (cleanEdges rows).toFinset }

def addEdges (g : FollowGraph) (batch : List Edge) : FollowGraph :=
  { nodes := g.nodes ∪ endpoints batch.toFinset, follows := g.follows ∪ batch.toFinset }

end FollowGraph

inductive SnapshotKey where
  | nodes
  | adj (pubkey : String)
  deriving DecidableEq

def FollowGraph.unlink (g : FollowGraph) : SnapshotKey → FollowGraph
  | .nodes => { g with nodes := ∅ }
  | .adj pubkey => { g with follows := g.follows.filter fun e => e.1 ≠ pubkey }

def loadNodes (snapshot : FollowGraph) : Finset String :=
  (snapshot.nodes.image trimSpace).filter (· ≠ "")

def loadAdjacency (nodes : Finset String) (snapshot : FollowGraph) : FollowGraph :=
  let follows := ((snapshot.follows.filter fun e => e.1 ∈ nodes).image fun e =>
    (e.1, trimSpace e.2)).filter fun e => e.2 ≠ ""
  { nodes := nodes ∪ follows.image Prod.snd, follows := follows }

structure RankNode (σ : Type) where
  pubkey : String
  score : σ
  deriving DecidableEq

/-- The ranking of a graph with the seeds and weights `ι` of a compute. -/
structure Ranker (ι σ : Type) where
  rank : FollowGraph → ι → List (RankNode σ)
  ranks_nodes : ∀ g input pubkey, pubkey ∈ (rank g input).map RankNode.pubkey ↔ pubkey ∈ g.nodes

structure ScoreRow (σ : Type) where
  runID : ℕ
  pubkey : String
  score : σ
  rank : ℕ
  deriving DecidableEq

def stageRows {σ : Type} (runID : ℕ) (ranked : List (RankNode σ)) : List (ScoreRow σ) :=
  ranked.zipIdx.map fun (node, i) =>
    { runID := runID, pubkey := node.pubkey, score := node.score, rank := i + 1 }

/-- The attempt of a job in progress. -/
inductive Attempt (σ : Type) where
  | writing (run ref : ℕ) (left : List Edge)
  | reaping (run ref : ℕ)
  | claimed (run ref : ℕ)
  | nodesLoaded (run ref : ℕ) (nodes : Finset String)
  | loaded (run ref : ℕ) (graph : FollowGraph)
  | cleared (run ref : ℕ) (visible : List (ScoreRow σ))
  | inserted (run ref : ℕ) (visible rows : List (ScoreRow σ))

def Attempt.run {σ : Type} : Attempt σ → ℕ
  | writing run _ _ => run
  | reaping run _ => run
  | claimed run _ => run
  | nodesLoaded run _ _ => run
  | loaded run _ _ => run
  | cleared run _ _ => run
  | inserted run _ _ _ => run

structure TrustState (σ : Type) where
  status : ℕ → Option RunStatus
  snapshotRef : ℕ → Option ℕ
  /-- Jobs by run and snapshot, which make up their idempotency keys. -/
  computeJobs : List (ℕ × ℕ)
  promoteJobs : List (ℕ × ℕ)
  stage : ℕ → List (ScoreRow σ)
  published : List (ScoreRow σ)
  /-- The run whose promote has committed last. -/
  promoted : Option ℕ
  redis : ℕ → ℕ → FollowGraph
  /-- The rows that a sync has read. -/
  written : ℕ → ℕ → Option (List Edge)
  attempts : ℕ → Option (Attempt σ)
  /-- The promote that holds the lock on the row of a run. -/
  lockedBy : ℕ → Option ℕ

inductive TrustAction (ι : Type) where
  | triggerGlobalRun (run : ℕ)
  | syncRead (id run ref : ℕ) (rows : List Edge)
  | syncFlush (id count : ℕ)
  | syncActivate (id : ℕ)
  | syncReap (id run ref : ℕ) (key : SnapshotKey)
  | syncCommit (id : ℕ)
  | computeClaim (id run ref : ℕ)
  | computeLoadNodes (id : ℕ)
  | computeLoadAdjacency (id : ℕ)
  | computePersist (id : ℕ) (input : ι)
  | promoteClear (id run ref : ℕ)
  | promoteInsert (id : ℕ)
  | promoteCommit (id : ℕ)
  /-- The job fails. The updates of `markRunFailed` may fail as well. -/
  | fail (id run : ℕ) (updated deleted : Bool)
  /-- A key reaches the end of its lifetime, or the cleanup of a failed sync unlinks it. -/
  | expire (run ref : ℕ) (key : SnapshotKey)

namespace TrustState

variable {ι σ : Type} [DecidableEq σ]

def init : TrustState σ :=
  { status := fun _ => none, snapshotRef := fun _ => none, computeJobs := [], promoteJobs := []
    stage := fun _ => [], published := [], promoted := none
    redis := fun _ _ => FollowGraph.empty, written := fun _ _ => none, attempts := fun _ => none
    lockedBy := fun _ => none }

def isTerminal (s : TrustState σ) (run : ℕ) : Bool := (s.status run).any RunStatus.terminal

def free (s : TrustState σ) (run : ℕ) : Bool := (s.status run).isSome && (s.lockedBy run).isNone

def setAttempt (s : TrustState σ) (id : ℕ) (attempt : Option (Attempt σ)) : TrustState σ :=
  { s with attempts := Function.update s.attempts id attempt }

def updateSnapshot (s : TrustState σ) (run ref : ℕ) (f : FollowGraph → FollowGraph) :
    TrustState σ :=
  let refs := Function.update (s.redis run) ref (f (s.redis run ref))
  { s with redis := Function.update s.redis run refs }

def syncRead (s : TrustState σ) (id run ref : ℕ) (rows : List Edge) : Option (TrustState σ) :=
  if (s.status run).isSome ∧ (s.attempts id).isNone ∧ s.written run ref = none then
    some { s.setAttempt id (some (.writing run ref (cleanEdges rows))) with
      written := Function.update s.written run
        (Function.update (s.written run) ref (some rows)) }
  else none

def syncFlush (s : TrustState σ) (id count : ℕ) : Option (TrustState σ) :=
  match s.attempts id with
  | some (.writing run ref left) =>
    some ((s.updateSnapshot run ref fun g => g.addEdges (left.take count)).setAttempt id
      (some (.writing run ref (left.drop count))))
  | _ => none

omit [DecidableEq σ] in
theorem syncFlush_eq_some {s t : TrustState σ} {id count : ℕ} (hs : s.syncFlush id count = some t) :
    ∃ run ref left, s.attempts id = some (.writing run ref left) ∧
      (s.updateSnapshot run ref fun g => g.addEdges (left.take count)).setAttempt id
        (some (.writing run ref (left.drop count))) = t := by
  unfold syncFlush at hs
  split at hs
  next run ref left hatt => exact ⟨run, ref, left, hatt, Option.some.inj hs⟩
  next => exact nomatch hs

def syncActivate (s : TrustState σ) (id : ℕ) : Option (TrustState σ) :=
  match s.attempts id with
  | some (.writing run ref []) => some (s.setAttempt id (some (.reaping run ref)))
  | _ => none

def syncReap (s : TrustState σ) (id run ref : ℕ) (key : SnapshotKey) : Option (TrustState σ) :=
  match s.attempts id with
  | some (.reaping own ownRef) =>
    if (run, ref) = (own, ownRef) then none else some (s.updateSnapshot run ref (·.unlink key))
  | _ => none

def syncCommit (s : TrustState σ) (id : ℕ) : Option (TrustState σ) :=
  match s.attempts id with
  | some (.reaping run ref) =>
    if s.free run = false then none
    else if s.isTerminal run then some (s.setAttempt id none)
    else if (run, ref) ∈ s.computeJobs then none
    else
      some { s.setAttempt id none with
        status := Function.update s.status run (some .running)
        snapshotRef := Function.update s.snapshotRef run (some ref)
        computeJobs := (run, ref) :: s.computeJobs }
  | _ => none

def computeClaim (s : TrustState σ) (id run ref : ℕ) : Option (TrustState σ) :=
  if (run, ref) ∈ s.computeJobs ∧ (s.attempts id).isNone ∧ s.free run = true then
    if s.isTerminal run then some s else some (s.setAttempt id (some (.claimed run ref)))
  else none

def computeLoadNodes (s : TrustState σ) (id : ℕ) : Option (TrustState σ) :=
  match s.attempts id with
  | some (.claimed run ref) =>
    some (s.setAttempt id (some (.nodesLoaded run ref (loadNodes (s.redis run ref)))))
  | _ => none

def computeLoadAdjacency (s : TrustState σ) (id : ℕ) : Option (TrustState σ) :=
  match s.attempts id with
  | some (.nodesLoaded run ref nodes) =>
    some (s.setAttempt id (some (.loaded run ref (loadAdjacency nodes (s.redis run ref)))))
  | _ => none

def computePersist (R : Ranker ι σ) (s : TrustState σ) (id : ℕ) (input : ι) :
    Option (TrustState σ) :=
  match s.attempts id with
  | some (.loaded run ref graph) =>
    if s.free run = false then none
    else if s.isTerminal run then some (s.setAttempt id none)
    else if (run, ref) ∈ s.promoteJobs then none
    else
      some { s.setAttempt id none with
        status := Function.update s.status run (some .running)
        snapshotRef := Function.update s.snapshotRef run (some ref)
        stage := fun r =>
          if r = run then stageRows run (R.rank graph input)
          else if s.isTerminal r then [] else s.stage r
        promoteJobs := (run, ref) :: s.promoteJobs }
  | _ => none

def promoteClear (s : TrustState σ) (id run ref : ℕ) : Option (TrustState σ) :=
  if (run, ref) ∈ s.promoteJobs ∧ (s.attempts id).isNone ∧ s.free run = true then
    if s.isTerminal run then some s
    else
      some { s.setAttempt id (some (.cleared run ref s.published)) with
        lockedBy := Function.update s.lockedBy run (some id) }
  else none

def promoteInsert (s : TrustState σ) (id : ℕ) : Option (TrustState σ) :=
  match s.attempts id with
  | some (.cleared run ref visible) =>
    some (s.setAttempt id (some (.inserted run ref visible (s.stage run))))
  | _ => none

/-- A promote deletes the rows that it saw. -/
def promoteCommit (s : TrustState σ) (id : ℕ) : Option (TrustState σ) :=
  match s.attempts id with
  | some (.inserted run ref visible rows) =>
    let kept := s.published.filter (· ∉ visible)
    if kept.any fun row => row.pubkey ∈ rows.map ScoreRow.pubkey then none
    else
      some { s.setAttempt id none with
        published := kept ++ rows
        promoted := some run
        stage := Function.update s.stage run []
        status := Function.update s.status run (some .succeeded)
        snapshotRef := Function.update s.snapshotRef run (some ref)
        lockedBy := Function.update s.lockedBy run none }
  | _ => none

/-- A failed promote has released its lock before the run is marked. -/
def fail (s : TrustState σ) (id run : ℕ) (updated deleted : Bool) : Option (TrustState σ) :=
  if (s.status run).isSome ∧ (s.attempts id).all (·.run = run) ∧
      (updated → (s.lockedBy run).all (· = id)) then
    some { s.setAttempt id none with
      status := if updated then Function.update s.status run (some .failed) else s.status
      stage := if deleted then Function.update s.stage run [] else s.stage
      lockedBy := if s.lockedBy run = some id then Function.update s.lockedBy run none
        else s.lockedBy }
  else none

end TrustState

def trustStep {ι σ : Type} [DecidableEq σ] (R : Ranker ι σ) (s : TrustState σ) :
    TrustAction ι → Option (TrustState σ)
  | .triggerGlobalRun run =>
    if s.status run = none then
      some { s with status := Function.update s.status run (some .pending) }
    else none
  | .syncRead id run ref rows => s.syncRead id run ref rows
  | .syncFlush id count => s.syncFlush id count
  | .syncActivate id => s.syncActivate id
  | .syncReap id run ref key => s.syncReap id run ref key
  | .syncCommit id => s.syncCommit id
  | .computeClaim id run ref => s.computeClaim id run ref
  | .computeLoadNodes id => s.computeLoadNodes id
  | .computeLoadAdjacency id => s.computeLoadAdjacency id
  | .computePersist id input => s.computePersist R id input
  | .promoteClear id run ref => s.promoteClear id run ref
  | .promoteInsert id => s.promoteInsert id
  | .promoteCommit id => s.promoteCommit id
  | .fail id run updated deleted => s.fail id run updated deleted
  | .expire run ref key => some (s.updateSnapshot run ref (·.unlink key))

end NostrMash.Trust
