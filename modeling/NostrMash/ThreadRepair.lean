import NostrMash.ReadCommitted
import NostrMash.ProjectedTable
import NostrMash.AuthorStats

/-!
# Thread projection and repair of unresolved references

`UpdateThreadProjection` looks up the parent and the root of a reply, and keeps a row of
`unresolved_thread_references` for each that is not stored.
-/

namespace NostrMash.Threads
open AuthorStats ReadCommitted ProjectedTable

structure ThreadRefs where
  parent : String
  root : String
  deriving DecidableEq

def threadRefs (e : EventContent) : Option ThreadRefs :=
  if e.kind ≠ 1 then none
  else
    let refs := deriveETagReferences e.tags
    let reply := firstReferenceByRelation refs .reply
    let root := firstReferenceByRelation refs .root
    let parent := if reply = "" then root else reply
    if parent = "" then none
    else some { parent := parent, root := if root = "" then parent else root }

section

structure ThreadEdge where
  parent : String
  root : String
  parentMissing : Bool
  rootMissing : Bool
  deriving DecidableEq

structure UnresolvedRow where
  source : String
  missing : String
  relation : Relation
  deriving DecidableEq

inductive JobKey where
  | deriveEventBundle (eventID : String)
  | updateThreadProjection (eventID repaired : String)
  deriving DecidableEq

def JobKey.eventID : JobKey → String
  | deriveEventBundle id => id
  | updateThreadProjection id _ => id

inductive JobState (τ : Type) where
  | pending
  | running (worker : τ)
  | succeeded
  | dead
  deriving DecidableEq

def JobState.isTerminal {τ : Type} : JobState τ → Bool
  | succeeded => true
  | dead => true
  | _ => false

structure Tables (τ : Type) where
  events : List String
  edges : String → Option ThreadEdge
  unresolved : List UnresolvedRow
  jobs : List (JobKey × JobState τ)

variable {τ : Type}

def Tables.empty : Tables τ :=
  { events := [], edges := fun _ => none, unresolved := [], jobs := [] }

def Tables.job (T : Tables τ) (key : JobKey) : Option (JobState τ) := T.jobs.lookup key

def Tables.setJob (T : Tables τ) (key : JobKey) (state : Option (JobState τ)) : Tables τ :=
  { T with jobs := put T.jobs key state }

inductive Write where
  | deleteUnresolved (row : UnresolvedRow)
  | insertUnresolved (row : UnresolvedRow)
  | deleteEdge (child : String)
  | upsertEdge (child : String) (edge : ThreadEdge)
  | enqueue (key : JobKey)
  deriving DecidableEq

inductive Row where
  | unresolved (row : UnresolvedRow)
  | edge (child : String)
  | job (key : JobKey)
  deriving DecidableEq

def Write.row : Write → Row
  | deleteUnresolved row => .unresolved row
  | insertUnresolved row => .unresolved row
  | deleteEdge child => .edge child
  | upsertEdge child _ => .edge child
  | enqueue key => .job key

def Write.apply (T : Tables τ) : Write → Tables τ
  | deleteUnresolved row => { T with unresolved := T.unresolved.filter (· ≠ row) }
  | insertUnresolved row =>
    { T with unresolved := if row ∈ T.unresolved then T.unresolved else row :: T.unresolved }
  | deleteEdge child => { T with edges := Function.update T.edges child none }
  | upsertEdge child edge => { T with edges := Function.update T.edges child (some edge) }
  | enqueue key => T.setJob key (some .pending)

def Write.owner : Write → Option String
  | deleteUnresolved row => some row.source
  | insertUnresolved row => some row.source
  | deleteEdge child => some child
  | upsertEdge child _ => some child
  | enqueue _ => none

def schema : Schema (Tables τ) Write Row := { apply := Write.apply, row := Write.row }

def Tables.insertEvent (T : Tables τ) (id : String) : Tables τ :=
  let stored := { T with events := id :: T.events }
  if (T.job (.deriveEventBundle id)).isNone then
    stored.setJob (.deriveEventBundle id) (some .pending)
  else stored

def Tables.deleteEvent (T : Tables τ) (id : String) : Tables τ :=
  { T with
    events := T.events.filter (· ≠ id)
    edges := Function.update T.edges id none
    unresolved := T.unresolved.filter (·.source ≠ id) }

end

section
variable {τ : Type}

def threadWrites (id : String) (refs : ThreadRefs) (parentMissing rootMissing : Bool) :
    List Write :=
  (if parentMissing then [.insertUnresolved ⟨id, refs.parent, .reply⟩] else []) ++
    (if rootMissing ∧ refs.root ≠ refs.parent then [.insertUnresolved ⟨id, refs.root, .root⟩]
      else []) ++
    [.upsertEdge id ⟨refs.parent, refs.root, parentMissing, rootMissing⟩]

def waitingFor (T : Tables τ) (id : String) : List String :=
  ((T.unresolved.filter (·.missing = id)).map (·.source)).dedup.insertionSort (· ≤ ·)

def repairWrites (T : Tables τ) (id source : String) : List Write :=
  if (T.job (.updateThreadProjection source id)).isNone then
    [.enqueue (.updateThreadProjection source id)]
  else []

end

inductive Stage where
  | claimed
  | loaded
  | cleared
  | parentChecked (parentMissing : Bool)
  | checked (parentMissing rootMissing : Bool)
  | written (parentMissing rootMissing : Bool)
  | projected
  | scanned (todo : List String)
  | finished
  deriving DecidableEq

inductive Phase where
  | idle
  | busy (key : JobKey) (stage : Stage)
  deriving DecidableEq

inductive Action (τ : Type) where
  | insertEvent (id : String)
  | deleteEvent (id : String)
  | claim (t : τ) (key : JobKey)
  | loadEvent (t : τ)
  | deleteUnresolved (t : τ)
  | checkParent (t : τ)
  | checkRoot (t : τ)
  | writeThread (t : τ)
  | commitThread (t : τ)
  | scan (t : τ)
  | enqueueNext (t : τ)
  | commitRepairs (t : τ)
  | complete (t : τ)
  | fail (t : τ) (dead : Bool)
  | crash (t : τ)
  | recoverStale (key : JobKey) (dead : Bool)
  | purge (key : JobKey)

variable {τ : Type} [DecidableEq τ]

abbrev State (τ : Type) := Session τ (Tables τ) Write Phase

def init : State τ := Session.start .empty .idle

def autocommit (s : State τ) (T : Tables τ) : State τ := { s with committed := T }

def unfinished (dead : Bool) : JobState τ := if dead then .dead else .pending

def release (s : State τ) (t : τ) (key : JobKey) (state : JobState τ) : State τ :=
  if s.committed.job key = some (.running t) then
    autocommit s (s.committed.setJob key (some state))
  else s

def afterProjection : JobKey → Stage
  | .deriveEventBundle _ => .projected
  | .updateThreadProjection _ _ => .finished

variable (content : String → EventContent)

def advance (s : State τ) (t : τ) (key : JobKey) : Stage → Action τ → Option (State τ)
  | .claimed, .loadEvent _ =>
    if key.eventID ∈ s.committed.events then some (s.goto t (.busy key .loaded)) else none
  | .loaded, .deleteUnresolved _ =>
    s.write schema t (((s.view schema t).unresolved.filter (·.source = key.eventID)).map
      .deleteUnresolved) (.busy key .cleared)
  | .cleared, .checkParent _ =>
    (threadRefs (content key.eventID)).map fun refs =>
      let missing := decide (refs.parent ∉ (s.view schema t).events)
      s.goto t (.busy key (if refs.root = refs.parent then .checked missing missing
        else .parentChecked missing))
  | .parentChecked parentMissing, .checkRoot _ =>
    (threadRefs (content key.eventID)).map fun refs =>
      s.goto t (.busy key (.checked parentMissing (decide (refs.root ∉ (s.view schema t).events))))
  | .cleared, .writeThread _ =>
    if (threadRefs (content key.eventID)).isNone then
      s.write schema t [.deleteEdge key.eventID] (.busy key (.written false false))
    else none
  | .checked parentMissing rootMissing, .writeThread _ =>
    (threadRefs (content key.eventID)).bind fun refs =>
      if key.eventID ∈ s.committed.events then
        s.write schema t (threadWrites key.eventID refs parentMissing rootMissing)
          (.busy key (.written parentMissing rootMissing))
      else none
  | .written _ _, .commitThread _ => some (s.commit schema t (.busy key (afterProjection key)))
  | .projected, .scan _ =>
    some (s.goto t (.busy key (.scanned (waitingFor (s.view schema t) key.eventID))))
  | .scanned (source :: todo), .enqueueNext _ =>
    s.write schema t (repairWrites (s.view schema t) key.eventID source)
      (.busy key (.scanned todo))
  | .scanned [], .commitRepairs _ => some (s.commit schema t (.busy key .finished))
  | .finished, .complete _ => some ((release s t key .succeeded).goto t .idle)
  | _, .fail _ dead => some ((release s t key (unfinished dead)).rollback t .idle)
  | _, .crash _ => some (s.rollback t .idle)
  | _, _ => none

def Action.worker : Action τ → Option τ
  | loadEvent t => some t
  | deleteUnresolved t => some t
  | checkParent t => some t
  | checkRoot t => some t
  | writeThread t => some t
  | commitThread t => some t
  | scan t => some t
  | enqueueNext t => some t
  | commitRepairs t => some t
  | complete t => some t
  | fail t _ => some t
  | crash t => some t
  | _ => none

def step (s : State τ) (a : Action τ) : Option (State τ) :=
  match a with
  | .insertEvent id =>
    if id ∈ s.committed.events then none else some (autocommit s (s.committed.insertEvent id))
  | .deleteEvent id =>
    if ∃ p ∈ s.pending, p.2.owner = some id then none
    else some (autocommit s (s.committed.deleteEvent id))
  | .claim t key =>
    if s.phase t = .idle ∧ s.committed.job key = some .pending then
      some ((autocommit s (s.committed.setJob key (some (.running t)))).goto t (.busy key .claimed))
    else none
  | .recoverStale key dead =>
    match s.committed.job key with
    | some (.running _) => some (autocommit s (s.committed.setJob key (some (unfinished dead))))
    | _ => none
  | .purge key =>
    if (s.committed.job key).any (·.isTerminal) then
      some (autocommit s (s.committed.setJob key none))
    else none
  | a => a.worker.bind fun t =>
    match s.phase t with
    | .idle => none
    | .busy key stage => advance content s t key stage a

end NostrMash.Threads
