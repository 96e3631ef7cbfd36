import NostrMash.Machine
import NostrMash.Text

/-!
# Executions of a projection rebuild run

`ExecuteProjectionRebuildRun` marks the row of its run as running, rebuilds, and marks the row as
failed or as succeeded. Only the first of these looks at the status.
-/

namespace NostrMash.RebuildRuns
open Machine Option

inductive RunStatus where
  | pending
  | running
  | succeeded
  | failed
  deriving DecidableEq

inductive ScopeType where
  | full
  | event
  | pubkey
  | timeRange
  deriving DecidableEq

def ScopeType.text : ScopeType → String
  | full => "full"
  | event => "event"
  | pubkey => "pubkey"
  | timeRange => "time_range"

/-- The columns of `projection_rebuild_runs` that no statement changes. -/
structure ProjectionRebuildRun where
  derivationName : String
  targetVersion : ℤ
  scopeType : ScopeType

structure RunRow where
  status : RunStatus := .pending
  attempts : ℕ := 0
  startedAt : Option ℤ := none
  finishedAt : Option ℤ := none
  lastError : Option String := none
  deriving DecidableEq

section

structure ProjectError where
  isNoRows : Bool
  text : String

structure ProjectionDefinition where
  rebuildFull : Option (ℤ → Except String Unit)
  rebuildProject : Option (String → ℤ → Except ProjectError Unit)

variable (run : ProjectionRebuildRun)

/-- Events that retention has removed since the scan are skipped, except by their own rebuild. -/
def projectEvents (rebuildProject : String → ℤ → Except ProjectError Unit) :
    List String → Except String Unit
  | [] => .ok ()
  | eventID :: eventIDs =>
    match rebuildProject eventID run.targetVersion with
    | .ok _ => projectEvents rebuildProject eventIDs
    | .error err =>
      if err.isNoRows ∧ run.scopeType ≠ .event then projectEvents rebuildProject eventIDs
      else .error ("rebuild " ++ run.derivationName ++ " for event " ++ eventID ++ ": " ++ err.text)

def applyScopeRebuild (scopeEventIDs : Except String (List String)) (d : ProjectionDefinition) :
    Except String Unit :=
  let project := match d.rebuildProject with
    | none => .error ("rebuild scope \"" ++ run.scopeType.text ++
        "\" is not supported for derivation \"" ++ run.derivationName ++ "\"")
    | some rebuildProject => scopeEventIDs.bind (projectEvents run rebuildProject)
  match d.rebuildFull with
  | none => project
  | some rebuildFull =>
    if run.scopeType = .full then rebuildFull run.targetVersion else project

end

def markRebuildRunRunning (now : ℤ) (row : RunRow) : RunRow :=
  if row.status = .succeeded then row
  else { status := .running, attempts := row.attempts + 1, startedAt := some now }

def markRebuildRunFailed (now : ℤ) (lastError : String) (row : RunRow) : RunRow :=
  let text := trimSpace lastError
  { row with
    status := .failed
    finishedAt := some now
    lastError := some (if text = "" then "projection rebuild failed" else text) }

def markRebuildRunSucceeded (now : ℤ) (row : RunRow) : RunRow :=
  { row with status := .succeeded, finishedAt := some now, lastError := none }

structure ActiveVersion where
  activeVersion : ℤ
  targetVersion : ℤ
  deriving DecidableEq

def upsertActive (version : ℤ) (active : Option ActiveVersion) : ActiveVersion :=
  { activeVersion := (active.map ActiveVersion.activeVersion).getD version
    targetVersion := version }

section

inductive Phase where
  | idle
  | marked
  | failing (err : String)
  | rebuilt
  deriving DecidableEq

/-- A transaction that fails changes nothing. -/
inductive Action (τ : Type*) where
  | markRunning (t : τ) (now : ℤ) (fails : Bool)
  | rebuild (t : τ) (definition : Except String ProjectionDefinition)
      (scopeEventIDs : Except String (List String))
  | markFailed (t : τ) (now : ℤ) (fails : Bool)
  | markSucceeded (t : τ) (now : ℤ) (fails : Bool)
  | crash (t : τ)
  | trigger (version : ℤ)
  | activate (version : ℤ)

/-- `succeededOnce` and `activated` record that the run has succeeded, and that it was the last to
set the active version. -/
structure State (τ : Type*) where
  row : RunRow
  active : Option ActiveVersion
  phase : τ → Phase
  succeededOnce : Bool
  activated : Bool

variable {τ : Type*}

def init (τ : Type*) (active : Option ActiveVersion) : State τ :=
  { row := {}, active := active, phase := fun _ => .idle, succeededOnce := false,
    activated := false }

variable [DecidableEq τ] (run : ProjectionRebuildRun)

def State.goto (s : State τ) (t : τ) (phase : Phase) : State τ :=
  { s with phase := Function.update s.phase t phase }

def State.succeed (s : State τ) (now : ℤ) : State τ :=
  let full := decide (run.scopeType = .full)
  { s with
    row := markRebuildRunSucceeded now s.row
    active := if full then s.active.map fun _ => ⟨run.targetVersion, run.targetVersion⟩
      else s.active
    succeededOnce := true
    activated := s.activated || (full && s.active.isSome) }

def step (s : State τ) : Action τ → Option (State τ)
  | .markRunning t now fails =>
    if s.phase t ≠ .idle then none
    else if fails ∨ s.row.status = .succeeded then some s
    else some ({ s with row := markRebuildRunRunning now s.row }.goto t .marked)
  | .rebuild t definition scopeEventIDs =>
    if s.phase t ≠ .marked then none
    else match definition with
      | .error _ => some (s.goto t .idle)
      | .ok d =>
        match applyScopeRebuild run scopeEventIDs d with
        | .error err => some (s.goto t (.failing err))
        | .ok _ => some (s.goto t .rebuilt)
  | .markFailed t now fails =>
    match s.phase t with
    | .failing err =>
      let failed := { s with row := markRebuildRunFailed now err s.row }
      some ((if fails then s else failed).goto t .idle)
    | _ => none
  | .markSucceeded t now fails =>
    if s.phase t ≠ .rebuilt then none
    else some ((if fails then s else s.succeed run now).goto t .idle)
  | .crash t => some (s.goto t .idle)
  | .trigger version => some { s with active := some (upsertActive version s.active) }
  | .activate version =>
    some { s with active := s.active.map fun _ => ⟨version, version⟩, activated := false }

end

variable {τ : Type*} (run : ProjectionRebuildRun)

/-- A run that has succeeded is still succeeded, and it is not failed while the version that it
has activated is the active one. -/
structure State.Kept (s : State τ) : Prop where
  succeeded : s.succeededOnce = true → s.row.status = .succeeded
  not_failed : s.activated = true →
    s.active.map ActiveVersion.activeVersion = some run.targetVersion → s.row.status ≠ .failed

/-- A failure is recorded only while no other execution has marked the run as succeeded. -/
def FailsUnfinished (s : State τ) : Action τ → Prop
  | .markFailed t _ fails =>
    (∃ err, s.phase t = .failing err) → fails = false → s.row.status ≠ .succeeded
  | _ => True

structure State.Recorded (s : State τ) : Prop where
  status : s.row.status = .succeeded → s.succeededOnce = true
  activated : s.activated = true → s.succeededOnce = true

variable {run} {s s' : State τ} {a : Action τ}

theorem kept_iff (h : s.Recorded) :
    s.Kept run ↔ (s.succeededOnce = true → s.row.status = .succeeded) := by
  refine ⟨State.Kept.succeeded, fun hs => ⟨hs, fun hactivated _ hfailed => ?_⟩⟩
  exact nomatch (hs (h.activated hactivated)).symm.trans hfailed

theorem failsUnfinished_of_ne (h : s.row.status ≠ .succeeded) : FailsUnfinished s a := by
  cases a with
  | markFailed t now fails => exact fun _ _ => h
  | _ => trivial

variable [DecidableEq τ]

theorem step_status (h : step run s a = some s') :
    (s'.row.status = .succeeded ∧ s'.succeededOnce = true ∧ FailsUnfinished s a) ∨
      (s'.succeededOnce = s.succeededOnce ∧ (s'.activated = true → s.activated = true) ∧
        (s'.row.status = .succeeded ↔ s.row.status = .succeeded ∧ FailsUnfinished s a)) := by
  have hsame : ∀ {b : Action τ} {u : State τ}, FailsUnfinished s b →
      (u.row.status = .succeeded ↔ s.row.status = .succeeded) →
      (u.row.status = .succeeded ↔ s.row.status = .succeeded ∧ FailsUnfinished s b) :=
    fun hg hu => hu.trans (and_iff_left hg).symm
  cases a with
  | markRunning t now fails =>
    simp only [step, ite_none_left_eq_some] at h
    obtain ⟨-, h⟩ := h
    split_ifs at h with hskip <;> obtain rfl := some.inj h
    · exact .inr ⟨rfl, id, hsame trivial Iff.rfl⟩
    · have hne : s.row.status ≠ .succeeded := fun hs => hskip (.inr hs)
      exact .inr ⟨rfl, id, hsame trivial (by simp [State.goto, markRebuildRunRunning, hne])⟩
  | rebuild t definition scopeEventIDs =>
    simp only [step, ite_none_left_eq_some] at h
    obtain ⟨-, h⟩ := h
    split at h
    · cases h
      exact .inr ⟨rfl, id, hsame trivial Iff.rfl⟩
    · split at h <;> obtain rfl := some.inj h <;>
        exact .inr ⟨rfl, id, hsame trivial Iff.rfl⟩
  | markFailed t now fails =>
    simp only [step] at h
    split at h
    · rename_i err hp
      cases h
      cases fails with
      | true => exact .inr ⟨rfl, id, hsame (fun _ hf => nomatch hf) Iff.rfl⟩
      | false => exact .inr ⟨rfl, id, nofun, fun hs => absurd hs.1 (hs.2 ⟨err, hp⟩ rfl)⟩
    · exact nomatch h
  | markSucceeded t now fails =>
    simp only [step, ite_none_left_eq_some] at h
    obtain rfl := some.inj h.2
    cases fails with
    | true => exact .inr ⟨rfl, id, hsame trivial Iff.rfl⟩
    | false => exact .inl ⟨rfl, rfl, trivial⟩
  | crash t | trigger version =>
    cases h
    exact .inr ⟨rfl, id, hsame trivial Iff.rfl⟩
  | activate version =>
    cases h
    exact .inr ⟨rfl, nofun, hsame trivial Iff.rfl⟩

theorem recorded_step (hs : s.Recorded) (h : step run s a = some s') : s'.Recorded := by
  rcases step_status h with ⟨-, honce, -⟩ | ⟨honce, hactivated, hstatus⟩
  · exact ⟨fun _ => honce, fun _ => honce⟩
  · exact ⟨fun hx => honce.trans (hs.status (hstatus.mp hx).1),
      fun hx => honce.trans (hs.activated (hactivated hx))⟩

theorem kept_step_iff (hs : s.Recorded) (hkept : s.Kept run) (h : step run s a = some s') :
    s'.Kept run ↔ FailsUnfinished s a := by
  rw [kept_iff (recorded_step hs h)]
  rcases step_status h with ⟨hsucceeded, -, hg⟩ | ⟨honce, -, hstatus⟩
  · exact iff_of_true (fun _ => hsucceeded) hg
  · rw [hstatus, honce]
    constructor
    · intro hx
      by_cases hsucceeded : s.row.status = .succeeded
      · exact (hx (hs.status hsucceeded)).2
      · exact failsUnfinished_of_ne hsucceeded
    · exact fun hg hx => ⟨hkept.succeeded hx, hg⟩

/-- However the executions of a run interleave, it stays succeeded exactly when no execution
records a failure after another one has succeeded. -/
theorem stays_succeeded_iff (run : ProjectionRebuildRun) (active : Option ActiveVersion)
    (actions : List (Action τ)) : Always (step run) (State.Kept run) (init τ active) actions ↔
      Guarded (step run) FailsUnfinished (init τ active) actions := by
  have hinit : (init τ active).Recorded := ⟨nofun, nofun⟩
  refine always_iff_guarded (fun s a t hs h => recorded_step hs h)
    (fun s a t hs hk h => kept_step_iff hs hk h) (fun s a _ _ h => ?_) hinit ⟨nofun, nofun⟩
  cases a with
  | markFailed t now fails =>
    rintro ⟨err, hp⟩
    simp [step, hp] at h
  | _ => trivial

def overlap : List (Action Bool) :=
  let rebuilds (result : Except String Unit) : ProjectionDefinition :=
    ⟨some fun _ => result, none⟩
  [.markRunning false 1 false, .markRunning true 2 false,
    .rebuild false (.ok (rebuilds (.ok ()))) (.ok []), .markSucceeded false 3 false,
    .rebuild true (.ok (rebuilds (.error "connection lost"))) (.ok []), .markFailed true 4 false]

theorem overlap_not_kept :
    ¬ Always (step ⟨"thread_edges", 2, .full⟩) (State.Kept ⟨"thread_edges", 2, .full⟩)
      (init Bool (some ⟨1, 2⟩)) overlap := by
  intro h
  have hlast := h overlap (List.prefix_refl _) _ rfl
  exact nomatch hlast.succeeded rfl

end NostrMash.RebuildRuns
