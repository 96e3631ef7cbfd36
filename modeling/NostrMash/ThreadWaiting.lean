import NostrMash.ThreadInvariant

/-!
# Replies in wait

The steps that can leave a reply unresolved, and the invariant of the runs without them.
-/

namespace NostrMash.Threads
open AuthorStats ReadCommitted
variable {τ : Type} [DecidableEq τ] (content : String → EventContent) (reply : String)

def missingRefs (refs : ThreadRefs) : Stage → List String
  | .parentChecked pm => if pm then [refs.parent] else []
  | .checked pm rm => (if pm then [refs.parent] else []) ++ (if rm then [refs.root] else [])
  | .written pm rm => (if pm then [refs.parent] else []) ++ (if rm then [refs.root] else [])
  | _ => []

def FoundMissing (id : String) : Phase → Prop
  | .idle => False
  | .busy key stage => key.eventID = reply ∧
    ((threadRefs (content reply)).any fun refs => decide (id ∈ missingRefs refs stage)) = true

def Concerns (id : String) : Prop :=
  id = reply ∨
    ((threadRefs (content reply)).any fun refs => id = refs.parent ∨ id = refs.root) = true

/-- A job row with the key does not drop the insert of a job that is still to run. -/
def Free (T : Tables τ) (key : JobKey) : Prop := T.job key = none ∨ T.job key = some .pending

/-- A job of the reply is never given up, and one of its parent or root only while that event is
not stored. -/
def MayDie (T : Tables τ) (key : JobKey) : Prop :=
  key.eventID ≠ reply ∧ (Concerns content reply key.eventID → key.eventID ∉ T.events)

def Phase.job : Phase → Option JobKey
  | .idle => none
  | .busy key _ => some key

def Phase.nextRepair : Phase → Option JobKey
  | .busy key (.scanned (source :: _)) => some (.updateThreadProjection source key.eventID)
  | _ => none

def InOrder (s : State τ) : Action τ → Prop
  | .insertEvent id => Concerns content reply id →
    Free s.committed (.deriveEventBundle id) ∧ ∀ t, ¬ FoundMissing content reply id (s.phase t)
  | .deleteEvent id => id ≠ reply
  | .enqueueNext t => ∀ key ∈ (s.phase t).nextRepair, key.eventID = reply → Free s.committed key
  | .fail t dead => dead = true → ∀ key ∈ (s.phase t).job, MayDie content reply s.committed key
  | .recoverStale key dead => dead = true → MayDie content reply s.committed key
  | _ => True

/-- The job is still to run, or runs at a stage that meets the condition. -/
def Ahead (s : State τ) (key : JobKey) (Q : τ → Stage → Prop) : Prop :=
  s.committed.job key = some .pending ∨
    ∃ t, s.committed.job key = some (.running t) ∧
      ∀ stage, s.phase t = .busy key stage → Q t stage

def Stage.beforeProjection : Stage → Bool
  | projected => false
  | scanned _ => false
  | finished => false
  | _ => true

def ScanAhead (s : State τ) (id : String) (t : τ) : Stage → Prop
  | .scanned todo =>
    reply ∈ todo ∨ .enqueue (.updateThreadProjection reply id) ∈ s.own t
  | .finished => False
  | _ => True

def ClearAhead (s : State τ) (id : String) (t : τ) (stage : Stage) : Prop :=
  stage.beforeProjection = true ∧
    (stage = .claimed ∨ stage = .loaded ∨ ∀ row ∈ s.committed.unresolved, row.source = reply →
      row.missing = id → .deleteUnresolved row ∈ s.own t)

def Waits (T : Tables τ) (id : String) : Prop :=
  ∃ row ∈ T.unresolved, row.source = reply ∧ row.missing = id

def Repairs (s : State τ) (id : String) : Prop :=
  Ahead s (.deriveEventBundle id) (ScanAhead reply s id) ∨
    Ahead s (.updateThreadProjection reply id) (ClearAhead reply s id)

structure Inv (refs : ThreadRefs) (s : State τ) : Prop where
  shaped : Shaped content s
  missing : ∀ t id, FoundMissing content reply id (s.phase t) → id ∉ s.committed.events
  edge : ∀ edge, s.committed.edges reply = some edge →
    edge.parent = refs.parent ∧ edge.root = refs.root ∧
      (edge.parentMissing = true → Waits reply s.committed refs.parent) ∧
      (edge.rootMissing = true → Waits reply s.committed refs.root)
  projects : reply ∈ s.committed.events → s.committed.edges reply = none →
    Ahead s (.deriveEventBundle reply) fun _ stage => stage.beforeProjection = true
  repairs : ∀ id, id = refs.parent ∨ id = refs.root → id ∈ s.committed.events →
    Waits reply s.committed id → Repairs reply s id

variable {content reply} {s s' : State τ} {t : τ} {key : JobKey}

variable {Q Q' : τ → Stage → Prop} {dead : Bool} {key' : JobKey}

omit [DecidableEq τ] in
theorem Ahead.of_pending (h : s.committed.job key = some .pending) : Ahead s key Q := .inl h

omit [DecidableEq τ] in
theorem Ahead.mono (h : Ahead s key Q) (hjob : s'.committed.job key = s.committed.job key)
    (hQ : ∀ t, (∀ stage, s.phase t = .busy key stage → Q t stage) →
      ∀ stage, s'.phase t = .busy key stage → Q' t stage) : Ahead s' key Q' := by
  rcases h with h | ⟨t, h, ht⟩
  · exact .inl (hjob.trans h)
  · exact .inr ⟨t, hjob.trans h, hQ t ht⟩

theorem Ahead.apart {p : Phase} (h : Ahead s key Q) (ha : Apart s s' t p)
    (hjob : s'.committed.job key = s.committed.job key ∨ s'.committed.job key = some .pending)
    (hne : ∀ u stage, u ≠ t → Q u stage → Q' u stage) (ht : ∀ stage, p = .busy key stage →
      (∀ stage', s.phase t = .busy key stage' → Q t stage') → Q' t stage) : Ahead s' key Q' := by
  rcases hjob with hjob | hjob
  · refine h.mono hjob fun u hu stage hstage => ?_
    rw [ha.phase_eq] at hstage
    by_cases hut : u = t
    · subst hut
      rw [Function.update_self] at hstage
      exact ht stage hstage hu
    · rw [Function.update_of_ne hut] at hstage
      exact hne u stage hut (hu stage hstage)
  · exact .of_pending hjob

theorem Ahead.claim (h : Ahead s key Q) (hclaimed : Q' t .claimed)
    (hQ : ∀ u stage, Q u stage → Q' u stage) :
    Ahead ((autocommit s (s.committed.setJob key' (some (.running t)))).goto t
      (.busy key' .claimed)) key Q' := by
  by_cases hk : key = key'
  · subst hk
    refine .inr ⟨t, job_setJob_self _ _ _, fun stage hstage => ?_⟩
    rw [Session.phase_goto, Function.update_self] at hstage
    cases hstage
    exact hclaimed
  · refine h.apart (t := t) (p := .busy key' .claimed) ⟨rfl, fun _ _ => rfl⟩
      (.inl (job_setJob_ne _ hk _)) (fun u stage _ => hQ u stage) fun stage hp _ => ?_
    cases hp
    exact absurd rfl hk

theorem job_release (s : State τ) (t : τ) (key key' : JobKey) (state : JobState τ) :
    (release s t key' state).committed.job key =
      if key = key' ∧ s.committed.job key' = some (.running t) then some state
      else s.committed.job key := by
  unfold release
  by_cases hrun : s.committed.job key' = some (.running t)
  · by_cases hk : key = key'
    · subst hk
      simp [hrun, autocommit]
    · simp [hrun, hk, autocommit, job_setJob_ne _ hk]
  · simp [hrun]

theorem Ahead.complete (h : Ahead s key Q) (hp : s.phase t = .busy key' .finished)
    (hnot : ¬ Q t .finished) (hQ : ∀ u stage, Q u stage → Q' u stage) :
    Ahead ((release s t key' .succeeded).goto t .idle) key Q' := by
  have hjob : (release s t key' .succeeded).committed.job key = s.committed.job key := by
    rw [job_release]
    refine if_neg ?_
    rintro ⟨rfl, hrun⟩
    rcases h with h | ⟨u, h, hu⟩
    · exact nomatch h.symm.trans hrun
    · have hut : u = t := by
        injection Option.some.inj (h.symm.trans hrun)
      subst hut
      exact hnot (hu _ hp)
  exact h.apart (apart_complete s t key') (.inl hjob) (fun u stage _ => hQ u stage) nofun

theorem Ahead.fail (h : Ahead s key Q) (hdead : key = key' → dead = false)
    (hQ : ∀ u stage, u ≠ t → Q u stage → Q' u stage) :
    Ahead ((release s t key' (unfinished dead)).rollback t .idle) key Q' := by
  have hjob : (release s t key' (unfinished dead)).committed.job key = s.committed.job key ∨
      (release s t key' (unfinished dead)).committed.job key = some .pending := by
    rw [job_release]
    split_ifs with hk
    · rw [hdead hk.1]
      exact .inr rfl
    · exact .inl rfl
  exact h.apart (apart_fail s t key' dead) hjob hQ nofun

omit [DecidableEq τ] in
theorem Ahead.recover (h : Ahead s key Q) (hdead : key = key' → dead = false)
    (hQ : ∀ u stage, Q u stage → Q' u stage) :
    Ahead (autocommit s (s.committed.setJob key' (some (unfinished dead)))) key Q' := by
  by_cases hk : key = key'
  · subst hk
    rw [hdead rfl]
    exact .of_pending (job_setJob_self _ _ _)
  · exact h.mono (job_setJob_ne _ hk _) fun u hu stage hstage => hQ u stage (hu stage hstage)

omit [DecidableEq τ] in
theorem Ahead.purge {state : JobState τ} (h : Ahead s key Q)
    (hjob : s.committed.job key' = some state) (hterminal : state.isTerminal = true)
    (hQ : ∀ u stage, Q u stage → Q' u stage) :
    Ahead (autocommit s (s.committed.setJob key' none)) key Q' := by
  have hk : key ≠ key' := by
    rintro rfl
    rcases h with h | ⟨u, h, -⟩
    · rw [Option.some.inj (h.symm.trans hjob).symm] at hterminal
      exact nomatch hterminal
    · rw [Option.some.inj (h.symm.trans hjob).symm] at hterminal
      exact nomatch hterminal
  exact h.mono (job_setJob_ne _ hk _) fun u hu stage hstage => hQ u stage (hu stage hstage)

end NostrMash.Threads
