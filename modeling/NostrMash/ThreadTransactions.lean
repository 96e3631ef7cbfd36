import NostrMash.ThreadRepair

/-!
# Steps of the thread projection

What each step does to the tables and to the open transactions, and what the writes of an open
transaction are at each stage of its job.
-/

namespace NostrMash.Threads
open AuthorStats ReadCommitted ProjectedTable List
variable {key : JobKey}

section
variable {τ : Type} {T : Tables τ} {ws : List Write} {id : String}

@[simp] theorem job_setJob_self (T : Tables τ) (key : JobKey) (state : Option (JobState τ)) :
    (T.setJob key state).job key = state :=
  lookup_put_self T.jobs key state

theorem job_setJob_ne (T : Tables τ) {key' : JobKey} (h : key' ≠ key)
    (state : Option (JobState τ)) : (T.setJob key state).job key' = T.job key' :=
  lookup_put_ne T.jobs h state

theorem events_foldl (T : Tables τ) (ws : List Write) :
    (ws.foldl Write.apply T).events = T.events := by
  induction ws generalizing T with
  | nil => rfl
  | cons w ws ih =>
    rw [foldl_cons, ih]
    cases w <;> rfl

theorem job_apply (T : Tables τ) (w : Write) (key : JobKey) :
    (Write.apply T w).job key = if w = .enqueue key then some .pending else T.job key := by
  cases w with
  | enqueue key' =>
    by_cases h : key = key'
    · subst h
      simp [Write.apply]
    · have hne : key' ≠ key := Ne.symm h
      simp [Write.apply, job_setJob_ne T h, hne]
  | _ => rfl

theorem job_foldl (T : Tables τ) (ws : List Write) (key : JobKey) :
    (ws.foldl Write.apply T).job key =
      if .enqueue key ∈ ws then some .pending else T.job key := by
  induction ws generalizing T with
  | nil => rfl
  | cons w ws ih =>
    rw [foldl_cons, ih, job_apply]
    by_cases hws : .enqueue key ∈ ws
    · simp [hws]
    · by_cases hw : w = .enqueue key
      · simp [hw]
      · simp [hws, hw, Ne.symm hw]

theorem foldl_other (T : Tables τ) (hws : ∀ w ∈ ws, w.owner ≠ some id) :
    (ws.foldl Write.apply T).edges id = T.edges id ∧ ∀ row, row.source = id →
        (row ∈ (ws.foldl Write.apply T).unresolved ↔ row ∈ T.unresolved) := by
  induction ws generalizing T with
  | nil => exact ⟨rfl, fun _ _ => Iff.rfl⟩
  | cons w ws ih =>
    obtain ⟨hedge, hrows⟩ := ih (Write.apply T w) fun w' hw' => hws w' (.tail _ hw')
    have howner := hws w (.head _)
    rw [foldl_cons]
    cases w with
    | deleteUnresolved r =>
      refine ⟨hedge, fun row hrow => (hrows row hrow).trans ?_⟩
      have hne : row ≠ r := fun h => howner (congrArg some (h ▸ hrow))
      simp [Write.apply, hne]
    | insertUnresolved r =>
      refine ⟨hedge, fun row hrow => (hrows row hrow).trans ?_⟩
      have hne : row ≠ r := fun h => howner (congrArg some (h ▸ hrow))
      by_cases hr : r ∈ T.unresolved <;> simp [Write.apply, hr, hne]
    | deleteEdge child =>
      have hne : id ≠ child := fun h => howner (congrArg some h.symm)
      exact ⟨hedge.trans (Function.update_of_ne hne _ _), hrows⟩
    | upsertEdge child edge =>
      have hne : id ≠ child := fun h => howner (congrArg some h.symm)
      exact ⟨hedge.trans (Function.update_of_ne hne _ _), hrows⟩
    | enqueue key => exact ⟨hedge, hrows⟩

def Deletes (id : String) (ws : List Write) : Prop :=
  ∀ w ∈ ws, ∃ row, w = .deleteUnresolved row ∧ row.source = id

theorem foldl_deletes (T : Tables τ) (h : Deletes id ws) (row : UnresolvedRow) :
    row ∈ (ws.foldl Write.apply T).unresolved ↔
      row ∈ T.unresolved ∧ .deleteUnresolved row ∉ ws := by
  induction ws generalizing T with
  | nil => simp
  | cons w ws ih =>
    obtain ⟨r, rfl, -⟩ := h w (.head _)
    rw [foldl_cons, ih _ fun w' hw' => h w' (.tail _ hw')]
    simp only [Write.apply, mem_filter, mem_cons, Write.deleteUnresolved.injEq, not_or,
      decide_eq_true_eq, and_assoc, ne_eq]

def projectionWrites (content : String → EventContent) (id : String)
    (parentMissing rootMissing : Bool) : List Write :=
  match threadRefs (content id) with
  | none => [.deleteEdge id]
  | some refs => threadWrites id refs parentMissing rootMissing

theorem owner_projectionWrites {content : String → EventContent} {pm rm : Bool} {w : Write}
    (hw : w ∈ projectionWrites content id pm rm) : w.owner = some id := by
  unfold projectionWrites at hw
  split at hw
  · rw [mem_singleton.mp hw]
    rfl
  · simp only [threadWrites, mem_append, mem_ite_nil_right, mem_singleton] at hw
    rcases hw with (⟨-, rfl⟩ | ⟨-, rfl⟩) | rfl <;> rfl

theorem mem_apply_insert (T : Tables τ) (r row : UnresolvedRow) :
    row ∈ (Write.apply T (.insertUnresolved r)).unresolved ↔ row ∈ T.unresolved ∨ row = r := by
  by_cases hr : r ∈ T.unresolved
  · simp only [Write.apply, hr, if_true]
    exact ⟨.inl, fun h => h.elim (fun h => h) fun h => h ▸ hr⟩
  · simp [Write.apply, hr, or_comm]

theorem foldl_threadWrites (id : String) (T : Tables τ) (refs : ThreadRefs) (pm rm : Bool) :
    ((threadWrites id refs pm rm).foldl Write.apply T).edges id =
        some ⟨refs.parent, refs.root, pm, rm⟩ ∧
      ∀ row, row ∈ ((threadWrites id refs pm rm).foldl Write.apply T).unresolved ↔
        row ∈ T.unresolved ∨ (pm = true ∧ row = ⟨id, refs.parent, .reply⟩) ∨
          (rm = true ∧ refs.root ≠ refs.parent ∧ row = ⟨id, refs.root, .root⟩) := by
  have hedge : ∀ (U : Tables τ) (edge : ThreadEdge),
      (Write.apply U (.upsertEdge id edge)).edges id = some edge ∧
        (Write.apply U (.upsertEdge id edge)).unresolved = U.unresolved :=
    fun U edge => ⟨Function.update_self _ _ _, rfl⟩
  rw [threadWrites, foldl_append, foldl_cons, foldl_nil, foldl_append]
  refine ⟨(hedge _ _).1, fun row => ?_⟩
  rw [(hedge _ _).2]
  by_cases hroot : rm = true ∧ refs.root ≠ refs.parent
  · cases pm <;> simp [hroot, mem_apply_insert, or_assoc]
  · have hno : ¬ (rm = true ∧ refs.root ≠ refs.parent ∧ row = ⟨id, refs.root, .root⟩) :=
      fun h => hroot ⟨h.1, h.2.1⟩
    cases pm <;> simp [hroot, hno, mem_apply_insert]

end

variable {τ : Type} [DecidableEq τ] (content : String → EventContent)

inductive Moves (s : State τ) (t : τ) (key : JobKey) : Stage → List Write → Stage → Prop where
  | load : key.eventID ∈ s.committed.events → Moves s t key .claimed [] .loaded
  | clear : Moves s t key .loaded
      (((s.view schema t).unresolved.filter (·.source = key.eventID)).map .deleteUnresolved)
      .cleared
  | checkOne (refs : ThreadRefs) : threadRefs (content key.eventID) = some refs →
      refs.root = refs.parent → Moves s t key .cleared []
        (.checked (decide (refs.parent ∉ (s.view schema t).events))
          (decide (refs.parent ∉ (s.view schema t).events)))
  | checkParent (refs : ThreadRefs) : threadRefs (content key.eventID) = some refs →
      refs.root ≠ refs.parent → Moves s t key .cleared []
        (.parentChecked (decide (refs.parent ∉ (s.view schema t).events)))
  | checkRoot (refs : ThreadRefs) (pm : Bool) : threadRefs (content key.eventID) = some refs →
      Moves s t key (.parentChecked pm) []
        (.checked pm (decide (refs.root ∉ (s.view schema t).events)))
  | dropEdge : threadRefs (content key.eventID) = none →
      Moves s t key .cleared [.deleteEdge key.eventID] (.written false false)
  | writeThread (refs : ThreadRefs) (pm rm : Bool) :
      threadRefs (content key.eventID) = some refs →
      Moves s t key (.checked pm rm) (threadWrites key.eventID refs pm rm) (.written pm rm)
  | scan : Moves s t key .projected []
      (.scanned (waitingFor (s.view schema t) key.eventID))
  | enqueueNext (source : String) (todo : List String) :
      Moves s t key (.scanned (source :: todo))
        (repairWrites (s.view schema t) key.eventID source) (.scanned todo)

structure Apart (s s' : State τ) (t : τ) (phase : Phase) : Prop where
  phase_eq : s'.phase = Function.update s.phase t phase
  own_ne : ∀ u, u ≠ t → s'.own u = s.own u

inductive Fires (s s' : State τ) : Action τ → Prop where
  | insertEvent (id : String) : id ∉ s.committed.events →
      s' = autocommit s (s.committed.insertEvent id) → Fires s s' (.insertEvent id)
  | deleteEvent (id : String) : s' = autocommit s (s.committed.deleteEvent id) →
      Fires s s' (.deleteEvent id)
  | claim (t : τ) (key : JobKey) : s.phase t = .idle → s.committed.job key = some .pending →
      s' = (autocommit s (s.committed.setJob key (some (.running t)))).goto t
        (.busy key .claimed) → Fires s s' (.claim t key)
  | recoverStale (key : JobKey) (dead : Bool) (t : τ) :
      s.committed.job key = some (.running t) →
      s' = autocommit s (s.committed.setJob key (some (unfinished dead))) →
      Fires s s' (.recoverStale key dead)
  | purge (key : JobKey) (state : JobState τ) : s.committed.job key = some state →
      state.isTerminal = true → s' = autocommit s (s.committed.setJob key none) →
      Fires s s' (.purge key)
  | move (a : Action τ) (t : τ) (key : JobKey) (stage next : Stage) (ws : List Write) :
      (∀ source todo, stage = .scanned (source :: todo) → a = .enqueueNext t) →
      s.phase t = .busy key stage → Moves content s t key stage ws next →
      s'.committed = s.committed → s'.own t = s.own t ++ ws → Apart s s' t (.busy key next) →
      Fires s s' a
  | commitThread (t : τ) (key : JobKey) (pm rm : Bool) : s.phase t = .busy key (.written pm rm) →
      s' = s.commit schema t (.busy key (afterProjection key)) → Fires s s' (.commitThread t)
  | commitRepairs (t : τ) (key : JobKey) : s.phase t = .busy key (.scanned []) →
      s' = s.commit schema t (.busy key .finished) → Fires s s' (.commitRepairs t)
  | complete (t : τ) (key : JobKey) : s.phase t = .busy key .finished →
      s' = (release s t key .succeeded).goto t .idle → Fires s s' (.complete t)
  | fail (t : τ) (key : JobKey) (stage : Stage) (dead : Bool) : s.phase t = .busy key stage →
      s' = (release s t key (unfinished dead)).rollback t .idle → Fires s s' (.fail t dead)
  | crash (t : τ) (key : JobKey) (stage : Stage) : s.phase t = .busy key stage →
      s' = s.rollback t .idle → Fires s s' (.crash t)

variable {content} {s s' : State τ} {a : Action τ} {t : τ} {next stage : Stage}

theorem busy_of_step (ha : a.worker = some t) (h : step content s a = some s') :
    ∃ key stage, s.phase t = .busy key stage ∧ advance content s t key stage a = some s' := by
  cases hp : s.phase t with
  | idle => cases a <;> cases ha <;> simp [step, Action.worker, hp] at h
  | busy key stage =>
    refine ⟨key, stage, rfl, ?_⟩
    cases a <;> cases ha <;> simpa [step, Action.worker, hp] using h

theorem fires_goto (hp : s.phase t = .busy key stage) (hm : Moves content s t key stage [] next)
    (ha : ∀ source todo, stage = .scanned (source :: todo) → a = .enqueueNext t) :
    Fires content s (s.goto t (.busy key next)) a :=
  .move a t key stage next [] ha hp hm rfl (append_nil _).symm ⟨rfl, fun _ _ => rfl⟩

theorem fires_write {ws : List Write} (hp : s.phase t = .busy key stage)
    (hm : Moves content s t key stage ws next)
    (h : s.write schema t ws (.busy key next) = some s')
    (ha : ∀ source todo, stage = .scanned (source :: todo) → a = .enqueueNext t) :
    Fires content s s' a := by
  obtain ⟨hcommitted, hphase, hown, hne⟩ := Session.write_eq_some h
  exact .move a t key stage next ws ha hp hm hcommitted hown ⟨hphase, hne⟩

/-- What an open transaction can do, one case per line of `advance`. -/
theorem fires_of_advance (ha : a.worker = some t) (hp : s.phase t = .busy key stage)
    (h : advance content s t key stage a = some s') :
    Fires content s s' a := by
  unfold advance at h
  split at h <;> first | cases ha | contradiction
  · simp only [Option.ite_none_right_eq_some, Option.some.injEq] at h
    exact h.2 ▸ fires_goto hp (.load h.1) (by simp)
  · exact fires_write hp .clear h (by simp)
  · obtain ⟨refs, hrefs, rfl⟩ := Option.map_eq_some_iff.mp h
    by_cases hroot : refs.root = refs.parent
    · simpa [hroot] using fires_goto hp (.checkOne refs hrefs hroot) (by simp)
    · simpa [hroot] using fires_goto hp (.checkParent refs hrefs hroot) (by simp)
  · obtain ⟨refs, hrefs, rfl⟩ := Option.map_eq_some_iff.mp h
    exact fires_goto hp (.checkRoot refs _ hrefs) (by simp)
  · simp only [Option.ite_none_right_eq_some, Option.isNone_iff_eq_none] at h
    exact fires_write hp (.dropEdge h.1) h.2 (by simp)
  · obtain ⟨refs, hrefs, h⟩ := Option.bind_eq_some_iff.mp h
    simp only [Option.ite_none_right_eq_some] at h
    exact fires_write hp (.writeThread refs _ _ hrefs) h.2 (by simp)
  · exact .commitThread t key _ _ hp (Option.some.inj h).symm
  · exact Option.some.inj h ▸ fires_goto hp .scan (by simp)
  · exact fires_write hp (.enqueueNext _ _) h fun _ _ _ => rfl
  · exact .commitRepairs t key hp (Option.some.inj h).symm
  · exact .complete t key hp (Option.some.inj h).symm
  · exact .fail t key _ _ hp (Option.some.inj h).symm
  · exact .crash t key _ hp (Option.some.inj h).symm

theorem fires_of_step (h : step content s a = some s') : Fires content s s' a := by
  cases ha : a.worker with
  | some t =>
    obtain ⟨key, stage, hp, h⟩ := busy_of_step ha h
    exact fires_of_advance ha hp h
  | none =>
    cases a with
    | insertEvent id =>
      simp only [step, Option.ite_none_left_eq_some, Option.some.injEq] at h
      exact .insertEvent id h.1 h.2.symm
    | deleteEvent id =>
      simp only [step, Option.ite_none_left_eq_some, Option.some.injEq] at h
      exact .deleteEvent id h.2.symm
    | claim t key =>
      simp only [step, Option.ite_none_right_eq_some, Option.some.injEq] at h
      exact .claim t key h.1.1 h.1.2 h.2.symm
    | recoverStale key dead =>
      simp only [step] at h
      split at h
      · exact .recoverStale key dead _ ‹_› (Option.some.inj h).symm
      · exact nomatch h
    | purge key =>
      simp only [step, Option.ite_none_right_eq_some, Option.some.injEq, Option.any_eq_true] at h
      obtain ⟨⟨state, hjob, hterminal⟩, hs'⟩ := h
      exact .purge key state hjob hterminal hs'.symm
    | _ => exact nomatch ha

end NostrMash.Threads
