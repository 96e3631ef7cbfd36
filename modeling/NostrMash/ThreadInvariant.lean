import NostrMash.ThreadTransactions

/-!
# What a reply waits for

A row of `unresolved_thread_references` of the reply for an event that is stored must be on its way
out: the bundle of the event has not scanned for it yet, or has found it and will enqueue the
repair, or the repair job will still delete it.
-/

namespace NostrMash.Threads
open AuthorStats ReadCommitted List Session
variable {τ : Type} [DecidableEq τ] (content : String → EventContent)

/-- A reply to the root of its thread is looked up once. -/
def Uniform (id : String) (parentMissing rootMissing : Bool) : Prop :=
  ∀ refs, threadRefs (content id) = some refs → refs.root = refs.parent →
    rootMissing = parentMissing

def Shape (key : JobKey) (ws : List Write) : Stage → Prop
  | .claimed => ws = []
  | .loaded => ws = []
  | .cleared => Deletes key.eventID ws
  | .parentChecked _ =>
    Deletes key.eventID ws ∧
      ∀ refs, threadRefs (content key.eventID) = some refs → refs.root ≠ refs.parent
  | .checked pm rm => Deletes key.eventID ws ∧ Uniform content key.eventID pm rm
  | .written pm rm => Uniform content key.eventID pm rm ∧ ∃ ds, Deletes key.eventID ds ∧
      ws = ds ++ projectionWrites content key.eventID pm rm
  | .projected => ws = []
  | .scanned _ => ∀ w ∈ ws, w.owner = none
  | .finished => ws = []

def PhaseShape (ws : List Write) : Phase → Prop
  | .idle => ws = []
  | .busy key stage => Shape content key ws stage

def Shaped (s : State τ) : Prop := ∀ t, PhaseShape content (s.own t) (s.phase t)

variable {content} {s s' : State τ} {t : τ} {a : Action τ} {key : JobKey} {stage : Stage}

theorem own_release (s : State τ) (t u : τ) (key : JobKey) (state : JobState τ) :
    (release s t key state).own u = s.own u := by
  unfold release
  split_ifs <;> rfl

theorem phase_release (s : State τ) (t : τ) (key : JobKey) (state : JobState τ) :
    (release s t key state).phase = s.phase := by
  unfold release
  split_ifs <;> rfl

theorem apart_commit (s : State τ) (t : τ) (p : Phase) : Apart s (s.commit schema t p) t p :=
  ⟨rfl, fun _ hu => own_commit_ne schema s p hu⟩

theorem apart_rollback (s : State τ) (t : τ) (p : Phase) : Apart s (s.rollback t p) t p :=
  ⟨rfl, fun _ hu => own_rollback_ne s p hu⟩

theorem apart_complete (s : State τ) (t : τ) (key : JobKey) :
    Apart s ((release s t key .succeeded).goto t .idle) t .idle := by
  refine ⟨?_, fun u _ => own_release s t u key _⟩
  rw [phase_goto, phase_release]

theorem apart_fail (s : State τ) (t : τ) (key : JobKey) (dead : Bool) :
    Apart s ((release s t key (unfinished dead)).rollback t .idle) t .idle := by
  refine ⟨?_, fun u hu => ?_⟩
  · rw [Session.rollback, phase_goto, phase_release]
  · rw [own_rollback_ne _ _ hu, own_release]

theorem shaped_apart {p : Phase} (h : Shaped content s) (ha : Apart s s' t p)
    (ht : PhaseShape content (s'.own t) p) : Shaped content s' := by
  intro u
  by_cases hu : u = t
  · subst hu
    rw [ha.phase_eq, Function.update_self]
    exact ht
  · rw [ha.phase_eq, Function.update_of_ne hu, ha.own_ne u hu]
    exact h u

theorem view_of_nil (h : s.own t = []) : s.view schema t = s.committed := by
  rw [Session.view, h]
  rfl

theorem events_view (s : State τ) (t : τ) : (s.view schema t).events = s.committed.events :=
  events_foldl s.committed (s.own t)

omit [DecidableEq τ] in
theorem owner_repairWrites {T : Tables τ} {id source : String} {w : Write}
    (hw : w ∈ repairWrites T id source) : w.owner = none := by
  simp only [repairWrites, mem_ite_nil_right, mem_singleton] at hw
  rw [hw.2]
  rfl

theorem shape_moves {next : Stage} {ws : List Write} (hm : Moves content s t key stage ws next)
    (h : Shape content key (s.own t) stage) : Shape content key (s.own t ++ ws) next := by
  cases hm with
  | load => exact (append_nil _).trans h
  | clear =>
    have hnil : s.own t = [] := h
    rw [hnil, nil_append]
    intro w hw
    obtain ⟨row, hrow, rfl⟩ := mem_map.mp hw
    exact ⟨row, rfl, of_decide_eq_true (mem_filter.mp hrow).2⟩
  | checkOne refs hrefs hroot =>
    rw [append_nil]
    exact ⟨h, fun _ _ _ => rfl⟩
  | checkParent refs hrefs hroot =>
    rw [append_nil]
    refine ⟨h, fun refs' hrefs' => ?_⟩
    rw [Option.some.inj (hrefs'.symm.trans hrefs)]
    exact hroot
  | checkRoot refs pm hrefs =>
    rw [append_nil]
    exact ⟨h.1, fun refs' hrefs' hroot => absurd hroot (h.2 refs' hrefs')⟩
  | dropEdge hnone =>
    refine ⟨fun refs hrefs => ?_, s.own t, h, ?_⟩
    · exact nomatch hnone.symm.trans hrefs
    · rw [projectionWrites, hnone]
  | writeThread refs pm rm hrefs =>
    refine ⟨h.2, s.own t, h.1, ?_⟩
    rw [projectionWrites, hrefs]
  | scan =>
    have hnil : s.own t = [] := h
    rw [hnil]
    exact nofun
  | enqueueNext source todo =>
    intro w hw
    rcases mem_append.mp hw with hw | hw
    · exact h w hw
    · exact owner_repairWrites hw

theorem shape_busy (h : Shaped content s) (hp : s.phase t = .busy key stage) :
    Shape content key (s.own t) stage := by
  have ht := h t
  rwa [hp] at ht

theorem shaped_fires (h : Shaped content s) (hf : Fires content s s' a) : Shaped content s' := by
  cases hf with
  | insertEvent id _ hs' => exact hs' ▸ h
  | deleteEvent id hs' => exact hs' ▸ h
  | recoverStale key dead t _ hs' => exact hs' ▸ h
  | purge key state _ _ hs' => exact hs' ▸ h
  | claim t key hidle _ hs' =>
    have ht : PhaseShape content (s.own t) (s.phase t) := h t
    rw [hidle] at ht
    rw [hs']
    exact shaped_apart h ⟨rfl, fun _ _ => rfl⟩ ht
  | move _ t key stage next ws _ hp hm _ hown hapart =>
    refine shaped_apart h hapart ?_
    rw [hown]
    exact shape_moves hm (shape_busy h hp)
  | commitThread t key pm rm _ hs' =>
    rw [hs']
    refine shaped_apart h (apart_commit s t _) ?_
    rw [own_commit_self]
    cases key <;> rfl
  | commitRepairs t key _ hs' =>
    rw [hs']
    refine shaped_apart h (apart_commit s t _) ?_
    rw [own_commit_self]
    rfl
  | complete t key hp hs' =>
    have hnil : s.own t = [] := shape_busy h hp
    rw [hs']
    exact shaped_apart h (apart_complete s t key) ((own_release s t t key _).trans hnil)
  | fail t key stage dead _ hs' =>
    rw [hs']
    exact shaped_apart h (apart_fail s t key dead) (own_rollback_self _ t .idle)
  | crash t key stage _ hs' =>
    rw [hs']
    exact shaped_apart h (apart_rollback s t _) (own_rollback_self s t .idle)

end NostrMash.Threads
