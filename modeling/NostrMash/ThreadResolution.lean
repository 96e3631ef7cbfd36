import NostrMash.ThreadStatements

/-!
# Resolution of thread references

The commits of the workers keep the invariant of a reply too. When every job has finished, nothing
is ahead of the reply any more, so its edge has found every stored event that it names.
-/

namespace NostrMash.Threads
open AuthorStats Machine
variable {τ : Type} [DecidableEq τ] {content : String → EventContent} {reply : String}
  {refs : ThreadRefs} {s s' : State τ} {t : τ} {key : JobKey}

theorem committed_commit (s : State τ) (t : τ) (p : Phase) :
    (s.commit schema t p).committed = (s.own t).foldl Write.apply s.committed := rfl

theorem job_commit (s : State τ) (t : τ) (p : Phase) (key : JobKey) :
    (s.commit schema t p).committed.job key = s.committed.job key ∨
      (s.commit schema t p).committed.job key = some .pending := by
  rw [committed_commit, job_foldl]
  split_ifs
  · exact .inr rfl
  · exact .inl rfl

theorem events_commit (s : State τ) (t : τ) (p : Phase) :
    (s.commit schema t p).committed.events = s.committed.events :=
  events_foldl s.committed (s.own t)

theorem inv_commit_other (h : Inv content reply refs s) {stage next : Stage}
    (hp : s.phase t = .busy key stage)
    (hshaped : Shaped content (s.commit schema t (.busy key next)))
    (hother : ∀ w ∈ s.own t, w.owner ≠ some reply) (hnil : ∀ refs, missingRefs refs next = [])
    (hbundle : key = .deriveEventBundle reply → stage.beforeProjection = false)
    (hscan : ∀ id, key = .deriveEventBundle id → ScanAhead reply s id t stage →
      .enqueue (.updateThreadProjection reply id) ∈ s.own t ∨
        ∀ s' : State τ, ScanAhead reply s' id t next)
    (hclear : ∀ id, key = .updateThreadProjection reply id → stage.beforeProjection = false) :
    Inv content reply refs (s.commit schema t (.busy key next)) := by
  have ha := apart_commit s t (.busy key next)
  have hrows : SameRows reply s.committed (s.commit schema t (.busy key next)).committed :=
    ⟨(foldl_other s.committed hother).1, (foldl_other s.committed hother).2⟩
  have hevents := events_commit s t (.busy key next)
  refine inv_of_sameRows h hshaped hrows
    (missing_apart h ha hevents fun id hfound => absurd hfound (foundMissing_nil hnil)) ?_ ?_
  · intro hreply hnone
    refine (h.projects (hevents ▸ hreply) hnone).apart ha (job_commit s t _ _)
      (fun _ _ _ hb => hb) fun stage' hp' hb => ?_
    cases hp'
    exact nomatch (hbundle rfl).symm.trans (hb stage hp)
  · intro id hid hstored hwaits
    by_cases hmem : .enqueue (.updateThreadProjection reply id) ∈ s.own t
    · refine .inr (.of_pending ?_)
      rw [committed_commit, job_foldl, if_pos hmem]
    · refine (h.repairs id hid (hevents ▸ hstored) hwaits).apart ha
        (fun row hrow hsource _ => (hrows.mem_iff row hsource).mp hrow) (job_commit s t _) ?_ ?_
      · intro stage' hp' hahead
        cases hp'
        exact ((hscan id rfl (hahead stage hp)).resolve_left hmem) _
      · intro stage' hp' hahead
        cases hp'
        exact nomatch (hclear id rfl).symm.trans (hahead stage hp).1

theorem inv_commitRepairs (h : Inv content reply refs s) (hp : s.phase t = .busy key (.scanned []))
    (hshaped : Shaped content (s.commit schema t (.busy key .finished))) :
    Inv content reply refs (s.commit schema t (.busy key .finished)) := by
  have howner : ∀ w ∈ s.own t, w.owner = none := shape_busy h.shaped hp
  refine inv_commit_other h hp hshaped (fun w hw => by simp [howner w hw]) (fun _ => rfl)
    (fun _ => rfl) (fun id _ hscan => .inl ?_) fun _ _ => rfl
  exact hscan.resolve_left List.not_mem_nil

theorem missingRefs_afterProjection (refs : ThreadRefs) (key : JobKey) :
    missingRefs refs (afterProjection key) = [] := by
  cases key <;> rfl

theorem inv_commitThread_other (h : Inv content reply refs s) {pm rm : Bool}
    (hp : s.phase t = .busy key (.written pm rm)) (hkey : key.eventID ≠ reply)
    (hshaped : Shaped content (s.commit schema t (.busy key (afterProjection key)))) :
    Inv content reply refs (s.commit schema t (.busy key (afterProjection key))) := by
  obtain ⟨-, ds, hds, hown⟩ := shape_busy h.shaped hp
  refine inv_commit_other h hp hshaped ?_ (fun refs => missingRefs_afterProjection refs key)
    ?_ ?_ ?_
  · intro w hw howner
    rw [hown] at hw
    rcases List.mem_append.mp hw with hw | hw
    · obtain ⟨row, rfl, hsource⟩ := hds w hw
      exact hkey (hsource.symm.trans (Option.some.inj howner))
    · exact hkey (Option.some.inj ((owner_projectionWrites hw).symm.trans howner))
  · rintro rfl
    exact absurd rfl hkey
  · rintro id rfl -
    exact .inr fun _ => trivial
  · rintro id rfl
    exact absurd rfl hkey

theorem inv_commitThread_self (hrefs : threadRefs (content reply) = some refs)
    (h : Inv content reply refs s) {pm rm : Bool}
    (hp : s.phase t = .busy key (.written pm rm)) (hkey : key.eventID = reply)
    (hshaped : Shaped content (s.commit schema t (.busy key (afterProjection key)))) :
    Inv content reply refs (s.commit schema t (.busy key (afterProjection key))) := by
  obtain ⟨huniform, ds, hds, hown⟩ := shape_busy h.shaped hp
  rw [hkey] at huniform hds hown
  rw [projectionWrites, hrefs] at hown
  have ha := apart_commit s t (.busy key (afterProjection key))
  have hevents := events_commit s t (.busy key (afterProjection key))
  have hcommitted : (s.commit schema t (.busy key (afterProjection key))).committed =
      (threadWrites reply refs pm rm).foldl Write.apply (ds.foldl Write.apply s.committed) := by
    rw [committed_commit, hown, List.foldl_append]
  obtain ⟨hedge, hrow⟩ := foldl_threadWrites reply (ds.foldl Write.apply s.committed)
    refs pm rm
  rw [← hcommitted] at hedge hrow
  -- a row that the transaction wrote is for an event that is not stored
  have hold : ∀ row id,
      row ∈ (s.commit schema t (.busy key (afterProjection key))).committed.unresolved →
      row.missing = id → id ∈ s.committed.events →
        row ∈ s.committed.unresolved ∧ .deleteUnresolved row ∉ s.own t := by
    intro row id hmem hmissing hstored
    have hno : ∀ x, x ∈ missingRefs refs (.written pm rm) → x ∉ s.committed.events :=
      fun x hx => h.missing t x (hp ▸ (foundMissing_iff hrefs).mpr ⟨hkey, hx⟩)
    rcases (hrow row).mp hmem with hmem | ⟨hpm, rfl⟩ | ⟨hrm, -, rfl⟩
    · obtain ⟨hmem, hdel⟩ := (foldl_deletes _ hds row).mp hmem
      refine ⟨hmem, ?_⟩
      rw [hown]
      simp [hdel, threadWrites]
    · exact absurd hstored (hno id (by simp [missingRefs, hpm, ← hmissing]))
    · exact absurd hstored (hno id (by simp [missingRefs, hrm, ← hmissing]))
  exact
    { shaped := hshaped
      missing := missing_apart h ha hevents fun id hfound =>
        absurd hfound (foundMissing_nil fun refs => missingRefs_afterProjection refs key)
      edge := by
        intro edge hsome
        cases Option.some.inj (hedge.symm.trans hsome)
        have hparent : pm = true → Waits reply
            (s.commit schema t (.busy key (afterProjection key))).committed refs.parent :=
          fun hpm => ⟨_, (hrow _).mpr (.inr (.inl ⟨hpm, rfl⟩)), rfl, rfl⟩
        refine ⟨rfl, rfl, hparent, fun hrm => ?_⟩
        by_cases hroot : refs.root = refs.parent
        · rw [hroot]
          exact hparent (huniform refs hrefs hroot ▸ hrm)
        · exact ⟨_, (hrow _).mpr (.inr (.inr ⟨hrm, hroot, rfl⟩)), rfl, rfl⟩
      projects := fun _ hnone => by cases hedge.symm.trans hnone
      repairs := by
        rintro id hid hstored ⟨row, hmem, hsource, hmissing⟩
        have hstored' : id ∈ s.committed.events := hevents ▸ hstored
        obtain ⟨hmem', hdel⟩ := hold row id hmem hmissing hstored'
        refine (h.repairs id hid hstored' ⟨row, hmem', hsource, hmissing⟩).apart ha
          (fun r hr _ hmissing => (hold r id hr hmissing hstored').1) (job_commit s t _) ?_ ?_
        · intro stage' hp' _
          cases hp'
          trivial
        · intro stage' hp' hclear
          cases hp'
          rcases (hclear _ hp).2 with hc | hc | hall
          · cases hc
          · cases hc
          · exact absurd (hall row hmem' hsource hmissing) hdel }

theorem inv_init : Inv content reply refs (init : State τ) where
  shaped _ := rfl
  missing _ _ hfound := hfound.elim
  edge _ hedge := nomatch hedge
  projects hreply _ := nomatch hreply
  repairs _ _ hstored _ := nomatch hstored

theorem inv_step (hrefs : threadRefs (content reply) = some refs) {a : Action τ}
    (h : Inv content reply refs s) (hg : InOrder content reply s a)
    (hstep : step content s a = some s') : Inv content reply refs s' := by
  have hf := fires_of_step hstep
  have hshaped := shaped_fires h.shaped hf
  cases hf with
  | insertEvent id _ hs' =>
    rw [hs']
    exact inv_insertEvent hrefs h hg
  | deleteEvent id hs' =>
    rw [hs']
    exact inv_deleteEvent h hg
  | claim t key _ _ hs' =>
    rw [hs'] at hshaped ⊢
    exact inv_claim h hshaped
  | recoverStale key dead t _ hs' =>
    rw [hs']
    exact inv_recoverStale hrefs h hg
  | purge key state hjob hterminal hs' =>
    rw [hs']
    exact inv_purge h hjob hterminal
  | move _ t key stage next ws ha hp hm hcommitted hown hapart =>
    refine inv_move hrefs h hshaped hp hm hcommitted hown hapart ?_
    rintro id todo rfl rfl
    rw [ha reply todo rfl] at hg
    exact hg _ (by rw [hp]; rfl) rfl
  | commitThread t key pm rm hp hs' =>
    rw [hs'] at hshaped ⊢
    by_cases hkey : key.eventID = reply
    · exact inv_commitThread_self hrefs h hp hkey hshaped
    · exact inv_commitThread_other h hp hkey hshaped
  | commitRepairs t key hp hs' =>
    rw [hs'] at hshaped ⊢
    exact inv_commitRepairs h hp hshaped
  | complete t key hp hs' =>
    rw [hs'] at hshaped ⊢
    exact inv_complete h hp hshaped
  | fail t key stage dead hp hs' =>
    rw [hs'] at hshaped ⊢
    exact inv_fail hrefs h (fun hdead => hg hdead key (by rw [hp]; rfl)) hshaped
  | crash t key stage _ hs' =>
    rw [hs'] at hshaped ⊢
    exact inv_crash h hshaped

def Quiescent (s : State τ) : Prop :=
  (∀ p ∈ s.committed.jobs, p.2.isTerminal = true) ∧ ∀ t, s.phase t = .idle

/-- The edge of the reply has found the stored events that it names. -/
def Resolved (content : String → EventContent) (reply : String) (s : State τ) : Prop :=
  Quiescent s → reply ∈ s.committed.events → ∀ refs, threadRefs (content reply) = some refs →
    ∀ id, id = refs.parent ∨ id = refs.root → id ∈ s.committed.events →
      (∃ edge, s.committed.edges reply = some edge ∧
        edge.parent = refs.parent ∧ edge.root = refs.root ∧
        (id = refs.parent → edge.parentMissing = false) ∧
        (id = refs.root → edge.rootMissing = false)) ∧
      ∀ row ∈ s.committed.unresolved, row.source = reply → row.missing ≠ id

omit [DecidableEq τ] in
theorem not_ahead (h : Quiescent s) {Q : τ → Stage → Prop} : ¬ Ahead s key Q := by
  have hterminal : ∀ state, s.committed.job key = some state → state.isTerminal = true := by
    intro state hjob
    obtain ⟨before, after, hjobs, -⟩ := List.lookup_eq_some_iff.mp hjob
    exact h.1 (key, state) (by simp [hjobs])
  rintro (hjob | ⟨t, hjob, -⟩)
  · exact nomatch hterminal _ hjob
  · exact nomatch hterminal _ hjob

theorem resolved_of_inv (hinv : ∀ refs, threadRefs (content reply) = some refs →
    Inv content reply refs s) : Resolved content reply s := by
  intro hquiet hreply refs hrefs id hid hstored
  have h := hinv refs hrefs
  have hwaits : ¬ Waits reply s.committed id := by
    intro hwaits
    rcases h.repairs id hid hstored hwaits with hr | hr
    · exact not_ahead hquiet hr
    · exact not_ahead hquiet hr
  refine ⟨?_, fun row hrow hsource hmissing => hwaits ⟨row, hrow, hsource, hmissing⟩⟩
  cases hedge : s.committed.edges reply with
  | none => exact absurd (h.projects hreply hedge) (not_ahead hquiet)
  | some edge =>
    obtain ⟨hparent, hroot, hpm, hrm⟩ := h.edge edge hedge
    refine ⟨edge, rfl, hparent, hroot, ?_, ?_⟩
    · rintro rfl
      exact Bool.eq_false_iff.mpr fun hmissing => hwaits (hpm hmissing)
    · rintro rfl
      exact Bool.eq_false_iff.mpr fun hmissing => hwaits (hrm hmissing)

/-- In a run in which no event that the reply names arrives behind the back of a transaction that
found it missing, and no row of a finished job drops a bundle or a repair, the reply is resolved
whenever all jobs have finished. -/
theorem always_resolved_of_inOrder (content : String → EventContent) (reply : String)
    (actions : List (Action τ)) (hg : Guarded (step content) (InOrder content reply) init actions) :
    Always (step content) (Resolved content reply) init actions := by
  intro bs hpre s hrun
  refine resolved_of_inv fun refs hrefs => ?_
  exact run_invariant (fun s a s' h hga hstep => inv_step hrefs h hga hstep) inv_init
    (guarded_initial hpre hg) hrun

instance decidableFoundMissing (content : String → EventContent) (reply id : String) :
    (p : Phase) → Decidable (FoundMissing content reply id p)
  | .idle => isFalse fun h => h
  | .busy _ _ => inferInstanceAs (Decidable (_ ∧ _))

instance decidableConcerns (content : String → EventContent) (reply id : String) :
    Decidable (Concerns content reply id) := inferInstanceAs (Decidable (_ ∨ _))

instance decidableFree (T : Tables τ) (key : JobKey) : Decidable (Free T key) :=
  inferInstanceAs (Decidable (_ ∨ _))

instance decidableMayDie (content : String → EventContent) (reply : String) (T : Tables τ)
    (key : JobKey) : Decidable (MayDie content reply T key) := inferInstanceAs (Decidable (_ ∧ _))

instance decidableInOrder [Fintype τ] (content : String → EventContent) (reply : String)
    (s : State τ) (a : Action τ) : Decidable (InOrder content reply s a) := by
  cases a <;> unfold InOrder <;> infer_instance

def replyTo : String → EventContent
  | "r" => { pubkey := "a", kind := 1, createdAt := 2, tags := [["e", "p", "", "reply"]] }
  | _ => { pubkey := "b", kind := 1, createdAt := 1, tags := [] }

def rootBundle (t : Bool) (id : String) : List (Action Bool) :=
  [.claim t (.deriveEventBundle id), .loadEvent t, .deleteUnresolved t, .writeThread t,
    .commitThread t, .scan t, .commitRepairs t, .complete t]

def parentMeanwhile : List (Action Bool) :=
  [.insertEvent "r", .claim false (.deriveEventBundle "r"), .loadEvent false,
    .deleteUnresolved false, .checkParent false, .insertEvent "p"] ++ rootBundle true "p" ++
    [.writeThread false, .commitThread false, .scan false, .commitRepairs false, .complete false]

def parentLater : List (Action Bool) :=
  [.insertEvent "r", .claim false (.deriveEventBundle "r"), .loadEvent false,
    .deleteUnresolved false, .checkParent false, .writeThread false, .commitThread false,
    .scan false, .commitRepairs false, .complete false, .insertEvent "p",
    .claim true (.deriveEventBundle "p"), .loadEvent true, .deleteUnresolved true,
    .writeThread true, .commitThread true, .scan true, .enqueueNext true, .commitRepairs true,
    .complete true, .claim false (.updateThreadProjection "r" "p"), .loadEvent false,
    .deleteUnresolved false, .checkParent false, .writeThread false, .commitThread false,
    .complete false]

theorem parentLater_resolved : Guarded (step replyTo) (InOrder replyTo "r") init parentLater ∧
      Always (step replyTo) (Resolved replyTo "r") init parentLater := by
  have hg : Guarded (step replyTo) (InOrder replyTo "r") init parentLater := by decide
  exact ⟨hg, always_resolved_of_inOrder replyTo "r" parentLater hg⟩

theorem parentMeanwhile_unresolved :
    ∃ s, run (step replyTo) init parentMeanwhile = some s ∧ ¬ Resolved replyTo "r" s := by
  have hrun : (run (step replyTo) init parentMeanwhile).any (fun s =>
      decide ((∀ p ∈ s.committed.jobs, p.2.isTerminal = true) ∧ (∀ t, s.phase t = .idle) ∧
        s.committed.events = ["p", "r"] ∧
        s.committed.unresolved = [⟨"r", "p", .reply⟩])) = true := by decide
  obtain ⟨s, hs, hfacts⟩ := Option.any_eq_true _ _ |>.mp hrun
  obtain ⟨hjobs, hidle, hevents, hrows⟩ := of_decide_eq_true hfacts
  refine ⟨s, hs, fun hresolved => ?_⟩
  have hrefs : threadRefs (replyTo "r") = some ⟨"p", "p"⟩ := by decide
  obtain ⟨-, hnone⟩ := hresolved ⟨hjobs, hidle⟩ (by simp [hevents]) _ hrefs "p" (.inl rfl)
    (by simp [hevents])
  exact hnone ⟨"r", "p", .reply⟩ (by simp [hrows]) rfl rfl

end NostrMash.Threads
