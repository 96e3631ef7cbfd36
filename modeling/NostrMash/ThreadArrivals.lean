import NostrMash.ThreadWaiting

/-!
# Events and the queue

The steps outside of the workers' transactions keep the invariant of a reply: the insertion and the
deletion of events, and the claims and the maintenance of the queue.
-/

namespace NostrMash.Threads
open AuthorStats List
variable {τ : Type} [DecidableEq τ] {content : String → EventContent} {reply id : String}
  {refs : ThreadRefs} {s s' : State τ} {t : τ} {key : JobKey} {dead : Bool} {stage : Stage}

structure SameRows (reply : String) (T T' : Tables τ) : Prop where
  edges_eq : T'.edges reply = T.edges reply
  mem_iff : ∀ row, row.source = reply → (row ∈ T'.unresolved ↔ row ∈ T.unresolved)

omit [DecidableEq τ] in
theorem SameRows.waits_iff {T T' : Tables τ} (h : SameRows reply T T') (id : String) :
    Waits reply T' id ↔ Waits reply T id := by
  constructor
  · rintro ⟨row, hrow, hsource, hmissing⟩
    exact ⟨row, (h.mem_iff row hsource).mp hrow, hsource, hmissing⟩
  · rintro ⟨row, hrow, hsource, hmissing⟩
    exact ⟨row, (h.mem_iff row hsource).mpr hrow, hsource, hmissing⟩

theorem inv_of_sameRows (h : Inv content reply refs s) (hshaped : Shaped content s')
    (hrows : SameRows reply s.committed s'.committed)
    (hmissing : ∀ t id, FoundMissing content reply id (s'.phase t) → id ∉ s'.committed.events)
    (hprojects : reply ∈ s'.committed.events → s.committed.edges reply = none →
      Ahead s' (.deriveEventBundle reply) fun _ stage => stage.beforeProjection = true)
    (hrepairs : ∀ id, id = refs.parent ∨ id = refs.root → id ∈ s'.committed.events →
      Waits reply s.committed id → Repairs reply s' id) : Inv content reply refs s' where
  shaped := hshaped
  missing := hmissing
  edge edge hedge := by
    rw [hrows.edges_eq] at hedge
    rw [hrows.waits_iff, hrows.waits_iff]
    exact h.edge edge hedge
  projects hreply hnone := hprojects hreply (hrows.edges_eq ▸ hnone)
  repairs id hid hstored hwaits := hrepairs id hid hstored ((hrows.waits_iff id).mp hwaits)

theorem missing_apart (h : Inv content reply refs s) {p : Phase} (ha : Apart s s' t p)
    (hevents : s'.committed.events = s.committed.events)
    (ht : ∀ id, FoundMissing content reply id p → id ∉ s.committed.events) :
    ∀ u id, FoundMissing content reply id (s'.phase u) → id ∉ s'.committed.events := by
  intro u id hfound
  rw [ha.phase_eq] at hfound
  rw [hevents]
  by_cases hu : u = t
  · subst hu
    rw [Function.update_self] at hfound
    exact ht id hfound
  · rw [Function.update_of_ne hu] at hfound
    exact h.missing u id hfound

theorem scanAhead_congr (hown : s'.own t = s.own t) (h : ScanAhead reply s id t stage) :
    ScanAhead reply s' id t stage := by
  cases stage with
  | scanned todo =>
    unfold ScanAhead at h ⊢
    rwa [hown]
  | finished => exact h
  | _ => trivial

theorem clearAhead_congr (hown : s'.own t = s.own t)
    (hrows : ∀ row ∈ s'.committed.unresolved, row.source = reply → row.missing = id →
      row ∈ s.committed.unresolved)
    (h : ClearAhead reply s id t stage) : ClearAhead reply s' id t stage := by
  refine ⟨h.1, h.2.imp_right (Or.imp_right fun hall row hrow hsource hmissing => ?_)⟩
  rw [hown]
  exact hall row (hrows row hrow hsource hmissing) hsource hmissing

theorem Repairs.apart {p : Phase} (h : Repairs reply s id) (ha : Apart s s' t p)
    (hrows : ∀ row ∈ s'.committed.unresolved, row.source = reply → row.missing = id →
      row ∈ s.committed.unresolved) (hjob : ∀ key, s'.committed.job key = s.committed.job key ∨
      s'.committed.job key = some .pending)
    (hscan : ∀ stage, p = .busy (.deriveEventBundle id) stage →
      (∀ stage', s.phase t = .busy (.deriveEventBundle id) stage' →
        ScanAhead reply s id t stage') → ScanAhead reply s' id t stage)
    (hclear : ∀ stage, p = .busy (.updateThreadProjection reply id) stage →
      (∀ stage', s.phase t = .busy (.updateThreadProjection reply id) stage' →
        ClearAhead reply s id t stage') → ClearAhead reply s' id t stage) :
    Repairs reply s' id := by
  rcases h with h | h
  · exact .inl (h.apart ha (hjob _) (fun u stage hu => scanAhead_congr (ha.own_ne u hu)) hscan)
  · exact .inr (h.apart ha (hjob _) (fun u stage hu => clearAhead_congr (ha.own_ne u hu) hrows)
      hclear)

section

omit [DecidableEq τ]

theorem job_insertEvent (T : Tables τ) (id : String) (key : JobKey) : (T.insertEvent id).job key =
      if key = .deriveEventBundle id ∧ T.job key = none then some .pending else T.job key := by
  unfold Tables.insertEvent
  by_cases hk : key = .deriveEventBundle id
  · subst hk
    cases hjob : T.job (.deriveEventBundle id) with
    | none => simp
    | some state =>
      rw [if_neg (by simp), if_neg (by simp)]
      exact hjob
  · have hother : ¬ (key = .deriveEventBundle id ∧ T.job key = none) := fun h => hk h.1
    rw [if_neg hother]
    split_ifs
    · exact job_setJob_ne _ hk _
    · rfl

theorem sameRows_insertEvent (T : Tables τ) (id : String) :
    SameRows reply T (T.insertEvent id) := by
  unfold Tables.insertEvent
  split_ifs
  · exact ⟨rfl, fun _ _ => Iff.rfl⟩
  · exact ⟨rfl, fun _ _ => Iff.rfl⟩

theorem events_insertEvent (T : Tables τ) (id : String) :
    (T.insertEvent id).events = id :: T.events := by
  unfold Tables.insertEvent
  split_ifs <;> rfl

theorem sameRows_deleteEvent (T : Tables τ) (hid : id ≠ reply) :
    SameRows reply T (T.deleteEvent id) where
  edges_eq := Function.update_of_ne hid.symm _ _
  mem_iff row hsource := by
    have hne : row.source ≠ id := fun h => hid (h.symm.trans hsource)
    simp [Tables.deleteEvent, hne]

theorem concerns_iff (hrefs : threadRefs (content reply) = some refs) :
    Concerns content reply id ↔ id = reply ∨ id = refs.parent ∨ id = refs.root := by
  simp [Concerns, hrefs]

theorem foundMissing_iff (hrefs : threadRefs (content reply) = some refs) :
    FoundMissing content reply id (.busy key stage) ↔
      key.eventID = reply ∧ id ∈ missingRefs refs stage := by
  simp [FoundMissing, hrefs]

theorem mem_refs_of_missing (h : id ∈ missingRefs refs stage) :
    id = refs.parent ∨ id = refs.root := by
  cases stage <;> simp only [missingRefs, not_mem_nil, mem_append,
    mem_ite_nil_right, mem_singleton] at h
  · exact .inl h.2
  · exact h.imp And.right And.right
  · exact h.imp And.right And.right

variable [DecidableEq τ]

theorem inv_insertEvent (hrefs : threadRefs (content reply) = some refs)
    (h : Inv content reply refs s)
    (hg : Concerns content reply id → Free s.committed (.deriveEventBundle id) ∧
      ∀ t, ¬ FoundMissing content reply id (s.phase t)) :
    Inv content reply refs (autocommit s (s.committed.insertEvent id)) := by
  have hahead : ∀ {key : JobKey} {Q Q' : τ → Stage → Prop}, Ahead s key Q →
      (∀ t stage, Q t stage → Q' t stage) →
        Ahead (autocommit s (s.committed.insertEvent id)) key Q' := by
    intro key Q Q' ha hQ
    have hsome : s.committed.job key ≠ none := by
      rcases ha with ha | ⟨t, ha, -⟩ <;> simp [ha]
    have hjob : (s.committed.insertEvent id).job key = s.committed.job key := by
      rw [job_insertEvent, if_neg fun hk => hsome hk.2]
    exact ha.mono hjob fun t ht stage hstage => hQ t stage (ht stage hstage)
  have hpending : Concerns content reply id → ∀ {Q : τ → Stage → Prop},
      Ahead (autocommit s (s.committed.insertEvent id)) (.deriveEventBundle id) Q := by
    intro hc Q
    refine .of_pending ?_
    show (s.committed.insertEvent id).job _ = _
    rw [job_insertEvent]
    rcases (hg hc).1 with hfree | hfree <;> simp [hfree]
  refine inv_of_sameRows h h.shaped (sameRows_insertEvent s.committed id) ?_ ?_ ?_
  · intro t id' hfound hmem
    rw [autocommit, events_insertEvent] at hmem
    rcases mem_cons.mp hmem with rfl | hmem
    · refine (hg ?_).2 t hfound
      cases hp : s.phase t with
      | idle => simp [autocommit, hp, FoundMissing] at hfound
      | busy key stage =>
        rw [show (autocommit s (s.committed.insertEvent id')).phase t = s.phase t from rfl, hp,
          foundMissing_iff hrefs] at hfound
        exact (concerns_iff hrefs).mpr (.inr (mem_refs_of_missing hfound.2))
    · exact h.missing t id' hfound hmem
  · intro hreply hnone
    rw [autocommit, events_insertEvent] at hreply
    rcases mem_cons.mp hreply with rfl | hreply
    · exact hpending ((concerns_iff hrefs).mpr (.inl rfl))
    · exact hahead (h.projects hreply hnone) fun _ _ hb => hb
  · intro id' hid' hstored hwaits
    rw [autocommit, events_insertEvent] at hstored
    rcases mem_cons.mp hstored with rfl | hstored
    · exact .inl (hpending ((concerns_iff hrefs).mpr (.inr hid')))
    · rcases h.repairs id' hid' hstored hwaits with hr | hr
      · exact .inl (hahead hr fun _ _ => scanAhead_congr rfl)
      · refine .inr (hahead hr fun _ _ => clearAhead_congr rfl fun row hrow hsource _ => ?_)
        exact ((sameRows_insertEvent s.committed id).mem_iff row hsource).mp hrow

theorem inv_deleteEvent (h : Inv content reply refs s) (hid : id ≠ reply) :
    Inv content reply refs (autocommit s (s.committed.deleteEvent id)) := by
  have hsub : ∀ x ∈ (s.committed.deleteEvent id).events, x ∈ s.committed.events :=
    fun x hx => mem_of_mem_filter hx
  have hahead : ∀ {key : JobKey} {Q Q' : τ → Stage → Prop}, Ahead s key Q →
      (∀ t stage, Q t stage → Q' t stage) →
        Ahead (autocommit s (s.committed.deleteEvent id)) key Q' :=
    fun ha hQ => ha.mono rfl fun t ht stage hstage => hQ t stage (ht stage hstage)
  refine inv_of_sameRows h h.shaped (sameRows_deleteEvent s.committed hid) ?_ ?_ ?_
  · exact fun t x hfound hx => h.missing t x hfound (hsub x hx)
  · exact fun hreply hnone => hahead (h.projects (hsub _ hreply) hnone) fun _ _ hb => hb
  · intro x hx hstored hwaits
    rcases h.repairs x hx (hsub x hstored) hwaits with hr | hr
    · exact .inl (hahead hr fun _ _ => scanAhead_congr rfl)
    · refine .inr (hahead hr fun _ _ => clearAhead_congr rfl fun row hrow hsource _ => ?_)
      exact ((sameRows_deleteEvent s.committed hid).mem_iff row hsource).mp hrow

end

theorem foundMissing_nil (hnil : ∀ refs, missingRefs refs stage = []) :
    ¬ FoundMissing content reply id (.busy key stage) := by
  rintro ⟨-, hany⟩
  obtain ⟨refs, -, hmem⟩ := Option.any_eq_true _ _ |>.mp hany
  rw [hnil] at hmem
  exact nomatch of_decide_eq_true hmem

theorem inv_claim (h : Inv content reply refs s) {t : τ} {key : JobKey}
    (hshaped : Shaped content ((autocommit s (s.committed.setJob key (some (.running t)))).goto t
      (.busy key .claimed))) :
    Inv content reply refs ((autocommit s (s.committed.setJob key (some (.running t)))).goto t
      (.busy key .claimed)) := by
  refine inv_of_sameRows h hshaped ⟨rfl, fun _ _ => Iff.rfl⟩ ?_ ?_ ?_
  · exact missing_apart (t := t) (p := .busy key .claimed) h ⟨rfl, fun _ _ => rfl⟩ rfl
      fun id hfound => absurd hfound (foundMissing_nil fun _ => rfl)
  · exact fun hreply hnone => (h.projects hreply hnone).claim rfl fun _ _ hb => hb
  · intro id hid hstored hwaits
    rcases h.repairs id hid hstored hwaits with hr | hr
    · exact .inl (hr.claim trivial fun _ _ => scanAhead_congr rfl)
    · exact .inr (hr.claim ⟨rfl, .inl rfl⟩ fun _ _ => clearAhead_congr rfl fun _ hrow _ _ => hrow)

omit [DecidableEq τ] in
theorem lives_of_mayDie {key' : JobKey} (hg : dead = true → MayDie content reply s.committed key)
    (hevent : key'.eventID = reply) :
    key' = key → dead = false := by
  rintro rfl
  by_contra hdead
  exact (hg (by simpa using hdead)).1 hevent

omit [DecidableEq τ] in
theorem lives_of_stored (hrefs : threadRefs (content reply) = some refs)
    (hg : dead = true → MayDie content reply s.committed key)
    (hid : id = refs.parent ∨ id = refs.root) (hstored : id ∈ s.committed.events) :
    JobKey.deriveEventBundle id = key → dead = false := by
  rintro rfl
  by_contra hdead
  exact (hg (by simpa using hdead)).2 ((concerns_iff hrefs).mpr (.inr hid)) hstored

theorem inv_recoverStale (hrefs : threadRefs (content reply) = some refs)
    (h : Inv content reply refs s) {key : JobKey}
    (hg : dead = true → MayDie content reply s.committed key) : Inv content reply refs
      (autocommit s (s.committed.setJob key (some (unfinished dead)))) := by
  refine inv_of_sameRows h h.shaped ⟨rfl, fun _ _ => Iff.rfl⟩ h.missing ?_ ?_
  · exact fun hreply hnone => (h.projects hreply hnone).recover (lives_of_mayDie hg rfl)
      fun _ _ hb => hb
  · intro id hid hstored hwaits
    rcases h.repairs id hid hstored hwaits with hr | hr
    · exact .inl (hr.recover (lives_of_stored hrefs hg hid hstored) fun _ _ => scanAhead_congr rfl)
    · exact .inr (hr.recover (lives_of_mayDie hg rfl) fun _ _ =>
        clearAhead_congr rfl fun _ hrow _ _ => hrow)

theorem inv_purge (h : Inv content reply refs s) {key : JobKey} {state : JobState τ}
    (hjob : s.committed.job key = some state) (hterminal : state.isTerminal = true) :
    Inv content reply refs (autocommit s (s.committed.setJob key none)) := by
  refine inv_of_sameRows h h.shaped ⟨rfl, fun _ _ => Iff.rfl⟩ h.missing ?_ ?_
  · exact fun hreply hnone => (h.projects hreply hnone).purge hjob hterminal fun _ _ hb => hb
  · intro id hid hstored hwaits
    rcases h.repairs id hid hstored hwaits with hr | hr
    · exact .inl (hr.purge hjob hterminal fun _ _ => scanAhead_congr rfl)
    · exact .inr (hr.purge hjob hterminal fun _ _ =>
        clearAhead_congr rfl fun _ hrow _ _ => hrow)

end NostrMash.Threads
