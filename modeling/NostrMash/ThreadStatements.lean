import NostrMash.ThreadArrivals

/-!
# Statements of the workers

The statements of a transaction and the ends of a job keep the invariant of a reply. The scan finds
the reply, and the repair deletes its rows, because each sees what was committed before it.
-/

namespace NostrMash.Threads
open AuthorStats List
variable {τ : Type} [DecidableEq τ] {content : String → EventContent} {reply : String}
  {refs : ThreadRefs} {s s' : State τ} {t : τ} {key : JobKey}

theorem committed_release (reply : String) (s : State τ) (t : τ) (key : JobKey)
    (state : JobState τ) : (release s t key state).committed.events = s.committed.events ∧
      SameRows reply s.committed (release s t key state).committed := by
  unfold release
  split_ifs
  · exact ⟨rfl, rfl, fun _ _ => Iff.rfl⟩
  · exact ⟨rfl, rfl, fun _ _ => Iff.rfl⟩

theorem inv_crash (h : Inv content reply refs s) (hshaped : Shaped content (s.rollback t .idle)) :
    Inv content reply refs (s.rollback t .idle) := by
  have ha := apart_rollback s t .idle
  refine inv_of_sameRows h hshaped ⟨rfl, fun _ _ => Iff.rfl⟩
    (missing_apart h ha rfl fun _ hfound => hfound.elim) ?_ ?_
  · exact fun hreply hnone => (h.projects hreply hnone).apart ha (.inl rfl)
      (fun _ _ _ hb => hb) nofun
  · exact fun id hid hstored hwaits => (h.repairs id hid hstored hwaits).apart ha
      (fun _ hrow _ _ => hrow) (fun _ => .inl rfl) nofun nofun

theorem inv_complete (h : Inv content reply refs s) (hp : s.phase t = .busy key .finished)
    (hshaped : Shaped content ((release s t key .succeeded).goto t .idle)) :
    Inv content reply refs ((release s t key .succeeded).goto t .idle) := by
  obtain ⟨hevents, hrows⟩ := committed_release reply s t key .succeeded
  refine inv_of_sameRows h hshaped hrows
    (missing_apart h (apart_complete s t key) hevents fun _ hfound => hfound.elim) ?_ ?_
  · intro hreply hnone
    exact (h.projects (hevents ▸ hreply) hnone).complete hp nofun fun _ _ hb => hb
  · intro id hid hstored hwaits
    rcases h.repairs id hid (hevents ▸ hstored) hwaits with hr | hr
    · exact .inl (hr.complete hp (fun hno => hno)
        fun u _ => scanAhead_congr (own_release s t u key .succeeded))
    · refine .inr (hr.complete hp (fun hno => nomatch hno.1) fun u _ =>
        clearAhead_congr (own_release s t u key .succeeded) fun row hrow hsource _ => ?_)
      exact (hrows.mem_iff row hsource).mp hrow

theorem inv_fail (hrefs : threadRefs (content reply) = some refs) (h : Inv content reply refs s)
    {dead : Bool} (hg : dead = true → MayDie content reply s.committed key)
    (hshaped : Shaped content ((release s t key (unfinished dead)).rollback t .idle)) :
    Inv content reply refs ((release s t key (unfinished dead)).rollback t .idle) := by
  obtain ⟨hevents, hrows⟩ := committed_release reply s t key (unfinished dead)
  have ha := apart_fail s t key dead
  refine inv_of_sameRows h hshaped hrows
    (missing_apart h ha hevents fun _ hfound => hfound.elim) ?_ ?_
  · intro hreply hnone
    exact (h.projects (hevents ▸ hreply) hnone).fail (lives_of_mayDie hg rfl) fun _ _ _ hb => hb
  · intro id hid hstored hwaits
    have hstored' : id ∈ s.committed.events := hevents ▸ hstored
    rcases h.repairs id hid hstored' hwaits with hr | hr
    · exact .inl (hr.fail (lives_of_stored hrefs hg hid hstored')
        fun u _ hu => scanAhead_congr (ha.own_ne u hu))
    · refine .inr (hr.fail (lives_of_mayDie hg rfl) fun u _ hu =>
        clearAhead_congr (ha.own_ne u hu) fun row hrow hsource _ => ?_)
      exact (hrows.mem_iff row hsource).mp hrow

variable {stage next : Stage} {ws : List Write} {id : String}

theorem moves_missing (hrefs : threadRefs (content reply) = some refs)
    (hm : Moves content s t key stage ws next) (hkey : key.eventID = reply)
    (hid : id ∈ missingRefs refs next) : id ∈ missingRefs refs stage ∨ id ∉ s.committed.events := by
  have hsame : ∀ {refs'}, threadRefs (content key.eventID) = some refs' → refs' = refs :=
    fun hrefs' => Option.some.inj ((hkey ▸ hrefs').symm.trans hrefs)
  cases hm with
  | checkOne refs' hrefs' hroot =>
    rw [hsame hrefs', events_view] at hid
    rw [hsame hrefs'] at hroot
    simp only [missingRefs, hroot, decide_eq_true_eq, mem_append, mem_ite_nil_right,
      mem_singleton, or_self] at hid
    exact .inr (hid.2 ▸ hid.1)
  | checkParent refs' hrefs' hroot =>
    rw [hsame hrefs', events_view] at hid
    simp only [missingRefs, decide_eq_true_eq, mem_ite_nil_right, mem_singleton] at hid
    exact .inr (hid.2 ▸ hid.1)
  | checkRoot refs' pm hrefs' =>
    rw [hsame hrefs', events_view] at hid
    simp only [missingRefs, decide_eq_true_eq, mem_append, mem_ite_nil_right, mem_singleton] at hid
    rcases hid with hid | hid
    · exact .inl (by simpa [missingRefs] using hid)
    · exact .inr (hid.2 ▸ hid.1)
  | writeThread refs' pm rm hrefs' => exact .inl hid
  | load => exact absurd hid List.not_mem_nil
  | clear => exact absurd hid List.not_mem_nil
  | dropEdge hnone =>
    rw [hkey] at hnone
    cases hnone.symm.trans hrefs
  | scan => exact absurd hid List.not_mem_nil
  | enqueueNext source todo => exact absurd hid List.not_mem_nil

theorem moves_beforeProjection (hm : Moves content s t key stage ws next)
    (hstage : stage.beforeProjection = true) : next.beforeProjection = true := by
  cases hm with
  | scan => exact hstage
  | enqueueNext source todo => exact hstage
  | _ => rfl

omit [DecidableEq τ] in
theorem mem_waitingFor {T : Tables τ} : reply ∈ waitingFor T id ↔ Waits reply T id := by
  simp only [waitingFor, mem_insertionSort, mem_dedup, mem_map, mem_filter,
    decide_eq_true_eq, Waits]
  constructor
  · rintro ⟨row, ⟨hrow, hmissing⟩, hsource⟩
    exact ⟨row, hrow, hsource, hmissing⟩
  · rintro ⟨row, hrow, hsource, hmissing⟩
    exact ⟨row, ⟨hrow, hmissing⟩, hsource⟩

theorem scanAhead_moves (h : Shaped content s)
    (hp : s.phase t = .busy (.deriveEventBundle id) stage)
    (hm : Moves content s t (.deriveEventBundle id) stage ws next)
    (hown : s'.own t = s.own t ++ ws) (hwaits : Waits reply s.committed id)
    (hfree : ∀ todo, stage = .scanned (reply :: todo) →
      s.committed.job (.updateThreadProjection reply id) = none)
    (hscan : ScanAhead reply s id t stage) : ScanAhead reply s' id t next := by
  cases hm with
  | scan =>
    have hnil : s.own t = [] := shape_busy h hp
    rw [view_of_nil hnil]
    exact .inl (mem_waitingFor.mpr hwaits)
  | enqueueNext source todo =>
    have hgrow : Write.enqueue (.updateThreadProjection reply id) ∈ s.own t →
        Write.enqueue (.updateThreadProjection reply id) ∈ s'.own t :=
      fun hmem => hown ▸ mem_append_left _ hmem
    rcases hscan with hmem | hmem
    · rcases mem_cons.mp hmem with rfl | hmem
      · refine .inr ?_
        by_cases howned : Write.enqueue (.updateThreadProjection reply id) ∈ s.own t
        · exact hgrow howned
        · have hjob : (s.view schema t).job (.updateThreadProjection reply id) = none := by
            show ((s.own t).foldl Write.apply s.committed).job _ = none
            rw [job_foldl, if_neg howned, hfree todo rfl]
          rw [hown]
          refine mem_append_right _ ?_
          simp [repairWrites, JobKey.eventID, hjob]
      · exact .inl hmem
    · exact .inr (hgrow hmem)
  | _ => trivial

theorem clearAhead_moves (h : Shaped content s)
    (hp : s.phase t = .busy (.updateThreadProjection reply id) stage)
    (hm : Moves content s t (.updateThreadProjection reply id) stage ws next)
    (hcommitted : s'.committed = s.committed) (hown : s'.own t = s.own t ++ ws)
    (hclear : ClearAhead reply s id t stage) : ClearAhead reply s' id t next := by
  refine ⟨moves_beforeProjection hm hclear.1, ?_⟩
  rw [hcommitted, hown]
  have hkeep : ¬ (stage = .claimed ∨ stage = .loaded) → next = .claimed ∨ next = .loaded ∨
      ∀ row ∈ s.committed.unresolved, row.source = reply → row.missing = id →
        .deleteUnresolved row ∈ s.own t ++ ws := by
    intro hno
    rcases hclear.2 with hc | hl | hall
    · exact absurd (.inl hc) hno
    · exact absurd (.inr hl) hno
    · exact .inr (.inr fun row hrow hsource hmissing =>
        mem_append_left _ (hall row hrow hsource hmissing))
  cases hm with
  | load => exact .inr (.inl rfl)
  | clear =>
    have hnil : s.own t = [] := shape_busy h hp
    refine .inr (.inr fun row hrow hsource _ => ?_)
    rw [view_of_nil hnil]
    refine mem_append_right _ (mem_map.mpr ⟨row, mem_filter.mpr ⟨hrow, ?_⟩, rfl⟩)
    exact decide_eq_true hsource
  | _ => exact hkeep (by simp)

theorem inv_move (hrefs : threadRefs (content reply) = some refs) (h : Inv content reply refs s)
    (hshaped : Shaped content s') (hp : s.phase t = .busy key stage)
    (hm : Moves content s t key stage ws next) (hcommitted : s'.committed = s.committed)
    (hown : s'.own t = s.own t ++ ws) (ha : Apart s s' t (.busy key next))
    (hfree : ∀ id todo, key = .deriveEventBundle id → stage = .scanned (reply :: todo) →
      Free s.committed (.updateThreadProjection reply id)) : Inv content reply refs s' := by
  have hjob : ∀ key, s'.committed.job key = s.committed.job key := fun _ => by rw [hcommitted]
  refine inv_of_sameRows h hshaped (hcommitted ▸ ⟨rfl, fun _ _ => Iff.rfl⟩)
    (missing_apart h ha (by rw [hcommitted]) ?_) ?_ ?_
  · intro id hfound
    obtain ⟨hkey, hid⟩ := (foundMissing_iff hrefs).mp hfound
    rcases moves_missing hrefs hm hkey hid with hid | hid
    · exact h.missing t id (hp ▸ (foundMissing_iff hrefs).mpr ⟨hkey, hid⟩)
    · exact hid
  · intro hreply hnone
    refine (h.projects (hcommitted ▸ hreply) hnone).apart ha (.inl (hjob _))
      (fun _ _ _ hb => hb) fun stage' hp' hb => ?_
    cases hp'
    exact moves_beforeProjection hm (hb stage hp)
  · intro id hid hstored hwaits
    by_cases hpending : s.committed.job (.updateThreadProjection reply id) = some .pending
    · exact .inr (.of_pending ((hjob _).trans hpending))
    · refine (h.repairs id hid (hcommitted ▸ hstored) hwaits).apart ha
        (fun row hrow _ _ => hcommitted ▸ hrow) (fun key => .inl (hjob key)) ?_ ?_
      · intro stage' hp' hscan
        cases hp'
        exact scanAhead_moves h.shaped hp hm hown hwaits
          (fun todo hstage => (hfree id todo rfl hstage).resolve_right hpending) (hscan stage hp)
      · intro stage' hp' hclear
        cases hp'
        exact clearAhead_moves h.shaped hp hm hcommitted hown (hclear stage hp)

end NostrMash.Threads
