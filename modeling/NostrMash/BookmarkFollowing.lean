import NostrMash.BookmarkEdges

/-!
# Runs of the bookmark jobs

Every step keeps the invariant if the jobs that take the lock are those of current lists, so the
rows of the address are those of its current list when all jobs are done. Two jobs that overlap
otherwise leave the rows of the older list.
-/

namespace NostrMash.Bookmarks
open AuthorStats ReadCommitted Replaceable Session Option Function

section
variable {τ : Type} [DecidableEq τ] {stored : String → Option EventContent} {event : τ → String}
  {A : Address} {articles : Address → Option Winner} {s : State τ} {t : τ} {e : EventContent}
  {w : Winner}

theorem state_record_ne (S : Replaceable.Tables) (v : Version) {B : Address}
    (h : B ≠ v.address) : (S.record v).state B = S.state B := by
  rw [Tables.record, state_queueLoser, state_upsert_ne S h]

theorem state_record_self (S : Replaceable.Tables) (v : Version) :
    (S.record v).state v.address = some v.row ∨ (S.record v).state = S.state := by
  rw [Tables.record, state_queueLoser, Tables.upsert]
  split_ifs
  · exact .inl (update_self _ _ _)
  · exact .inr rfl

theorem view_eq (h : Inv stored event A articles s)
    (hl : loaded stored (event t) = some (e, some ⟨A, w⟩)) :
    s.view schema t = (openWrites articles e ⟨A, w⟩ (s.phase t)).foldl Write.apply s.committed := by
  rw [Session.view, (h.jobs.2 t e _ hl).1]
  rfl

theorem inv_record (hkind : A.kind ≠ 30023) (h : Inv stored event A articles s)
    (hl : loaded stored (event t) = some (e, some ⟨A, w⟩)) (hp : s.phase t = .loserQueued) :
    Inv stored event A articles (s.commit schema t .recorded) := by
  have hview : s.view schema t =
      { s.committed with replaceable := s.committed.replaceable.record ⟨A, w⟩ } := by
    rw [view_eq h hl, hp]
    rfl
  have hcommitted : (s.commit schema t .recorded).committed =
      { s.committed with replaceable := s.committed.replaceable.record ⟨A, w⟩ } := hview
  have hphase : (s.commit schema t .recorded).phase = Function.update s.phase t .recorded := rfl
  have hheld : ∀ u, ((s.commit schema t .recorded).phase u).Holding → (s.phase u).Holding :=
    fun _ => holding_of_update hphase False.elim
  have hexclusive : ∀ u u', ((s.commit schema t .recorded).phase u).Holding →
      ((s.commit schema t .recorded).phase u').Holding → u = u' :=
    fun u u' hu hu' => h.exclusive u u' (hheld u hu) (hheld u' hu')
  have hjobs : (s.commit schema t .recorded).Holds (SameArticles articles)
      (Job stored event articles) := by
    refine holds_commit (fun B hB => ?_) (fun _ _ _ => ⟨rfl, trivial⟩)
      fun u _ => h.jobs.2 u
    have hne : B ≠ A := fun heq => hkind (heq ▸ hB)
    rw [hview]
    exact (state_record_ne _ ⟨A, w⟩ hne).trans (h.jobs.1 B hB)
  rcases state_record_self s.committed.replaceable ⟨A, w⟩ with hwon | hsame
  · have howed : Owed event A (s.commit schema t .recorded) := by
      refine ⟨t, ?_, ?_⟩
      · rw [hphase, update_self]
        exact nofun
      · rw [hcommitted]
        show (((s.committed.replaceable.record ⟨A, w⟩).state A).any _) = true
        rw [hwon, any_some]
        exact decide_eq_true (eventID_of_loaded hl).1
    exact ⟨hjobs, hexclusive, .inr howed, fun _ _ => howed⟩
  · have howed : Owed event A s → Owed event A (s.commit schema t .recorded) := fun ho => by
      refine ho.update ?_ hphase nofun
      rw [hcommitted]
      exact congrFun hsame A
    refine ⟨hjobs, hexclusive, h.follows.imp (fun hf => ?_) howed,
      fun u hu => howed (h.holding u (hheld u hu))⟩
    rw [hcommitted]
    unfold Follows currentEdges
    dsimp only
    rw [hsame]
    exact hf

theorem inv_rewrite (h : Inv stored event A articles s)
    (hl : loaded stored (event t) = some (e, some ⟨A, w⟩)) (hp : s.phase t = .inserted) :
    Inv stored event A articles (s.commit schema t .done) := by
  obtain ⟨hid, hstored, hat⟩ := eventID_of_loaded hl
  let rows := edgeRows A w (targetsOf articles e)
  have hreplaceable : (s.view schema t).replaceable = s.committed.replaceable := by
    rw [view_eq h hl, hp]
    rfl
  have hedges : (s.view schema t).edges = ((s.committed.edges.filter (·.source ≠ A)).filter
      fun row => row.primaryKey ∉ rows.map (·.primaryKey)) ++ rows := by
    rw [view_eq h hl, hp]
    rfl
  have hphase : (s.commit schema t .done).phase = Function.update s.phase t .done := rfl
  have hheld : ∀ u, ¬ ((s.commit schema t .done).phase u).Holding := by
    intro u hu
    have hut : u = t := h.exclusive u t (holding_of_update hphase False.elim hu) (hp ▸ trivial)
    rw [hphase, hut, update_self] at hu
    exact hu
  have hjobs : (s.commit schema t .done).Holds (SameArticles articles)
      (Job stored event articles) :=
    holds_commit (fun B hB => hreplaceable ▸ h.jobs.1 B hB)
      (fun _ _ _ => ⟨rfl, trivial⟩) fun u _ => h.jobs.2 u
  refine ⟨hjobs, fun u _ hu => (hheld u hu).elim, ?_, fun u hu => (hheld u hu).elim⟩
  cases hcurrent : (s.committed.replaceable.state A).any (·.eventID = trimSpace (event t)) with
  | false =>
    -- the current list came while this job held the lock, and its job waits
    have howed : Owed event A s := h.holding t (hp ▸ trivial)
    exact .inr (howed.update (congrArg (·.state A) hreplaceable) hphase fun _ => hcurrent)
  | true =>
    refine .inl fun row hrow => ?_
    obtain ⟨w', hw', heq⟩ := (any_eq_true _ _).mp hcurrent
    have hw'id : w'.eventID = w.eventID := (of_decide_eq_true heq).trans hid.symm
    have hcurrentEdges : currentEdges stored A (s.view schema t) = rows := by
      rw [currentEdges_eq (hreplaceable ▸ hw') (hw'id ▸ hid ▸ hstored), hw'id, ← hat,
        hreplaceable, resolve_congr h.jobs.1]
      rfl
    show row ∈ (s.view schema t).edges ↔ row ∈ currentEdges stored A (s.view schema t)
    rw [hcurrentEdges, hedges]
    simp [hrow]

theorem inv_lock {s' : State τ} (h : Inv stored event A articles s)
    (hall : OfAddress stored event A) (hp : s.phase t = .current)
    (hcurrent : (s.committed.replaceable.state A).any (·.eventID = trimSpace (event t)) = true)
    (hw : s.write schema t [.lockPubkeyForWrite A.pubkey] .locked = some s') :
    Inv stored event A articles s' := by
  obtain ⟨hcommitted, hphase, -, -⟩ := write_eq_some hw
  have hfree : ∀ u, u ≠ t → ¬ (s.phase u).Holding := by
    intro u hu hheld
    obtain ⟨e, w, hl⟩ := hall u
    have hmem : .lockPubkeyForWrite A.pubkey ∈ s.own u := by
      rw [(h.jobs.2 u e _ hl).1]
      cases hpu : s.phase u <;> simp_all [Phase.Holding, openWrites]
    exact row_ne_of_write hw (.head _) hu hmem rfl
  have honly : ∀ u, (s'.phase u).Holding → u = t := by
    intro u hu
    by_contra hut
    rw [hphase, update_of_ne hut] at hu
    exact hfree u hut hu
  have howed : Owed event A s' := by
    refine ⟨t, ?_, hcommitted ▸ hcurrent⟩
    rw [hphase, update_self]
    exact nofun
  refine ⟨holds_write h.jobs hw fun e v hl => ?_,
    fun u u' hu hu' => (honly u hu).trans (honly u' hu').symm, .inr howed, fun _ _ => howed⟩
  obtain ⟨e', w', hl'⟩ := hall t
  obtain ⟨rfl, hv⟩ := Prod.mk.inj (some.inj (hl.symm.trans hl'))
  cases hv
  refine ⟨?_, trivial⟩
  rw [(h.jobs.2 t e _ hl).1, hp]
  rfl

end

variable {τ : Type} [DecidableEq τ] {stored : String → Option EventContent} {event : τ → String}
  {A : Address} {articles : Address → Option Winner} {s s' : State τ} {t : τ} {e : EventContent}
  {w : Winner}

theorem inv_write {ws : List Write} {q : Phase} (h : Inv stored event A articles s)
    (hl : loaded stored (event t) = some (e, some ⟨A, w⟩))
    (hw : s.write schema t ws q = some s') (hdone : q ≠ .done)
    (hq : q.Holding → (s.phase t).Holding)
    (hopen : openWrites articles e ⟨A, w⟩ q = openWrites articles e ⟨A, w⟩ (s.phase t) ++ ws)
    (hresolved : (s.phase t).Resolved (targetsOf articles e) → q.Resolved (targetsOf articles e)) :
    Inv stored event A articles s' := by
  obtain ⟨hcommitted, hphase, -, -⟩ := write_eq_some hw
  refine h.quiet (holds_write h.jobs hw fun e' v' hl' => ?_) hcommitted hphase
    (fun heq => absurd heq hdone) hq
  obtain ⟨rfl, hv⟩ := Prod.mk.inj (some.inj (hl.symm.trans hl'))
  cases hv
  obtain ⟨hown, hfound⟩ := h.jobs.2 t e _ hl
  exact ⟨by rw [hown, hopen], hresolved hfound⟩

theorem inv_next (hlist : isBookmarkList A.kind = true) (hall : OfAddress stored event A)
    (h : Inv stored event A articles s) (hl : loaded stored (event t) = some (e, some ⟨A, w⟩))
    (hg : StillCurrent event A s (.next t)) (hs : next ⟨A, w⟩ e.tags s t = some s') :
    Inv stored event A articles s' := by
  have hkind : A.kind ≠ 30023 := by
    rintro hk
    simp [isBookmarkList, hk] at hlist
  unfold next at hs
  cases hp : s.phase t <;> rw [hp] at hs <;> dsimp only at hs
  case queued => exact inv_write h hl hs nofun False.elim (by rw [hp]; rfl) fun _ => trivial
  case upserted => exact inv_write h hl hs nofun False.elim (by rw [hp]; rfl) fun _ => trivial
  case loserQueued =>
    cases hs
    exact inv_record hkind h hl hp
  case recorded =>
    have hgoto : ∀ q : Phase, q = .current ∨ q = .done →
        (s.goto t q).Holds (SameArticles articles) (Job stored event articles) := by
      intro q hq
      refine holds_goto h.jobs fun e' v' hl' => ?_
      rw [(h.jobs.2 t e' v' hl').1, hp]
      rcases hq with rfl | rfl <;> exact ⟨rfl, trivial⟩
    split_ifs at hs with hcurrent
    · cases hs
      exact h.quiet (hgoto _ (.inl rfl)) rfl rfl nofun False.elim
    · cases hs
      refine h.quiet (hgoto _ (.inr rfl)) rfl rfl (fun _ => ?_) False.elim
      rw [hlist, Bool.true_and, Bool.not_eq_true] at hcurrent
      rw [← (eventID_of_loaded hl).1]
      exact hcurrent
  case current =>
    exact inv_lock h hall hp (hg hp) hs
  case locked =>
    cases hs
    refine h.quiet (holds_goto h.jobs fun e' v' hl' => ?_) rfl rfl nofun
      fun _ => hp ▸ trivial
    obtain ⟨rfl, hv⟩ := Prod.mk.inj (some.inj (hl.symm.trans hl'))
    cases hv
    have hview : (s.view schema t).replaceable = s.committed.replaceable := by
      rw [view_eq h hl, hp]
      rfl
    refine ⟨?_, ?_⟩
    · rw [(h.jobs.2 t e _ hl).1, hp]
      rfl
    · show resolveBookmarkAddresses _ _ = targetsOf articles e
      rw [hview, resolve_congr h.jobs.1]
      rfl
  case resolved targets =>
    exact inv_write h hl hs nofun (fun _ => hp ▸ trivial) (by rw [hp]; rfl) fun hr => by
      rw [hp] at hr
      exact hr
  case deleted targets =>
    obtain ⟨-, hfound⟩ := h.jobs.2 t e _ hl
    rw [hp] at hfound
    obtain rfl : targets = targetsOf articles e := hfound
    exact inv_write h hl hs nofun (fun _ => hp ▸ trivial) (by rw [hp]; rfl) fun _ => trivial
  case inserted =>
    cases hs
    exact inv_rewrite h hl hp
  case done => exact nomatch hs

theorem inv_step (hlist : isBookmarkList A.kind = true) (hall : OfAddress stored event A)
    (s : State τ) (a : Act τ) (s' : State τ) (h : Inv stored event A articles s)
    (hg : StillCurrent event A s a) (hs : step stored event s a = some s') :
    Inv stored event A articles s' := by
  cases a with
  | next t =>
    obtain ⟨e, w, hl⟩ := hall t
    rw [step, hl] at hs
    exact inv_next hlist hall h hl hg hs
  | fail t =>
    rw [step] at hs
    split at hs
    · exact nomatch hs
    · cases hs
      exact h.quiet (holds_rollback h.jobs fun _ _ _ => ⟨rfl, trivial⟩) rfl rfl nofun
        False.elim

/-- When all jobs of the versions of a bookmark list are done, the rows are those of the current
version, in every run in which no job takes the lock for a version that was replaced. -/
theorem follows_of_stillCurrent (hlist : isBookmarkList A.kind = true)
    (hall : OfAddress stored event A) (T : Tables) (hT : Follows stored A T) (acts : List (Act τ))
    (hg : Machine.Guarded (step stored event) (StillCurrent event A) (init T) acts)
    (hr : Machine.run (step stored event) (init T) acts = some s)
    (hdone : ∀ t, s.phase t = .done) : Follows stored A s.committed := by
  have hinit : Inv stored event A T.replaceable.state (init T) :=
    ⟨holds_start (fun _ _ => rfl) fun _ _ _ _ => ⟨rfl, trivial⟩,
      fun _ _ hheld => hheld.elim, .inl hT, fun _ hheld => hheld.elim⟩
  have hinv := Machine.run_invariant (inv_step hlist hall) hinit hg hr
  rcases hinv.follows with hfollows | ⟨t, ht, -⟩
  · exact hfollows
  · exact absurd (hdone t) ht

def twoLists : String → Option EventContent
  | "aa" => some ⟨"p", 10003, 1000, [["e", String.ofList (List.replicate 64 'a')]]⟩
  | "bb" => some ⟨"p", 10003, 2000, [["e", String.ofList (List.replicate 64 'b')]]⟩
  | _ => none

def listOf : Bool → String
  | false => "aa"
  | true => "bb"

def noTables : Tables := ⟨.empty, []⟩

theorem twoLists_ofAddress : OfAddress twoLists listOf ⟨"p", 10003, ""⟩ := by
  intro t
  cases t with
  | false => exact ⟨_, ⟨"aa", 1000⟩, rfl⟩
  | true => exact ⟨_, ⟨"bb", 2000⟩, rfl⟩

def waiting : List (Act Bool) :=
  List.replicate 5 (.next false) ++ List.replicate 4 (.next true) ++
    List.replicate 4 (.next false) ++ List.replicate 5 (.next true)

def overtaken : List (Act Bool) :=
  List.replicate 4 (.next false) ++ List.replicate 9 (.next true) ++ List.replicate 5 (.next false)

theorem waiting_follows : ∃ s, Machine.run (step twoLists listOf) (init noTables) waiting = some s ∧
      Follows twoLists ⟨"p", 10003, ""⟩ s.committed := by
  have hrun : (Machine.run (step twoLists listOf) (init noTables) waiting).any (fun s =>
      decide (∀ t, s.phase t = .done)) = true := by
    decide
  obtain ⟨s, hs, hdone⟩ := (any_eq_true _ _).mp hrun
  exact ⟨s, hs, follows_of_stillCurrent rfl twoLists_ofAddress noTables
    (fun _ _ => Iff.rfl) waiting (by decide) hs (of_decide_eq_true hdone)⟩

theorem overtaken_not_follows :
    OfAddress twoLists listOf ⟨"p", 10003, ""⟩ ∧ Follows twoLists ⟨"p", 10003, ""⟩ noTables ∧
      ∃ s, Machine.run (step twoLists listOf) (init noTables) overtaken = some s ∧
        (∀ t, s.phase t = .done) ∧ ¬ Follows twoLists ⟨"p", 10003, ""⟩ s.committed := by
  have hrun : (Machine.run (step twoLists listOf) (init noTables) overtaken).any (fun s =>
      decide ((∀ t, s.phase t = .done) ∧
        ∃ row ∈ s.committed.edges, row.source = ⟨"p", 10003, ""⟩ ∧ row.listEventID = "aa" ∧
          row ∉ currentEdges twoLists ⟨"p", 10003, ""⟩ s.committed)) = true := by
    decide
  obtain ⟨s, hs, hrow⟩ := (any_eq_true _ _).mp hrun
  obtain ⟨hdone, row, hmem, hsource, -, hrow⟩ := of_decide_eq_true hrow
  exact ⟨twoLists_ofAddress, fun _ _ => Iff.rfl, s, hs, hdone,
    fun hfollows => hrow ((hfollows row hsource).mp hmem)⟩

end NostrMash.Bookmarks
