import NostrMash.TrustInvariant

/-!
# Steps keep the snapshots in use

Each operation of a sync, a compute and a promote keeps the invariant, as does a failure and the
loss of a key.
-/

namespace NostrMash.Trust.TrustState
open List Function FollowGraph Option
variable {ι σ : Type} {R : Ranker ι σ} {s t : TrustState σ} {status : RunStatus} {id r ref run : ℕ}

theorem extends_setAttempt (s : TrustState σ) (id : ℕ) (a : Option (Attempt σ)) :
    Extends s (s.setAttempt id a) (some id) where
  written _ _ _ h := h
  terminal _ h := h
  computeJobs _ h := h
  promoteJobs _ h := h
  redis _ _ _ _ _ _ _ h := h
  locks _ _ h _ := ⟨h, rfl⟩
  attempts _ hid := update_of_ne (fun he => hid (congrArg some he)) _ _

theorem Inv.setAttempt (h : s.Inv R) {a : Option (Attempt σ)}
    (ha : ∀ b, a = some b → (s.setAttempt id a).AttemptOk R id b) : (s.setAttempt id a).Inv R := by
  refine h.extend (extends_setAttempt s id a) h.fresh ?_
  rintro _ b ⟨⟩ hb
  have hself : (s.setAttempt id a).attempts id = a := update_self ..
  exact ha b (hself.symm.trans hb)

theorem actor_none {f : ℕ → Option (Attempt σ)} {P : ℕ → Attempt σ → Prop} :
    ∀ i b, some i = some id → update f id none i = some b → P i b := by
  rintro _ b ⟨⟩ hb
  simp at hb

theorem actor_some {f : ℕ → Option (Attempt σ)} {P : ℕ → Attempt σ → Prop} {a : Attempt σ}
    (ha : P id a) : ∀ i b, some i = some id → update f id (some a) i = some b → P i b := by
  rintro _ b ⟨⟩ hb
  rw [update_self] at hb
  cases hb
  exact ha

theorem Inv.dropAttempt (h : s.Inv R) (id : ℕ) : (s.setAttempt id none).Inv R :=
  h.setAttempt fun _ hb => nomatch hb

theorem update_update_apply {β : Type} (f : ℕ → ℕ → β) (run ref : ℕ) (v : β) (run' ref' : ℕ) :
    Function.update f run (Function.update (f run) ref v) run' ref' =
      if run' = run ∧ ref' = ref then v else f run' ref' := by
  by_cases hrun : run' = run
  · subst hrun
    by_cases href : ref' = ref
    · simp [href]
    · simp [href]
  · simp [hrun]

theorem redis_updateSnapshot (s : TrustState σ) (run ref : ℕ) (f : FollowGraph → FollowGraph)
    (run' ref' : ℕ) : (s.updateSnapshot run ref f).redis run' ref' =
      if run' = run ∧ ref' = ref then f (s.redis run ref) else s.redis run' ref' :=
  update_update_apply ..

theorem redis_setAttempt (s : TrustState σ) (a : Option (Attempt σ)) :
    (s.setAttempt id a).redis = s.redis := rfl

theorem isTerminal_update (h : t.status = Function.update s.status run (some status)) (r : ℕ) :
    t.isTerminal r = if r = run then status.terminal else s.isTerminal r := by
  by_cases hr : r = run
  · subst hr
    rw [if_pos rfl]
    exact congrArg (Option.any _) ((congrFun h r).trans (update_self ..))
  · rw [if_neg hr]
    exact congrArg (Option.any _) ((congrFun h r).trans (update_of_ne hr ..))

theorem inv_trigger (h : s.Inv R) (hnone : s.status run = none) :
    { s with status := Function.update s.status run (some .pending) : TrustState σ }.Inv R := by
  have hterm : ∀ r, TrustState.isTerminal
      { s with status := Function.update s.status run (some .pending) } r = s.isTerminal r := by
    intro r
    rw [isTerminal_update rfl r]
    split_ifs with hr
    · subst hr
      exact (congrArg (Option.any RunStatus.terminal) hnone).symm
    · rfl
  have he : Extends s { s with status := Function.update s.status run (some .pending) } none :=
    { written := fun _ _ _ hw => hw
      terminal := fun r hr => (hterm r).trans hr
      computeJobs := fun _ hm => hm
      promoteJobs := fun _ hm => hm
      redis := fun _ _ _ _ _ _ _ hr => hr
      locks := fun r _ hl _ => ⟨hl, hterm r⟩
      attempts := fun _ _ => rfl }
  exact h.extend he h.fresh (fun _ _ hid => nomatch hid)

theorem inv_syncRead (h : s.Inv R) {rows : List Edge} (hs : s.syncRead id run ref rows = some t) :
    t.Inv R := by
  delta syncRead at hs
  simp only [ite_none_right_eq_some, Option.some.injEq] at hs
  obtain ⟨⟨-, -, hnone⟩, rfl⟩ := hs
  refine h.extend { extends_setAttempt s id _ with written := ?_ } ?_ ?_
  · intro run' ref' read hw
    simp only [update_update_apply]
    rw [if_neg]
    · exact hw
    · rintro ⟨rfl, rfl⟩
      exact nomatch (hnone.symm.trans hw)
  · intro run' ref' hw
    simp only [update_update_apply] at hw
    split_ifs at hw with heq
    exact h.fresh run' ref' hw
  · apply actor_some
    refine ⟨rows, by simp only [update_update_apply, and_self, if_true], fun _ he => he,
      fun _ => ?_⟩
    simp only [redis_setAttempt, h.fresh run ref hnone]
    simp [FollowGraph.ofRows, FollowGraph.empty, FollowGraph.addEdges]

theorem inv_syncFlush (h : s.Inv R) {count : ℕ} (hs : s.syncFlush id count = some t) :
    t.Inv R := by
  obtain ⟨run, ref, left, hatt, rfl⟩ := syncFlush_eq_some hs
  obtain ⟨read, hw, hleft, hredis⟩ := h.attempts id _ hatt
  have hbatch : ∀ e ∈ left.take count, e ∈ cleanEdges read := fun e he =>
    hleft e (mem_of_mem_take he)
  refine h.extend { extends_setAttempt s id _ with redis := ?_ } ?_ ?_
  · intro run' ref' read' left' _ hw' hleft' hr
    simp only [redis_setAttempt, redis_updateSnapshot]
    split_ifs with heq
    · obtain ⟨rfl, rfl⟩ := heq
      obtain rfl : read = read' := some.inj (hw.symm.trans hw')
      rw [addEdges_comm, hr, ofRows_addEdges hbatch]
    · exact hr
  · intro run' ref' hw'
    simp only [redis_setAttempt, redis_updateSnapshot]
    rw [if_neg]
    · exact h.fresh run' ref' hw'
    · rintro ⟨rfl, rfl⟩
      exact nomatch (hw.symm.trans hw')
  · apply actor_some
    refine ⟨read, hw, fun e he => hleft e (mem_of_mem_drop he), fun hrun => ?_⟩
    simp only [redis_setAttempt, redis_updateSnapshot, and_self, if_true]
    rw [addEdges_append, take_append_drop]
    exact hredis hrun

theorem inv_unlink (h : s.Inv R) (hfree : ¬ s.InUse run ref) (key : SnapshotKey) :
    (s.updateSnapshot run ref (·.unlink key)).Inv R := by
  have he : Extends s (s.updateSnapshot run ref (·.unlink key)) none :=
    { written := fun _ _ _ hw => hw
      terminal := fun _ hr => hr
      computeJobs := fun _ hm => hm
      promoteJobs := fun _ hm => hm
      redis := fun run' ref' _ _ huse _ _ hr => by
        rw [redis_updateSnapshot, if_neg]
        · exact hr
        · rintro ⟨rfl, rfl⟩
          exact hfree huse
      locks := fun _ _ hl _ => ⟨hl, rfl⟩
      attempts := fun _ _ => rfl }
  refine h.extend he ?_ (fun _ _ hid => nomatch hid)
  intro run' ref' hw
  rw [redis_updateSnapshot]
  split_ifs with heq
  · obtain ⟨rfl, rfl⟩ := heq
    rw [h.fresh run' ref' hw, unlink_empty]
  · exact h.fresh run' ref' hw

theorem not_locked_of_free (h : s.free run = true) (holder : ℕ) :
    s.lockedBy run ≠ some holder := by
  have hnone : (s.lockedBy run).isNone = true := (Bool.and_eq_true_iff.mp h).2
  simp [isNone_iff_eq_none.mp hnone]

theorem ne_of_locked {holder : ℕ} (hl : s.lockedBy r = some holder)
    (hfree : s.lockedBy run ≠ some holder) : r ≠ run := by
  rintro rfl
  exact hfree hl

theorem isTerminal_of_ne (h : t.status = Function.update s.status run (some status))
    (hne : r ≠ run) :
    t.isTerminal r = s.isTerminal r := by
  rw [isTerminal_update h, if_neg hne]

theorem terminal_of_running (hrun : s.isTerminal run ≠ true)
    (hstatus : t.status = Function.update s.status run (some .running))
    (hr : s.isTerminal r = true) : t.isTerminal r = true := by
  rw [isTerminal_update hstatus, if_neg]
  · exact hr
  · rintro rfl
    exact hrun hr

theorem inv_syncCommit (h : s.Inv R) (hs : s.syncCommit id = some t) : t.Inv R := by
  delta syncCommit at hs
  split at hs
  next run ref hatt =>
    split_ifs at hs with hfree hterm hjob
    · exact some.inj hs ▸ h.dropAttempt id
    · cases hs
      obtain ⟨read, hw, hredis⟩ := h.attempts id _ hatt
      refine h.extend { extends_setAttempt s id none with
          terminal := fun r hr => terminal_of_running hterm rfl hr
          computeJobs := fun _ hm => .tail _ hm
          locks := fun r holder hl _ => ⟨hl, ?_⟩ }
        h.fresh ?_ ?_
      · exact isTerminal_of_ne rfl
          (ne_of_locked hl (not_locked_of_free (by simpa using hfree) holder))
      · exact actor_none
      · intro run' ref' hm
        rcases mem_cons.mp hm with heq | hold
        · obtain ⟨rfl, rfl⟩ := Prod.mk.inj heq
          exact .inr ⟨read, hw, hredis (by simpa using hterm)⟩
        · exact .inl hold
  next => exact nomatch hs

theorem map_pubkey_stageRows (run : ℕ) (ranked : List (RankNode σ)) :
    (stageRows run ranked).map ScoreRow.pubkey = ranked.map RankNode.pubkey := by
  rw [stageRows, List.map_map]
  conv_rhs => rw [← zipIdx_map_fst 0 ranked, List.map_map]
  rfl

theorem ownRanking_stageRows {read : List Edge} (hw : s.written run ref = some read) (input : ι) :
    s.OwnRanking R run (stageRows run (R.rank (FollowGraph.ofRows read) input)) := by
  refine ⟨ref, read, input, hw, rfl, fun pubkey => ?_⟩
  rw [map_pubkey_stageRows]
  exact R.ranks_nodes _ _ _

theorem inv_computePersist (h : s.Inv R) {input : ι} (hs : s.computePersist R id input = some t) :
    t.Inv R := by
  delta computePersist at hs
  split at hs
  next run ref graph hatt =>
    split_ifs at hs with hfree hterm hjob
    · exact some.inj hs ▸ h.dropAttempt id
    · cases hs
      obtain ⟨read, hw, hgraph⟩ := h.attempts id _ hatt
      have hlive : s.Live run ref := ⟨by simpa using hterm, hjob⟩
      refine h.extend { extends_setAttempt s id none with
          terminal := fun r hr => terminal_of_running hterm rfl hr
          promoteJobs := fun _ hm => .tail _ hm
          locks := fun r holder hl _ => ⟨hl, ?_⟩ }
        h.fresh ?_ (fun _ _ hm => .inl hm) ?_
      · exact isTerminal_of_ne rfl
          (ne_of_locked hl (not_locked_of_free (by simpa using hfree) holder))
      · exact actor_none
      · intro run' ref' hm hrun'
        by_cases heq : run' = run
        · subst heq
          simp only [if_true, hgraph hlive]
          exact .inr (ownRanking_stageRows hw input)
        · have hold : (run', ref') ∈ s.promoteJobs := by
            simpa [heq] using hm
          rw [isTerminal_update rfl, if_neg heq] at hrun'
          simp [heq, hrun', hold]
  next => exact nomatch hs

theorem inv_promoteClear (h : s.Inv R) (hs : s.promoteClear id run ref = some t) : t.Inv R := by
  delta promoteClear at hs
  split_ifs at hs with hguard hterm
  · exact some.inj hs ▸ h
  · cases hs
    obtain ⟨hjob, -, hfree⟩ := hguard
    refine h.extend { extends_setAttempt s id _ with locks := ?_ } h.fresh ?_
    · intro r holder hl _
      have hne : r ≠ run := ne_of_locked hl (not_locked_of_free hfree holder)
      exact ⟨(update_of_ne hne _ _).trans hl, rfl⟩
    · apply actor_some
      have hrun : s.isTerminal run = false := by simpa using hterm
      exact ⟨update_self .., hjob, hrun⟩

theorem terminal_of_terminal (hterm : status.terminal = true)
    (hstatus : t.status = Function.update s.status run (some status)) (hr : s.isTerminal r = true) :
    t.isTerminal r = true := by
  rw [isTerminal_update hstatus]
  split_ifs
  · exact hterm
  · exact hr

theorem inv_promoteCommit [DecidableEq σ] (h : s.Inv R)
    (hseen : ∀ run ref visible rows, s.attempts id = some (.inserted run ref visible rows) →
      ∀ row ∈ s.published, row ∈ visible) (hs : s.promoteCommit id = some t) : t.Inv R := by
  delta promoteCommit at hs
  split at hs
  next run ref visible rows hatt =>
    have hkept : s.published.filter (· ∉ visible) = [] := by
      simpa [filter_eq_nil_iff] using hseen run ref visible rows hatt
    simp only [hkept, any_nil, Bool.false_eq_true, if_false, nil_append, Option.some.injEq] at hs
    subst hs
    obtain ⟨hlock, hown⟩ := h.attempts id _ hatt
    refine h.extend { extends_setAttempt s id none with
        terminal := fun r hr => terminal_of_terminal rfl rfl hr
        locks := fun r holder hl hne => ?_ }
      h.fresh ?_ (fun _ _ hm => .inl hm) ?_ (.inr ?_)
    · have hr : r ≠ run := ne_of_locked hl (hlock ▸ hne.symm)
      exact ⟨(update_of_ne hr _ _).trans hl, isTerminal_of_ne rfl hr⟩
    · exact actor_none
    · intro run' ref' hm hrun'
      have hne : run' ≠ run := by
        rintro rfl
        rw [isTerminal_update rfl, if_pos rfl] at hrun'
        exact absurd hrun' (by decide)
      exact .inl ⟨hm, update_of_ne hne _ _⟩
    · rintro _ ⟨⟩
      exact hown
  next => exact nomatch hs

theorem inv_fail (h : s.Inv R) {updated deleted : Bool}
    (hdel : deleted = true → updated = true ∨ s.isTerminal run = true ∨ s.stage run = [])
    (hs : s.fail id run updated deleted = some t) : t.Inv R := by
  delta fail at hs
  simp only [ite_none_right_eq_some, Option.some.injEq] at hs
  obtain ⟨⟨-, -, hlock⟩, rfl⟩ := hs
  refine h.extend { extends_setAttempt s id none with
      terminal := fun r hr => ?terminal
      locks := fun r holder hl hne => ⟨?lock, ?running⟩ }
    h.fresh ?actor (fun _ _ hm => .inl hm) ?stage
  case terminal =>
    cases updated with
    | false => exact hr
    | true => exact terminal_of_terminal (rfl : RunStatus.failed.terminal = true) rfl hr
  case lock =>
    show (if s.lockedBy run = some id then Function.update s.lockedBy run none
      else s.lockedBy) r = some holder
    split_ifs with hown
    · exact (update_of_ne (ne_of_locked hl (hown ▸ hne.symm)) _ _).trans hl
    · exact hl
  case running =>
    cases updated with
    | false => rfl
    | true =>
      refine isTerminal_of_ne rfl (ne_of_locked hl fun hrun => hne ?_)
      have hid : holder = id := by simpa [hrun] using hlock rfl
      rw [hid]
  case actor => exact actor_none
  case stage =>
    intro run' ref' hm hrun'
    refine .inl ⟨hm, ?_⟩
    cases deleted with
    | false => rfl
    | true =>
      by_cases heq : run' = run
      · subst heq
        rcases hdel rfl with rfl | hterm | hempty
        · rw [isTerminal_update rfl, if_pos rfl] at hrun'
          exact absurd hrun' (by decide)
        · cases updated with
          | false => exact nomatch (hterm.symm.trans hrun')
          | true =>
            rw [isTerminal_update rfl, if_pos rfl] at hrun'
            exact absurd hrun' (by decide)
        · simp [hempty]
      · exact update_of_ne heq _ _

theorem inv_init (R : Ranker ι σ) : (init : TrustState σ).Inv R where
  fresh _ _ _ := rfl
  attempts _ _ ha := nomatch ha
  computeJobs _ _ hm := nomatch hm
  staged _ _ hm := nomatch hm
  published _ hp := nomatch hp

variable [DecidableEq σ]

theorem inv_step (h : s.Inv R) {a : TrustAction ι} (hu : s.Undisturbed a)
    (hs : trustStep R s a = some t) : t.Inv R := by
  cases a with
  | triggerGlobalRun run =>
    simp only [trustStep, ite_none_right_eq_some, Option.some.injEq] at hs
    exact hs.2 ▸ inv_trigger h hs.1
  | syncRead id run ref rows => exact inv_syncRead h hs
  | syncFlush id count => exact inv_syncFlush h hs
  | syncActivate id =>
    simp only [trustStep, syncActivate] at hs
    split at hs
    next run ref hatt =>
      cases hs
      obtain ⟨read, hw, -, hredis⟩ := h.attempts id _ hatt
      rw [addEdges_nil] at hredis
      exact h.setAttempt fun b hb => some.inj hb ▸ ⟨read, hw, hredis⟩
    next => exact nomatch hs
  | syncReap id run ref key =>
    simp only [trustStep, syncReap] at hs
    split at hs
    · rw [ite_none_left_eq_some] at hs
      exact some.inj hs.2 ▸ inv_unlink h hu key
    · exact nomatch hs
  | syncCommit id => exact inv_syncCommit h hs
  | computeClaim id run ref =>
    simp only [trustStep, computeClaim] at hs
    split_ifs at hs with hguard hterm
    · exact some.inj hs ▸ h
    · cases hs
      exact h.setAttempt fun b hb => some.inj hb ▸ hguard.1
  | computeLoadNodes id =>
    simp only [trustStep, computeLoadNodes] at hs
    split at hs
    next run ref hatt =>
      cases hs
      have hjob : (run, ref) ∈ s.computeJobs := h.attempts id _ hatt
      obtain ⟨read, hw, hredis⟩ := h.computeJobs run ref hjob
      refine h.setAttempt fun b hb => some.inj hb ▸ ⟨hjob, read, hw, fun hl => ?_⟩
      rw [hredis hl, loadNodes_ofRows]
    next => exact nomatch hs
  | computeLoadAdjacency id =>
    simp only [trustStep, computeLoadAdjacency] at hs
    split at hs
    next run ref nodes hatt =>
      cases hs
      obtain ⟨hjob, read, hw, hnodes⟩ := h.attempts id _ hatt
      obtain ⟨read', hw', hredis⟩ := h.computeJobs run ref hjob
      obtain rfl : read = read' := some.inj (hw.symm.trans hw')
      refine h.setAttempt fun b hb => some.inj hb ▸ ⟨read, hw, fun hl => ?_⟩
      rw [hredis hl, hnodes hl, loadAdjacency_ofRows]
    next => exact nomatch hs
  | computePersist id input => exact inv_computePersist h hs
  | promoteClear id run ref => exact inv_promoteClear h hs
  | promoteInsert id =>
    simp only [trustStep, promoteInsert] at hs
    split at hs
    next run ref visible hatt =>
      cases hs
      obtain ⟨hlock, hjob, hrun⟩ := h.attempts id _ hatt
      exact h.setAttempt fun b hb => some.inj hb ▸ ⟨hlock, h.staged run ref hjob hrun⟩
    next => exact nomatch hs
  | promoteCommit id => exact inv_promoteCommit h hu hs
  | fail id run updated deleted => exact inv_fail h hu hs
  | expire run ref key => exact some.inj hs ▸ inv_unlink h hu key

end NostrMash.Trust.TrustState
