import NostrMash.TrustSteps

/-!
# A trust run publishes its own snapshot

The scores published by a promote are the ranking of the rows that a sync of the same run has read,
as long as no key of a snapshot disappears before its compute has persisted its ranking, no stage
is deleted under a run that goes on, and no promote commits between the clear and the commit of
another.
-/

namespace NostrMash.Trust
open Machine TrustState List
variable {ι σ : Type} [DecidableEq σ]

/-- What is published after an undisturbed run, whatever the interleaving of its steps, is the
complete ranking of rows read by a sync of the run that was promoted last. -/
theorem always_publishesOwn_of_undisturbed (R : Ranker ι σ) (actions : List (TrustAction ι))
    (hg : Guarded (trustStep R) TrustState.Undisturbed TrustState.init actions) :
    Always (trustStep R) (TrustState.PublishesOwn R) TrustState.init actions :=
  fun _ hp t hr =>
    have hinv : t.Inv R := run_invariant (fun _ _ _ h hu hs => inv_step h hu hs)
      (inv_init R) (guarded_initial hp hg) hr
    hinv.published

def flatRanker : Ranker Unit ℕ where
  rank g _ := (Quot.liftOn g.nodes.val (List.insertionSort (· ≤ ·)) fun a b h =>
      (((perm_insertionSort _ a).trans h).trans (perm_insertionSort _ b).symm).eq_of_pairwise'
        (pairwise_insertionSort _ a) (pairwise_insertionSort _ b)).map
    fun pubkey => { pubkey := pubkey, score := 1 }
  ranks_nodes g _ pubkey := by
    obtain ⟨⟨l⟩, hl⟩ := g.nodes
    have hid : RankNode.pubkey ∘ (fun pubkey => { pubkey := pubkey, score := 1 : RankNode ℕ }) =
        id := rfl
    rw [map_map, hid, map_id]
    exact (perm_insertionSort _ l).mem_iff

def syncOf (id run ref : ℕ) (rows : List Edge) : List (TrustAction Unit) :=
  [.triggerGlobalRun run, .syncRead id run ref rows, .syncFlush id 1000, .syncActivate id]

def rankAndPromote (id run ref : ℕ) : List (TrustAction Unit) :=
  [.computeClaim id run ref, .computeLoadNodes id, .computeLoadAdjacency id,
    .computePersist id (), .promoteClear id run ref, .promoteInsert id, .promoteCommit id]

def successiveRuns : List (TrustAction Unit) :=
  syncOf 0 1 10 [("a", "b")] ++ [.syncCommit 0] ++ rankAndPromote 0 1 10 ++
    syncOf 0 2 20 [("a", "c")] ++ [.syncReap 0 1 10 .nodes, .syncCommit 0] ++ rankAndPromote 0 2 20

/-- A condition that can be evaluated: only snapshots of finished runs lose keys. -/
def TrustState.quiet (s : TrustState ℕ) : TrustAction Unit → Bool
  | .syncReap _ run _ _ => s.isTerminal run
  | .expire run _ _ => s.isTerminal run
  | .promoteCommit id =>
    match s.attempts id with
    | some (.inserted _ _ visible _) => s.published.all (· ∈ visible)
    | _ => true
  | .fail _ run updated deleted => !deleted || updated || s.isTerminal run
  | _ => true

theorem TrustState.undisturbed_of_quiet (s : TrustState ℕ) (a : TrustAction Unit)
    (h : s.quiet a = true) : s.Undisturbed a := by
  cases a with
  | syncReap id run ref key => exact fun hu => nomatch (h.symm.trans hu.1)
  | expire run ref key => exact fun hu => nomatch (h.symm.trans hu.1)
  | promoteCommit id =>
    intro run ref visible rows hatt
    simpa [quiet, hatt] using h
  | fail id run updated deleted =>
    rintro rfl
    have hor : updated = true ∨ s.isTerminal run = true := by simpa [quiet] using h
    exact hor.imp_right .inl
  | _ => trivial

theorem successive_runs_publish_own :
    ((run (trustStep flatRanker) TrustState.init successiveRuns).map fun s =>
      (s.promoted, s.published.map fun row => (row.runID, row.pubkey, row.rank))) =
        some (some 2, [(2, "a", 1), (2, "c", 2)]) ∧
      Always (trustStep flatRanker) (TrustState.PublishesOwn flatRanker) TrustState.init
        successiveRuns :=
  ⟨by decide, always_publishesOwn_of_undisturbed flatRanker successiveRuns
    (guarded_mono (G := fun s a => TrustState.quiet s a = true) undisturbed_of_quiet (by decide))⟩

def reapedRun : List (TrustAction Unit) :=
  syncOf 0 1 10 [("a", "b")] ++ [.syncCommit 0] ++ syncOf 1 2 20 [("a", "b")] ++
    [.syncReap 1 1 10 .nodes] ++ rankAndPromote 2 1 10

/-- The first run then replaces the published scores by nothing, and succeeds. -/
theorem reaped_snapshot_publishes_nothing :
    ∃ s, run (trustStep flatRanker) TrustState.init reapedRun = some s ∧
      s.promoted = some 1 ∧ s.status 1 = some .succeeded ∧ s.published = [] ∧
      ¬ s.PublishesOwn flatRanker := by
  have hrun : (run (trustStep flatRanker) TrustState.init reapedRun).map
      (fun s => (s.promoted, s.status 1, s.published)) = some (some 1, some .succeeded, []) := by
    decide
  have hwritten : (run (trustStep flatRanker) TrustState.init reapedRun).map
      (fun s => s.written 1) =
        some (Function.update (fun _ : ℕ => (none : Option (List Edge))) 10
          (some [("a", "b")])) := rfl
  obtain ⟨s, hs, hvalues⟩ := Option.map_eq_some_iff.mp hrun
  simp only [Prod.mk.injEq] at hvalues
  obtain ⟨hpromoted, hstatus, hpublished⟩ := hvalues
  rw [hs, Option.map_some, Option.some.injEq] at hwritten
  refine ⟨s, hs, hpromoted, hstatus, hpublished, fun h => ?_⟩
  obtain ⟨ref, read, -, hw, -, hnodes⟩ := h 1 hpromoted
  have hread : read = [("a", "b")] := by
    rw [hwritten, Function.update_apply] at hw
    split_ifs at hw
    exact (Option.some.inj hw).symm
  have hmem : "a" ∈ s.published.map ScoreRow.pubkey :=
    (hnodes "a").mpr (by rw [hread]; decide)
  rw [hpublished] at hmem
  exact nomatch hmem

end NostrMash.Trust
