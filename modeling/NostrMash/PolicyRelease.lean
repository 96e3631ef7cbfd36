import NostrMash.AdmissionChurn
import NostrMash.RelayWrites

/-!
# Clearing an override

The transitions keep the states that an operator brings about, also when the override is gone. Only
seed reconciliation moves a relay out of such a state, and only out of pinned.
-/

namespace NostrMash.RelayAdmission
open RelayRegistry Option
variable {K : Type*} [LinearOrder K] {c : Controller K} {reg reg' : Registry K}
  {r r' : RelayRecord K} {key : String} {s : AdmissionState} {cfg : Config K} {w : Write K}

theorem automaticState_manual {score : K} (h : IsManual r.admissionState) :
    automaticState cfg r score = r.admissionState := by
  unfold automaticState
  rcases h with h | h | h <;> simp [h]

theorem automaticState_not_manual {score : K} (h : ¬ IsManual r.admissionState) :
    ¬ IsManual (automaticState cfg r score) := by
  unfold automaticState
  split
  all_goals first | (split_ifs <;> simp [IsManual]) | simp_all [IsManual]

theorem proposed_of_no_policy (h : r.manualPolicy = .none) : c.proposed r =
    automaticState c.cfg (c.inputs.apply r) (c.score r).totalScore := by
  rw [Controller.proposed, computeTransition, ScoreInputs.apply_manualPolicy, h, manualState,
    getD_none]

theorem settle_manual_iff (hr : r ∈ reg.rows) (h : r.manualPolicy = .none) (hs : IsManual s) :
    (c.settle (c.cycle reg) r).admissionState = s ↔ r.admissionState = s := by
  by_cases hlisted : r ∈ reg.listRelays listingFilter
  · obtain ⟨s', hs'⟩ := exists_mem_cycle (c := c) hlisted
    rw [settle_cycle_of_mem hs']
    dsimp only
    rcases decision_cases hs' with rfl | ⟨rfl, -⟩
    · rw [proposed_of_no_policy h]
      have hstate := ScoreInputs.apply_admissionState c.inputs r
      by_cases hmanual : IsManual r.admissionState
      · rw [automaticState_manual (hstate.symm ▸ hmanual), hstate]
      · refine iff_of_false (fun heq => ?_) fun heq => hmanual (heq ▸ hs)
        exact automaticState_not_manual (hstate.symm ▸ hmanual) (heq ▸ hs)
    · exact Iff.rfl
  · rw [settle_cycle_of_notMem hr hlisted]

def Controller.ran (c : Controller K) (reg : Registry K) (r : RelayRecord K) : RelayRecord K :=
  c.capped ((c.transitionLoop reg).listRelays tierFilter) (c.settle (c.cycle reg) r)

theorem ran_mem (hr : r ∈ reg.rows) : c.ran reg r ∈ (c.run reg).rows := by
  rw [rows_run]
  exact List.mem_map_of_mem hr

theorem ran_manual_iff (hr : r ∈ reg.rows) (h : r.manualPolicy = .none) (hs : IsManual s) :
    (c.ran reg r).admissionState = s ↔ r.admissionState = s := by
  rw [Controller.ran, capped_eq_manual_iff (settle_mem_transitionLoop hr) hs,
    settle_manual_iff hr h hs]

theorem ran_isManual_iff (hr : r ∈ reg.rows) (h : r.manualPolicy = .none) :
    IsManual (c.ran reg r).admissionState ↔ IsManual r.admissionState := by
  constructor
  · intro hmanual
    rw [← (ran_manual_iff hr h hmanual).mp rfl] at hmanual
    exact hmanual
  · intro hmanual
    rw [(ran_manual_iff hr h hmanual).mpr rfl]
    exact hmanual

theorem ran_frame (c : Controller K) (reg : Registry K) (r : RelayRecord K) :
    (c.ran reg r).urlKey = r.urlKey ∧ (c.ran reg r).manualPolicy = r.manualPolicy ∧
      (c.ran reg r).sourceSeed = r.sourceSeed := by
  refine ⟨by simp [Controller.ran], by simp [Controller.ran], ?_⟩
  unfold Controller.ran Controller.capped Controller.settle
  split <;> split_ifs <;> rfl

def Write.Reconciles (key : String) (seed : Bool) : Write K → Prop
  | .upsertSeedRelay urlKey _ => urlKey = key
  | .clearMissingSeedRelays keep => seed = true ∧ key ∉ keep
  | _ => False

def Write.LeavesCleared (key : String) : Write K → Prop
  | .setManualPolicy urlKey policy => urlKey = key → policy = .none
  | _ => True

/-- What a write does to a relay without an override. -/
structure Follows (w : Write K) (r r' : RelayRecord K) : Prop where
  urlKey : r'.urlKey = r.urlKey
  manualPolicy : r'.manualPolicy = .none
  free : ¬ IsManual r.admissionState → ¬ IsManual r'.admissionState
  released : r.admissionState = .pinned → w.Reconciles r.urlKey r.sourceSeed →
    ¬ IsManual r'.admissionState
  held : IsManual r.admissionState →
    ¬ (r.admissionState = .pinned ∧ w.Reconciles r.urlKey r.sourceSeed) →
    r'.admissionState = r.admissionState ∧
      (r.admissionState = .pinned → r'.sourceSeed = r.sourceSeed)

theorem Follows.of_same (hkey : r'.urlKey = r.urlKey) (hpolicy : r'.manualPolicy = .none)
    (hseed : r'.sourceSeed = r.sourceSeed) (hstate : r'.admissionState = r.admissionState)
    (hw : r.admissionState = .pinned → ¬ w.Reconciles r.urlKey r.sourceSeed) : Follows w r r' where
  urlKey := hkey
  manualPolicy := hpolicy
  free h := hstate.symm ▸ h
  released h hr := absurd hr (hw h)
  held _ _ := ⟨hstate, fun _ => hseed⟩

theorem Follows.of_reconciled (target : AdmissionState) (hkey : r'.urlKey = r.urlKey)
    (hpolicy : r'.manualPolicy = .none) (htarget : ¬ IsManual target)
    (hstate : r'.admissionState = if r.admissionState = .pinned then target else r.admissionState)
    (hw : w.Reconciles r.urlKey r.sourceSeed) : Follows w r r' where
  urlKey := hkey
  manualPolicy := hpolicy
  free h := by
    have hne : r.admissionState ≠ .pinned := fun heq => h (.inr (.inr heq))
    rwa [hstate, if_neg hne]
  released h _ := by rwa [hstate, if_pos h]
  held _ h := by
    have hne : r.admissionState ≠ .pinned := fun heq => h ⟨heq, hw⟩
    exact ⟨by rw [hstate, if_neg hne], fun heq => absurd heq hne⟩

theorem exists_follows [Zero K] (h : step reg w = some reg') (hr : r ∈ reg.rows)
    (hpolicy : r.manualPolicy = .none) (hw : w.LeavesCleared r.urlKey) :
    ∃ r' ∈ reg'.rows, Follows w r r' := by
  cases w with
  | run c =>
    cases h
    obtain ⟨hkey, hpol, hseed⟩ := ran_frame c reg r
    refine ⟨c.ran reg r, ran_mem hr, ⟨hkey, hpol.trans hpolicy, ?_, fun _ h => h.elim, ?_⟩⟩
    · exact fun hfree => (ran_isManual_iff hr hpolicy).not.mpr hfree
    · exact fun hmanual _ => ⟨(ran_manual_iff hr hpolicy hmanual).mpr rfl, fun _ => hseed⟩
  | setManualPolicy urlKey policy =>
    simp only [step, Registry.setManualPolicy] at h
    split at h
    · cases h
      refine ⟨_, mem_update hr, Follows.of_same ?_ ?_ ?_ ?_ fun _ h => h⟩
      all_goals split_ifs with heq
      all_goals try rfl
      · exact hw (of_decide_eq_true heq).symm
      · exact hpolicy
    · exact absurd h (by simp [Except.toOption])
  | upsertSeedRelay urlKey url =>
    refine ⟨_, mem_of_upsertRow h hr, ?_⟩
    split_ifs with heq
    · refine .of_reconciled .active rfl ?_ (by simp [IsManual]) ?_ heq.symm
      · simp [seedRow, operatorPinned, hpolicy]
      · simp [seedRow, operatorPinned, hpolicy]
    · exact .of_same rfl hpolicy rfl rfl fun _ h => heq h.symm
  | clearMissingSeedRelays keep =>
    cases h
    refine ⟨_, mem_update hr, ?_⟩
    split_ifs with heq
    · rw [Bool.and_eq_true, decide_eq_true_eq] at heq
      refine .of_reconciled .inactive rfl ?_ (by simp [IsManual]) ?_ heq
      · simp [formerSeedRow, operatorPinned, hpolicy]
      · simp [formerSeedRow, operatorPinned, hpolicy]
    · refine .of_same rfl hpolicy rfl rfl fun _ h => heq ?_
      rw [Bool.and_eq_true, decide_eq_true_eq]
      exact h
  | ensureRelayExists urlKey url =>
    refine ⟨_, mem_of_upsertRow h hr, Follows.of_same ?_ ?_ ?_ ?_ fun _ h => h⟩
    all_goals split_ifs
    all_goals first | rfl | exact hpolicy
  | upsertDiscoveredRelay urlKey url refs weighted =>
    refine ⟨_, mem_of_upsertRow h hr, Follows.of_same ?_ ?_ ?_ ?_ fun _ h => h⟩
    all_goals split_ifs
    all_goals first | rfl | exact hpolicy
  | updateProbeRollup urlKey rollup =>
    cases h
    refine ⟨_, mem_update hr, Follows.of_same ?_ ?_ ?_ ?_ fun _ h => h⟩
    all_goals split_ifs
    all_goals first | rfl | exact hpolicy

section
variable [Zero K] {writes : List (Write K)}

theorem run_isManual_iff (h : Machine.run step reg writes = some reg') (hr : r ∈ reg.rows)
    (hpolicy : r.manualPolicy = .none) (hw : ∀ w ∈ writes, w.LeavesCleared r.urlKey) :
    ∃ r' ∈ reg'.rows, r'.urlKey = r.urlKey ∧ r'.manualPolicy = .none ∧
      (IsManual r'.admissionState ↔ IsManual r.admissionState ∧
        ¬ (r.admissionState = .pinned ∧ ∃ w ∈ writes, w.Reconciles r.urlKey r.sourceSeed)) := by
  induction writes generalizing reg r with
  | nil =>
    cases h
    exact ⟨r, hr, rfl, hpolicy, by simp⟩
  | cons w writes ih =>
    obtain ⟨reg₁, hstep, hrest⟩ := bind_eq_some_iff.mp h
    obtain ⟨hfirst, hlater⟩ := List.forall_mem_cons.mp hw
    obtain ⟨r₁, hr₁, hfollows⟩ := exists_follows hstep hr hpolicy hfirst
    obtain ⟨r', hr', hkey', hpolicy', hiff⟩ := ih hrest hr₁ hfollows.manualPolicy
      (hfollows.urlKey.symm ▸ hlater)
    refine ⟨r', hr', hkey'.trans hfollows.urlKey, hpolicy', hiff.trans ?_⟩
    by_cases hmanual : IsManual r.admissionState
    · by_cases hfree : r.admissionState = .pinned ∧ w.Reconciles r.urlKey r.sourceSeed
      · refine iff_of_false (fun h => hfollows.released hfree.1 hfree.2 h.1) fun h => h.2 ?_
        exact ⟨hfree.1, w, .head _, hfree.2⟩
      · obtain ⟨hstate, hseed⟩ := hfollows.held hmanual hfree
        rw [hstate, hfollows.urlKey]
        refine and_congr_right fun _ => not_congr (and_congr_right fun hpinned => ?_)
        rw [hseed hpinned]
        constructor
        · rintro ⟨w', hw', hrec⟩
          exact ⟨w', List.mem_cons_of_mem w hw', hrec⟩
        · rintro ⟨w', hw', hrec⟩
          rcases List.mem_cons.mp hw' with rfl | hw'
          · exact absurd ⟨hpinned, hrec⟩ hfree
          · exact ⟨w', hw', hrec⟩
    · exact iff_of_false (fun h => hfollows.free hmanual h.1) fun h => hmanual h.1

def Released (reg : Registry K) (key : String) : Prop :=
  ∃ s, reg.stateOf key = some s ∧ ¬ IsManual s

/-- After its override has been cleared and other writes have been made, a cycle finds the relay
released exactly if it was pinned and has been reconciled as a seed. -/
theorem released_iff_reconciled (reg reg' : Registry K) (r : RelayRecord K) (hr : r ∈ reg.rows)
    (heffect : manualState r.manualPolicy = some r.admissionState) (writes : List (Write K))
    (hwrites : ∀ w ∈ writes, w.LeavesCleared r.urlKey)
    (hrun : Machine.run step reg (.setManualPolicy r.urlKey .none :: writes) = some reg')
    (c : Controller K) : Released (c.run reg') r.urlKey ↔
      r.manualPolicy = .pinned ∧ ∃ w ∈ writes, w.Reconciles r.urlKey r.sourceSeed := by
  obtain ⟨reg₁, hclear, hrest⟩ := bind_eq_some_iff.mp hrun
  have hcleared : { r with manualPolicy := .none, sourceManual := false } ∈ reg₁.rows := by
    simp only [step, Registry.setManualPolicy] at hclear
    split at hclear
    · cases hclear
      simpa using mem_update (p := fun r' => r'.urlKey = r.urlKey) hr
    · exact absurd hclear (by simp [Except.toOption])
  obtain ⟨r', hr', hkey, hpolicy, hiff⟩ := run_isManual_iff hrest hcleared rfl hwrites
  have hstate : (c.run reg').stateOf r.urlKey = some (c.ran reg' r').admissionState := by
    rw [← hkey, ← (ran_frame c reg' r').1]
    exact Registry.stateOf_of_mem (ran_mem hr')
  have hreleased : Released (c.run reg') r.urlKey ↔ ¬ IsManual r'.admissionState := by
    rw [Released, hstate, ← ran_isManual_iff (c := c) hr' hpolicy]
    exact ⟨fun ⟨s, hs, hfree⟩ => some.inj hs ▸ hfree, fun h => ⟨_, rfl, h⟩⟩
  have hpinned : r.admissionState = .pinned ↔ r.manualPolicy = .pinned := by
    constructor
    · intro h
      rw [h] at heffect
      cases hp : r.manualPolicy <;> simp [manualState, hp] at heffect ⊢
    · intro h
      rw [h] at heffect
      exact (some.inj heffect).symm
  rw [hreleased, hiff, ← hpinned]
  have hmanual : IsManual r.admissionState := isManual_of_manualState heffect
  exact ⟨fun h => by_contra fun hheld => h ⟨hmanual, hheld⟩, fun hfree h => h.2 hfree⟩

end

def pinnedSeed : RelayRecord ℚ := { probed "seed" .pinned .pinned 20 with sourceSeed := true }

def seedRegistry : Registry ℚ := ⟨[pinnedSeed], by decide, by decide⟩

theorem pinned_seed_released_iff : ∃ reg' : Registry ℚ, Machine.run step seedRegistry
        [.setManualPolicy "seed" .none, .upsertSeedRelay "seed" "wss://seed"] = some reg' ∧
      (Released ((controller 20 15 20).run reg') "seed" ↔
        pinnedSeed.manualPolicy = .pinned ∧ ∃ w ∈ [Write.upsertSeedRelay "seed" "wss://seed"],
          (w : Write ℚ).Reconciles pinnedSeed.urlKey pinnedSeed.sourceSeed) :=
  ⟨_, rfl, released_iff_reconciled seedRegistry _ pinnedSeed (.head _) rfl
    [.upsertSeedRelay "seed" "wss://seed"] (by simp [Write.LeavesCleared]) rfl
    (controller 20 15 20)⟩

/-- A candidate is blocked by an operator, a cycle blocks it, and the override is cleared. -/
theorem cleared_relay_stays_blocked : ¬ ∀ (c c' : Controller ℚ) (reg reg₁ reg₂ : Registry ℚ)
    (key : String) (policy : ManualPolicy) (s : AdmissionState), reg.rows.length ≤ 1000 →
    manualState policy = some s → reg.setManualPolicy key policy = .ok reg₁ →
    (c.run reg₁).stateOf key = some s → (c.run reg₁).setManualPolicy key .none = .ok reg₂ →
    Released (c'.run reg₂) key := by
  intro h
  obtain ⟨s, hs, hfree⟩ := h (controller 20 15 20) (controller 20 15 20) twoCandidates _ _ "a"
    .blocked .blocked (by decide) rfl rfl (by decide +kernel)
    (if_pos (by decide +kernel))
  have hblocked : some s = some .blocked := hs.symm.trans (by decide +kernel)
  exact hfree (.inl (some.inj hblocked))

end NostrMash.RelayAdmission
