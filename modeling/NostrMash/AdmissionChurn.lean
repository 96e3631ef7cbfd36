import NostrMash.AdmissionDryRun

/-!
# Promotions that the caps undo

The gate admits a relay to a tier only where it counts room. It does not count the relays that an
operator pins, and it lets failing relays into a full probation tier.
-/

namespace NostrMash.RelayAdmission
open RelayRegistry CappedPool KeysetPaging List
variable {K : Type*} [LinearOrder K] {c : Controller K} {reg : Registry K} {r : RelayRecord K}
  {o : TierOccupancy} {l : List (RelayRecord K)} {s : AdmissionState}

section

def Controller.finish (c : Controller K) (o : TierOccupancy) (l : List (RelayRecord K)) :
    TierOccupancy :=
  l.foldl (fun o r => (gate c.cfg o r.admissionState (c.proposed r)).2) o

theorem finish_eq : c.finish o l =
    { pinned := o.pinned
      dynamicActive := o.dynamicActive + (c.decisions o l).countP (fun d => d.2 = .active) -
        l.countP fun r => r.admissionState = .active
      probation := o.probation + (c.decisions o l).countP (fun d => d.2 = .probation) -
        l.countP fun r => r.admissionState = .probation } := by
  induction l generalizing o with
  | nil => simp [Controller.finish, Controller.decisions]
  | cons r l ih =>
    rw [Controller.finish, foldl_cons]
    change c.finish _ l = _
    rw [ih, Controller.decisions]
    rw [gate_move (c.reachable_proposed r)]
    generalize (gate c.cfg o r.admissionState (c.proposed r)).1 = s
    simp only [TierOccupancy.move, movedInto, countP_cons, decide_eq_true_eq,
      TierOccupancy.mk.injEq, true_and]
    constructor
    · split_ifs <;> push_cast <;> ring
    · split_ifs <;> push_cast <;> ring

variable {cfg : Config K} {current proposed : AdmissionState}

def ActiveFits (cfg : Config K) (o : TierOccupancy) : Prop :=
  o.dynamicActive ≤ cfg.maxDynamicActive ∧
    (o.dynamicActive ≤ 0 ∨ o.pinned + o.dynamicActive ≤ cfg.maxTotalActive)

def ProbationFits (cfg : Config K) (o : TierOccupancy) : Prop := o.probation ≤ cfg.maxProbation

omit [LinearOrder K] in
theorem movedInto_le (h : proposed = s → current = s) :
    movedInto s current proposed ≤ 0 := by
  unfold movedInto
  split_ifs with h₁ h₂
  all_goals first | omega | exact absurd (h h₁) h₂

omit [LinearOrder K] in
theorem ActiveFits.gate (h : ActiveFits cfg o) (hreach : Reachable current proposed) :
    ActiveFits cfg (gate cfg o current proposed).2 := by
  obtain ⟨hdynamic, htotal⟩ := h
  rw [gate_move hreach]
  by_cases henter : (RelayAdmission.gate cfg o current proposed).1 = .active ∧ current ≠ .active
  · -- Only a promotion out of probation enters the tier, and it found room.
    obtain ⟨hactive, hne⟩ := henter
    have hpass := (gate_cases cfg o current proposed).resolve_right fun hkept =>
      hne (hkept.1.symm.trans hactive)
    have hproposed : proposed = .active := hpass.symm.trans hactive
    have hcurrent := (hreach.active hproposed).resolve_right hne
    have hroom := (gate_eq_iff.mp hpass).1 hcurrent hproposed
    simp only [ActiveFits, TierOccupancy.move, movedInto, hcurrent, if_true]
    omega
  · have hle : movedInto .active current (RelayAdmission.gate cfg o current proposed).1 ≤ 0 :=
      movedInto_le fun hactive => by_contra fun hne => henter ⟨hactive, hne⟩
    simp only [ActiveFits, TierOccupancy.move]
    omega

omit [LinearOrder K] in
theorem ProbationFits.gate (h : ProbationFits cfg o) (hreach : Reachable current proposed)
    (hhealth : current = .active → proposed ≠ .probation) :
    ProbationFits cfg (gate cfg o current proposed).2 := by
  unfold ProbationFits at h
  rw [gate_move hreach]
  by_cases henter : (RelayAdmission.gate cfg o current proposed).1 = .probation ∧
      current ≠ .probation
  · obtain ⟨hprobation, hne⟩ := henter
    have hpass := (gate_cases cfg o current proposed).resolve_right fun hkept =>
      hne (hkept.1.symm.trans hprobation)
    have hproposed : proposed = .probation := hpass.symm.trans hprobation
    have hmanual := hreach.probation hproposed
    have hcurrent : current = .candidate ∨ current = .inactive := by
      cases current <;> simp_all [IsManual]
    have hroom := (gate_eq_iff.mp hpass).2 hcurrent hproposed
    simp only [ProbationFits, TierOccupancy.move, movedInto, hprobation, hne, if_true, if_false]
    omega
  · have hle : movedInto .probation current (RelayAdmission.gate cfg o current proposed).1 ≤ 0 :=
      movedInto_le fun hprobation => by_contra fun hne => henter ⟨hprobation, hne⟩
    simp only [ProbationFits, TierOccupancy.move]
    omega

theorem ActiveFits.finish (h : ActiveFits c.cfg o) (l : List (RelayRecord K)) :
    ActiveFits c.cfg (c.finish o l) := by
  induction l generalizing o with
  | nil => exact h
  | cons r l ih => exact ih (h.gate (c.reachable_proposed r))

theorem ProbationFits.finish (h : ProbationFits c.cfg o)
    (hhealth : ∀ r ∈ l, r.admissionState = .active → c.proposed r ≠ .probation) :
    ProbationFits c.cfg (c.finish o l) := by
  induction l generalizing o with
  | nil => exact h
  | cons r l ih =>
    obtain ⟨hfirst, hrest⟩ := forall_mem_cons.mp hhealth
    exact ih (h.gate (c.reachable_proposed r) hfirst) hrest

end

section

/-- No override to pinned is still to take effect. -/
def PinsInEffect (reg : Registry K) : Prop :=
  ∀ r ∈ reg.rows, r.manualPolicy = .pinned → r.admissionState = .pinned

def Controller.NoFailing (c : Controller K) (reg : Registry K) : Prop :=
  ∀ r ∈ reg.rows, r.admissionState = .active → c.proposed r ≠ .probation

omit [LinearOrder K] in
theorem PinsInEffect.countP_dynamicActive (h : PinsInEffect reg) :
    reg.rows.countP (fun r => DynamicActive r) =
      reg.rows.countP fun r => r.admissionState = .active := by
  refine countP_congr fun r hr => ?_
  rw [decide_eq_true_eq, decide_eq_true_eq]
  exact and_iff_left_of_imp fun hactive hpolicy =>
      nomatch (hactive.symm.trans (h r hr hpolicy))

omit [LinearOrder K] in
theorem countP_inProbation (rows : List (RelayRecord K)) :
    rows.countP (fun r => InProbation r) = rows.countP fun r => r.admissionState = .probation :=
  rfl

theorem PinsInEffect.transitionLoop (h : PinsInEffect reg) :
    PinsInEffect (c.transitionLoop reg) := by
  intro r' hr' hpolicy
  rw [rows_transitionLoop] at hr'
  obtain ⟨r, hr, rfl⟩ := mem_map.mp hr'
  rw [settle_manualPolicy] at hpolicy
  exact settle_of_manualState hr (by rw [hpolicy]; rfl) (.inl (h r hr hpolicy))

theorem automaticState_eq_pinned {cfg : Config K} {score : K}
    (h : automaticState cfg r score = .pinned) : r.admissionState = .pinned := by
  unfold automaticState at h
  split at h
  all_goals first | assumption | (split_ifs at h) | cases h

theorem pinned_of_proposed (h : c.proposed r = .pinned) :
    r.manualPolicy = .pinned ∨ r.admissionState = .pinned := by
  cases hpolicy : r.manualPolicy with
  | pinned => exact .inl rfl
  | blocked =>
    rw [Controller.proposed_of_manualState (s := .blocked) (by rw [hpolicy]; rfl)] at h
    exact nomatch h
  | drained =>
    rw [Controller.proposed_of_manualState (s := .draining) (by rw [hpolicy]; rfl)] at h
    exact nomatch h
  | none =>
    rw [Controller.proposed, computeTransition, ScoreInputs.apply_manualPolicy, hpolicy,
      manualState, Option.getD_none] at h
    exact .inr (ScoreInputs.apply_admissionState c.inputs r ▸ automaticState_eq_pinned h)

variable (hsize : reg.rows.length ≤ 1000)
include hsize

theorem countP_state_transitionLoop (s : AdmissionState) :
    (c.transitionLoop reg).rows.countP (fun r => r.admissionState = s) =
      (c.cycle reg).countP fun d => d.2 = s := by
  have hperm : (reg.listRelays listingFilter).Perm reg.rows := by
    rw [listing_eq hsize]
    exact perm_descending reg.rows
  rw [rows_transitionLoop, countP_map, ← hperm.countP_eq, ← map_fst_cycle (c := c), countP_map]
  refine countP_congr fun d hd => ?_
  simp only [Function.comp]
  rw [settle_cycle_of_mem (r := d.1) (s := d.2) hd]

theorem finish_cycle : c.finish (loadTierOccupancy reg) (reg.listRelays listingFilter) =
    { pinned := reg.rows.countP fun r => Pinned r
      dynamicActive := reg.rows.countP (fun r => DynamicActive r) +
        (c.transitionLoop reg).rows.countP (fun r => r.admissionState = .active) -
        reg.rows.countP fun r => r.admissionState = .active
      probation := reg.rows.countP (fun r => InProbation r) +
        (c.transitionLoop reg).rows.countP (fun r => r.admissionState = .probation) -
        reg.rows.countP fun r => r.admissionState = .probation } := by
  have hperm : (reg.listRelays listingFilter).Perm reg.rows := by
    rw [listing_eq hsize]
    exact perm_descending reg.rows
  rw [finish_eq, loadTierOccupancy_eq hsize, occupancy, countP_state_transitionLoop hsize,
    countP_state_transitionLoop hsize, Controller.cycle, loadTierOccupancy_eq hsize,
    hperm.countP_eq, hperm.countP_eq]
  rfl

omit hsize in
theorem PinsInEffect.countP_pinned_le (h : PinsInEffect reg) :
    (c.transitionLoop reg).rows.countP (fun r => Pinned r) ≤ reg.rows.countP fun r => Pinned r := by
  rw [rows_transitionLoop, countP_map]
  refine countP_mono_left fun r hr hpinned => ?_
  simp only [Function.comp, decide_eq_true_eq] at hpinned ⊢
  by_cases hpolicy : r.manualPolicy = .pinned
  · exact .inl (h r hr hpolicy)
  have hstate : (c.settle (c.cycle reg) r).admissionState = .pinned :=
    hpinned.resolve_right fun hactive => hpolicy (by simpa using hactive.2)
  by_cases hlisted : r ∈ reg.listRelays listingFilter
  · obtain ⟨s, hs⟩ := exists_mem_cycle (c := c) hlisted
    rw [settle_cycle_of_mem hs] at hstate
    dsimp only at hstate
    subst hstate
    rcases decision_cases hs with hproposed | ⟨hcurrent, -⟩
    · exact .inl ((pinned_of_proposed hproposed.symm).resolve_left hpolicy)
    · exact .inl hcurrent.symm
  · rw [settle_cycle_of_notMem hr hlisted] at hstate
    exact .inl hstate

variable (hcaps : WithinCaps c.cfg reg) (hpins : PinsInEffect reg)
include hcaps hpins

theorem activeCaps_transitionLoop :
    (c.transitionLoop reg).rows.countP (fun r => DynamicActive r) ≤ c.cfg.maxDynamicActive ∧
      (c.transitionLoop reg).rows.countP (fun r => Pinned r) +
          (c.transitionLoop reg).rows.countP (fun r => DynamicActive r) ≤
        max c.cfg.maxTotalActive ((c.transitionLoop reg).rows.countP fun r => Pinned r) := by
  have htotal := hcaps.totalActive
  rw [countP_active_or_pinned] at htotal
  have hdynamic := hcaps.dynamicActive
  have hstart : ActiveFits c.cfg (loadTierOccupancy reg) := by
    rw [loadTierOccupancy_eq hsize]
    simp only [ActiveFits, occupancy]
    omega
  have hend := hstart.finish (reg.listRelays listingFilter)
  rw [finish_cycle hsize, hpins.countP_dynamicActive] at hend
  have hactive := (hpins.transitionLoop (c := c)).countP_dynamicActive
  have hpinned := hpins.countP_pinned_le (c := c)
  simp only [ActiveFits] at hend
  omega

omit hpins in
theorem probationCap_transitionLoop (hfailing : c.NoFailing reg) :
    (c.transitionLoop reg).rows.countP (fun r => InProbation r) ≤ c.cfg.maxProbation := by
  have hprobation := hcaps.probation
  have hstart : ProbationFits c.cfg (loadTierOccupancy reg) := by
    rw [loadTierOccupancy_eq hsize]
    simp only [ProbationFits, occupancy]
    omega
  have hend := hstart.finish (l := reg.listRelays listingFilter) fun r hr =>
    hfailing r (Registry.mem_rows_of_listed hr)
  rw [finish_cycle hsize, countP_inProbation] at hend
  rw [countP_inProbation]
  simp only [ProbationFits] at hend
  omega

theorem stateOf_run_eq (hr : r ∈ reg.rows) (hs : (c.transitionLoop reg).stateOf r.urlKey = some s)
    (hfailing : s = .probation → c.NoFailing reg) : (c.run reg).stateOf r.urlKey = some s := by
  have htier : (c.transitionLoop reg).rows.countP (fun r => InTier r.admissionState) ≤ 20000 := by
    refine countP_inTier_le ?_ _
    rwa [rows_transitionLoop, length_map]
  obtain ⟨htotal, hdynamic⟩ := (spills_eq_nil_iff htier).mpr
    (activeCaps_transitionLoop hsize hcaps hpins)
  have hmem := settle_mem_transitionLoop (c := c) hr
  have hstate : (c.settle (c.cycle reg) r).admissionState = s := by
    have := Registry.stateOf_of_mem hmem
    rw [settle_urlKey, hs] at this
    exact (Option.some.inj this).symm
  rw [stateOf_run hr, Option.some.injEq]
  rcases capped_cases (c := c) hmem _ rfl with ⟨hin, -⟩ | ⟨-, hin, -⟩ | ⟨-, -, heq⟩
  · have hpool := mem_probationPool.mp (Sorter.mem_of_mem_cut hin)
    rw [htotal, hdynamic] at hpool
    have hprobation : s = .probation :=
      hstate.symm.trans (hpool.resolve_right not_mem_nil).2
    have hnil := (probationSpill_eq_nil_iff htier htotal hdynamic).mpr
      (probationCap_transitionLoop hsize hcaps (hfailing hprobation))
    rw [hnil] at hin
    exact nomatch hin
  · rw [htotal, hdynamic] at hin
    exact nomatch hin
  · rw [heq, hstate]

end

/-- No relay that the transitions promote is moved down by the caps. -/
def Controller.PromotionsStand (c : Controller K) (reg : Registry K) : Prop :=
  ∀ r ∈ reg.rows, ∀ s s', (c.transitionLoop reg).stateOf r.urlKey = some s →
    (c.run reg).stateOf r.urlKey = some s' → isPromotion r.admissionState s = true →
    isPromotion s' s = false

theorem promotions_stand_without_pins (c : Controller K) (reg : Registry K)
    (hsize : reg.rows.length ≤ 1000) (hcaps : WithinCaps c.cfg reg) (hpins : PinsInEffect reg) :
    (∀ r ∈ reg.rows, (c.transitionLoop reg).stateOf r.urlKey = some .active →
        (c.run reg).stateOf r.urlKey = some .active) ∧
      (c.NoFailing reg → c.PromotionsStand reg) := by
  refine ⟨fun r hr hs => ?_, fun hfailing r hr s s' hs hs' _ => ?_⟩
  · exact stateOf_run_eq hsize hcaps hpins hr hs fun h => nomatch h
  · have hsame := stateOf_run_eq hsize hcaps hpins hr hs fun _ => hfailing
    obtain rfl : s = s' := Option.some.inj (hsame.symm.trans hs')
    simp [isPromotion]

theorem two_candidates_promotions_stand : (∀ r ∈ twoCandidates.rows,
      ((controller 20 15 20).transitionLoop twoCandidates).stateOf r.urlKey = some .active →
        ((controller 20 15 20).run twoCandidates).stateOf r.urlKey = some .active) ∧
      ((controller 20 15 20).NoFailing twoCandidates →
        (controller 20 15 20).PromotionsStand twoCandidates) :=
  promotions_stand_without_pins (controller 20 15 20) twoCandidates (by decide)
    ⟨by decide, by decide, by decide⟩ (by unfold PinsInEffect; decide)

def failingRelay : RelayRecord ℚ :=
  { probed "failing" .none .active 12 with
    avgConnectLatency := some 100, yieldScore := 1, probeFailRate := 7 / 10 }

def slowCandidate : RelayRecord ℚ :=
  { probed "candidate" .none .candidate 15 with
    lastProbeStatus := some .eoseTimeout, avgConnectLatency := some 1000 }

def failingAndCandidate : Registry ℚ := ⟨[failingRelay, slowCandidate], by decide, by decide⟩

/-- The candidate takes the only place in probation, and loses it to the failing relay. -/
theorem candidate_promoted_and_demoted : ¬ ∀ (c : Controller ℚ) (reg : Registry ℚ),
    reg.rows.length ≤ 1000 → WithinCaps c.cfg reg → c.PromotionsStand reg := by
  intro h
  have hstand := h (controller 20 15 1) failingAndCandidate (by decide)
    ⟨by decide, by decide, by decide⟩ slowCandidate
    (.tail _ (.head _)) .probation .inactive
    (by decide +kernel) (by decide +kernel) (by decide)
  exact nomatch hstand

end NostrMash.RelayAdmission
