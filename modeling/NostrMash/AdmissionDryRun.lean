import Mathlib
import NostrMash.ListingLimits

/-!
# The dry run and the cycle

`RunDryRun` reports the transition of each listed relay. The cycle itself holds a relay back where
its tier is full and trims the tiers afterwards.
-/

namespace NostrMash.RelayAdmission
open RelayRegistry KeysetPaging List
variable {K : Type*} [LinearOrder K] {c : Controller K} {reg : Registry K} {r : RelayRecord K}
  {o : TierOccupancy} {l : List (RelayRecord K)}

section
variable {cfg : Config K} {current proposed : AdmissionState}

def RoomAt (cfg : Config K) (o : TierOccupancy) (current proposed : AdmissionState) : Prop :=
  (current = .probation → proposed = .active →
    o.pinned + o.dynamicActive < cfg.maxTotalActive ∧ o.dynamicActive < cfg.maxDynamicActive) ∧
  (current = .candidate ∨ current = .inactive → proposed = .probation →
    o.probation < cfg.maxProbation)

def movedInto (s current proposed : AdmissionState) : ℤ :=
  (if proposed = s then 1 else 0) - if current = s then 1 else 0

def TierOccupancy.move (o : TierOccupancy) (current proposed : AdmissionState) : TierOccupancy where
  pinned := o.pinned
  dynamicActive := o.dynamicActive + movedInto .active current proposed
  probation := o.probation + movedInto .probation current proposed

/-- The life cycle reaches active from probation only, and probation never from a manual state. -/
structure Reachable (current proposed : AdmissionState) : Prop where
  active : proposed = .active → current = .probation ∨ current = .active
  probation : proposed = .probation → ¬ IsManual current

theorem Controller.reachable_proposed (c : Controller K) (r : RelayRecord K) :
    Reachable r.admissionState (c.proposed r) := by
  cases hs : manualState r.manualPolicy with
  | some s =>
    rw [proposed_of_manualState hs]
    have hmanual := isManual_of_manualState hs
    constructor
    · rintro rfl
      simp [IsManual] at hmanual
    · rintro rfl
      simp [IsManual] at hmanual
  | none =>
    have hauto : c.proposed r = automaticState c.cfg (c.inputs.apply r) (c.score r).totalScore := by
      rw [proposed, computeTransition, ScoreInputs.apply_manualPolicy, hs, Option.getD_none]
    rw [hauto, automaticState, ScoreInputs.apply_admissionState]
    constructor
    · cases r.admissionState <;> simp only [reduceCtorEq, or_true, true_or, implies_true,
        false_imp_iff] <;> split_ifs <;> simp
    · cases r.admissionState <;> simp [IsManual]

omit [LinearOrder K] in
theorem move_of_not_gated (h : Reachable current proposed) (hg : ¬ Gated current proposed) :
    (gate cfg o current proposed).2 = o.move current proposed := by
  obtain ⟨hactive, hprobation⟩ := h
  cases current <;> cases proposed <;> simp [IsManual, Gated] at hactive hprobation hg <;>
    simp [gate, TierOccupancy.move, movedInto] <;> rfl

omit [LinearOrder K] in
theorem gate_active : gate cfg o .probation .active =
    if cfg.maxTotalActive ≤ o.pinned + o.dynamicActive ∨ cfg.maxDynamicActive ≤ o.dynamicActive
    then (.probation, o)
    else (.active, { o with probation := o.probation - 1, dynamicActive := o.dynamicActive + 1 }) :=
  rfl

omit [LinearOrder K] in
theorem gate_probation (h : current = .candidate ∨ current = .inactive) :
    gate cfg o current .probation = if cfg.maxProbation ≤ o.probation then (current, o)
      else (.probation, { o with probation := o.probation + 1 }) := by
  rcases h with rfl | rfl <;> rfl

omit [LinearOrder K] in
theorem gate_eq_iff : (gate cfg o current proposed).1 = proposed ↔
    RoomAt cfg o current proposed := by
  by_cases hg : Gated current proposed
  · rcases hg with ⟨rfl, rfl⟩ | ⟨hcurrent, rfl⟩
    · rw [gate_active]
      split_ifs with h
      · refine iff_of_false (by simp) ?_
        rintro ⟨hroom, -⟩
        have := hroom rfl rfl
        omega
      · exact iff_of_true rfl ⟨fun _ _ => by omega, fun h => nomatch h⟩
    · rw [gate_probation hcurrent]
      have hne : current ≠ .probation := by rcases hcurrent with rfl | rfl <;> decide
      split_ifs with h
      · refine iff_of_false hne ?_
        rintro ⟨-, hroom⟩
        have := hroom hcurrent rfl
        omega
      · exact iff_of_true rfl ⟨fun h => absurd h hne, fun _ _ => by omega⟩
  · refine iff_of_true (gate_of_not_gated hg) ⟨fun h h' => ?_, fun h h' => ?_⟩
    · exact absurd (.inl ⟨h, h'⟩) hg
    · exact absurd (.inr ⟨h, h'⟩) hg

omit [LinearOrder K] in
theorem gate_move (h : Reachable current proposed) :
    (gate cfg o current proposed).2 = o.move current (gate cfg o current proposed).1 := by
  by_cases hg : Gated current proposed
  · rcases hg with ⟨rfl, rfl⟩ | ⟨hcurrent, rfl⟩
    · rw [gate_active]
      split_ifs
      · simp [TierOccupancy.move, movedInto]
      · rfl
    · rw [gate_probation hcurrent]
      split_ifs
      · simp [TierOccupancy.move, movedInto]
      · rcases hcurrent with rfl | rfl <;> simp [TierOccupancy.move, movedInto]
  · rw [gate_of_not_gated hg]
    exact move_of_not_gated h hg

end

def Controller.movedTotal (c : Controller K) (s : AdmissionState) (l : List (RelayRecord K)) : ℤ :=
  (l.countP fun r => c.proposed r = s) - l.countP fun r => r.admissionState = s

def Controller.moveAll (c : Controller K) (o : TierOccupancy) (l : List (RelayRecord K)) :
    TierOccupancy where
  pinned := o.pinned
  dynamicActive := o.dynamicActive + c.movedTotal .active l
  probation := o.probation + c.movedTotal .probation l

def Controller.RoomForAll (c : Controller K) (o : TierOccupancy) (l : List (RelayRecord K)) :
    Prop :=
  ∀ before r after, l = before ++ r :: after →
    RoomAt c.cfg (c.moveAll o before) r.admissionState (c.proposed r)

theorem movedTotal_cons (s : AdmissionState) : c.movedTotal s (r :: l) =
    movedInto s r.admissionState (c.proposed r) + c.movedTotal s l := by
  simp only [Controller.movedTotal, movedInto, countP_cons, decide_eq_true_eq]
  split_ifs <;> push_cast <;> ring

theorem moveAll_nil : c.moveAll o [] = o := by
  simp [Controller.moveAll, Controller.movedTotal]

theorem moveAll_cons : c.moveAll o (r :: l) =
    c.moveAll (o.move r.admissionState (c.proposed r)) l := by
  simp only [Controller.moveAll, TierOccupancy.move, movedTotal_cons, Int.add_assoc]

theorem roomForAll_cons : c.RoomForAll o (r :: l) ↔ RoomAt c.cfg o r.admissionState (c.proposed r) ∧
      c.RoomForAll (o.move r.admissionState (c.proposed r)) l := by
  constructor
  · intro h
    refine ⟨moveAll_nil (c := c) (o := o) ▸ h [] r l rfl, fun before r' after hl => ?_⟩
    rw [← moveAll_cons]
    exact h (r :: before) r' after (by rw [hl, cons_append])
  · rintro ⟨hfirst, hrest⟩ before r' after hl
    cases before with
    | nil =>
      obtain ⟨rfl, -⟩ := cons_eq_cons.mp hl
      rwa [moveAll_nil]
    | cons x before =>
      obtain ⟨rfl, hrestl⟩ := cons_eq_cons.mp hl
      rw [moveAll_cons]
      exact hrest before r' after hrestl

theorem decisions_eq_proposed_iff : (∀ d ∈ c.decisions o l, d.2 = c.proposed d.1) ↔
    c.RoomForAll o l := by
  induction l generalizing o with
  | nil =>
    refine iff_of_true (fun _ hd => nomatch hd) fun before r after hl => ?_
    simp at hl
  | cons r l ih =>
    rw [Controller.decisions, forall_mem_cons, roomForAll_cons, gate_eq_iff]
    refine and_congr_right fun hroom => ?_
    rw [gate_move (c.reachable_proposed r), gate_eq_iff.mpr hroom, ih]

section

def occupancy (reg : Registry K) : TierOccupancy where
  pinned := reg.rows.countP fun r => Pinned r
  dynamicActive := reg.rows.countP fun r => DynamicActive r
  probation := reg.rows.countP fun r => InProbation r

structure Controller.ProposedWithinCaps (c : Controller K) (reg : Registry K) : Prop where
  dynamicActive : reg.rows.countP (fun r => c.proposed r = .active) ≤ c.cfg.maxDynamicActive
  totalActive : reg.rows.countP (fun r => c.proposed r = .pinned) +
      reg.rows.countP (fun r => c.proposed r = .active) ≤
    max c.cfg.maxTotalActive (reg.rows.countP fun r => c.proposed r = .pinned)
  probation : reg.rows.countP (fun r => c.proposed r = .probation) ≤ c.cfg.maxProbation

/-- Every proposal is the state of its relay after a cycle. -/
def Controller.Predicts (c : Controller K) (reg : Registry K) : Prop :=
  ∀ p ∈ c.runDryRun reg, (c.run reg).stateOf p.urlKey = some p.proposedState

variable (hsize : reg.rows.length ≤ 1000)
include hsize

theorem listing_eq : reg.listRelays listingFilter = descending listingKey reg.rows := by
  have hall : reg.rows.filter listingFilter.accepts = reg.rows :=
    filter_eq_self.mpr fun _ _ => rfl
  rw [Registry.listRelays, hall, take_of_length_le]
  rw [(perm_descending reg.rows).length_eq]
  exact hsize

theorem mem_listing_of_mem (hr : r ∈ reg.rows) : r ∈ reg.listRelays listingFilter := by
  rw [listing_eq hsize, (perm_descending reg.rows).mem_iff]
  exact hr

omit [LinearOrder K] in
theorem countP_inTier_le (p : RelayRecord K → Bool) : reg.rows.countP p ≤ 20000 :=
  countP_le_length.trans (hsize.trans (by decide))

theorem loadTierOccupancy_eq : loadTierOccupancy reg = occupancy reg := by
  have htier := countP_inTier_le hsize fun r => InTier r.admissionState
  unfold loadTierOccupancy occupancy
  dsimp only
  rw [countP_listing htier fun _ => Pinned.inTier, countP_listing htier fun _ => DynamicActive.inTier,
    countP_listing htier fun _ => InProbation.inTier]

omit hsize in
theorem capped_settle_eq_proposed_iff {s : AdmissionState} (hr : r ∈ reg.rows)
    (h : (r, s) ∈ c.cycle reg) : (c.capped ((c.transitionLoop reg).listRelays tierFilter)
        (c.settle (c.cycle reg) r)).admissionState = c.proposed r ↔
      s = c.proposed r ∧ (c.capped ((c.transitionLoop reg).listRelays tierFilter)
        (c.settle (c.cycle reg) r)).admissionState = (c.settle (c.cycle reg) r).admissionState := by
  have hsettle : (c.settle (c.cycle reg) r).admissionState = s := by rw [settle_cycle_of_mem h]
  rw [hsettle]
  refine ⟨fun heq => ?_, fun heq => heq.2.trans heq.1⟩
  rcases decision_cases h with rfl | ⟨rfl, hgated⟩
  · exact ⟨rfl, heq⟩
  · exfalso
    rcases capped_cases (c := c) (settle_mem_transitionLoop hr) _ rfl with
      ⟨-, hstate⟩ | ⟨-, hmem, hstate⟩ | ⟨-, -, hsame⟩
    · rw [← heq, hstate] at hgated
      simp [Gated] at hgated
    · have hactive := (mem_of_mem_spill hmem).2.1
      rw [hsettle] at hactive
      simp [Gated, hactive] at hgated
    · rw [hsame, hsettle] at heq
      rw [← heq] at hgated
      rcases hgated with ⟨h₁, h₂⟩ | ⟨h₁ | h₁, h₂⟩
      all_goals exact nomatch (h₁.symm.trans h₂)

theorem predicts_iff_settled : c.Predicts reg ↔
    (∀ d ∈ c.cycle reg, d.2 = c.proposed d.1) ∧ WithinCaps c.cfg (c.transitionLoop reg) := by
  have htier : (c.transitionLoop reg).rows.countP (fun r => InTier r.admissionState) ≤ 20000 := by
    refine countP_inTier_le ?_ _
    rwa [rows_transitionLoop, length_map]
  have hpredicts : c.Predicts reg ↔ ∀ r ∈ reg.rows,
      (c.capped ((c.transitionLoop reg).listRelays tierFilter)
        (c.settle (c.cycle reg) r)).admissionState = c.proposed r := by
    unfold Controller.Predicts Controller.runDryRun
    rw [forall_mem_map]
    refine forall_congr' fun r => ⟨fun h hr => ?_, fun h hlisted => ?_⟩
    · simpa [stateOf_run hr] using h (mem_listing_of_mem hsize hr)
    · have hr := Registry.mem_rows_of_listed hlisted
      simpa [stateOf_run hr] using h hr
  rw [hpredicts, ← capped_state_eq_iff htier, rows_transitionLoop, forall_mem_map]
  constructor
  · intro h
    refine ⟨fun d hd => ?_, fun r hr => ?_⟩
    · have hlisted : d.1 ∈ (c.cycle reg).map Prod.fst := mem_map_of_mem hd
      rw [map_fst_cycle] at hlisted
      have hr := Registry.mem_rows_of_listed hlisted
      exact ((capped_settle_eq_proposed_iff hr hd).mp (h d.1 hr)).1
    · obtain ⟨s, hs⟩ := exists_mem_cycle (c := c) (mem_listing_of_mem hsize hr)
      exact ((capped_settle_eq_proposed_iff hr hs).mp (h r hr)).2
  · rintro ⟨hdecisions, hcapped⟩ r hr
    obtain ⟨s, hs⟩ := exists_mem_cycle (c := c) (mem_listing_of_mem hsize hr)
    exact (capped_settle_eq_proposed_iff hr hs).mpr ⟨hdecisions _ hs, hcapped r hr⟩

theorem withinCaps_transitionLoop_iff (h : ∀ d ∈ c.cycle reg, d.2 = c.proposed d.1) :
    WithinCaps c.cfg (c.transitionLoop reg) ↔ c.ProposedWithinCaps reg := by
  have hstate : ∀ r ∈ reg.rows, (c.settle (c.cycle reg) r).admissionState = c.proposed r := by
    intro r hr
    obtain ⟨s, hs⟩ := exists_mem_cycle (c := c) (mem_listing_of_mem hsize hr)
    rw [settle_cycle_of_mem hs]
    exact h _ hs
  have hpolicy : ∀ r : RelayRecord K, r.manualPolicy = .pinned → c.proposed r = .pinned :=
    fun r hr => Controller.proposed_of_manualState (by rw [hr]; rfl)
  have hdynamic : (c.transitionLoop reg).rows.countP (fun r => DynamicActive r) =
      reg.rows.countP fun r => c.proposed r = .active := by
    rw [rows_transitionLoop, countP_map]
    refine countP_congr fun r hr => ?_
    simp only [Function.comp, decide_eq_true_eq, DynamicActive, hstate r hr, settle_manualPolicy]
    refine and_iff_left_of_imp fun hactive hpinned => ?_
    cases hactive.symm.trans (hpolicy r hpinned)
  have hpinned : (c.transitionLoop reg).rows.countP (fun r => Pinned r) =
      reg.rows.countP fun r => c.proposed r = .pinned := by
    rw [rows_transitionLoop, countP_map]
    refine countP_congr fun r hr => ?_
    simp only [Function.comp, decide_eq_true_eq, Pinned, hstate r hr, settle_manualPolicy]
    refine or_iff_left fun hactive => ?_
    cases hactive.1.symm.trans (hpolicy r hactive.2)
  have hprobation : (c.transitionLoop reg).rows.countP (fun r => InProbation r) =
      reg.rows.countP fun r => c.proposed r = .probation := by
    rw [rows_transitionLoop, countP_map]
    refine countP_congr fun r hr => ?_
    simp only [Function.comp, decide_eq_true_eq, InProbation, hstate r hr]
  constructor
  · intro hcaps
    have htotal := hcaps.totalActive
    rw [countP_active_or_pinned, hdynamic, hpinned] at htotal
    exact ⟨hdynamic ▸ hcaps.dynamicActive, htotal, hprobation ▸ hcaps.probation⟩
  · intro hcaps
    refine ⟨hdynamic.symm ▸ hcaps.dynamicActive, ?_, hprobation.symm ▸ hcaps.probation⟩
    rw [countP_active_or_pinned, hdynamic, hpinned]
    exact hcaps.totalActive

end

theorem dryRun_predicts_iff (c : Controller K) (reg : Registry K)
    (hsize : reg.rows.length ≤ 1000) : c.Predicts reg ↔
      c.RoomForAll (occupancy reg) (descending listingKey reg.rows) ∧ c.ProposedWithinCaps reg := by
  rw [predicts_iff_settled hsize]
  have hroom : (∀ d ∈ c.cycle reg, d.2 = c.proposed d.1) ↔
      c.RoomForAll (occupancy reg) (descending listingKey reg.rows) := by
    rw [Controller.cycle, decisions_eq_proposed_iff, loadTierOccupancy_eq hsize, listing_eq hsize]
  rw [← hroom]
  exact and_congr_right fun h => withinCaps_transitionLoop_iff hsize h

def twoCandidates : Registry ℚ :=
  ⟨[probed "a" .none .candidate 0, probed "b" .none .candidate 0], by decide, by decide⟩

theorem two_candidates_predicts_iff : (controller 20 15 20).Predicts twoCandidates ↔
    (controller 20 15 20).RoomForAll (occupancy twoCandidates)
        (descending listingKey twoCandidates.rows) ∧
      (controller 20 15 20).ProposedWithinCaps twoCandidates :=
  dryRun_predicts_iff (controller 20 15 20) twoCandidates (by decide)

/-- The second candidate finds probation full. -/
theorem second_candidate_held_back : ¬ ∀ (c : Controller ℚ) (reg : Registry ℚ),
    reg.rows.length ≤ 1000 → c.Predicts reg := by
  intro h
  have hpredicts := h (controller 20 15 1) twoCandidates (by decide)
  revert hpredicts
  unfold Controller.Predicts
  decide +kernel

end NostrMash.RelayAdmission
