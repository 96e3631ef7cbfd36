import NostrMash.TierCaps
import Mathlib.Tactic.NormNum

/-!
# What the limits of the listings leave out

A cycle looks at the first 1000 relays, and the caps at the first `enforcementListLimit` relays of
the tiers. The caps hold after a cycle if the relays that it brings into the tiers still fit the
second limit.
-/

namespace NostrMash.RelayAdmission
open RelayRegistry CappedPool KeysetPaging List
variable {K : Type*} [LinearOrder K] {c : Controller K} {reg : Registry K} {r : RelayRecord K}
  {named : List (RelayRecord ℚ)}

def probed (key : String) (policy : ManualPolicy) (state : AdmissionState) (score : ℚ) :
    RelayRecord ℚ where
  urlKey := key
  normalizedURL := "wss://" ++ key
  sourceSeed := false
  sourceUserList := true
  sourceManual := policy ≠ .none
  manualPolicy := policy
  admissionState := state
  score := score
  distinctUserRefCount := 0
  weightedUserRefScore := 0
  lastProbeStatus := some .ok
  lastConnectOK := some true
  avgConnectLatency := none
  probeFailRate := 0
  yieldScore := 0
  duplicateRatio := 0
  firstSeenShare := 0
  exclusiveShare := 0
  blockedRefCount := 0

def controller (maxTotalActive maxDynamicActive maxProbation : ℕ) : Controller ℚ where
  cfg := ⟨maxTotalActive, maxDynamicActive, maxProbation, 10, 30, 6 / 10⟩
  computeScore := computeScore fun _ => 0
  inputs := ⟨[], []⟩
  sorter := insertionSorter RelayRecord.score

def numbered (i : ℕ) : String := String.ofList (List.replicate i 'p')

theorem numbered_injective : Function.Injective numbered := by
  intro i j h
  simpa [numbered] using congrArg (fun s => s.toList.length) h

def probedURL (key : String) : String := "wss://" ++ key

theorem probedURL_injective : Function.Injective probedURL := by
  intro a b h
  simpa [probedURL] using h

def crowdRows (named : List (RelayRecord ℚ)) (policy : ManualPolicy) (state : AdmissionState)
    (n : ℕ) : List (RelayRecord ℚ) :=
  named ++ (List.range n).map fun i => probed (numbered i) policy state 20

theorem nodup_crowdRows (hnodup : (named.map RelayRecord.urlKey).Nodup)
    (hkeys : ∀ r ∈ named, r.urlKey.toList.any (· ≠ 'p') = true) (policy : ManualPolicy)
    (state : AdmissionState) (n : ℕ) :
    ((crowdRows named policy state n).map RelayRecord.urlKey).Nodup := by
  have hnumbered : ((List.range n).map fun i => probed (numbered i) policy state 20).map
      RelayRecord.urlKey = (List.range n).map numbered := by
    rw [map_map]
    rfl
  rw [crowdRows, map_append, hnumbered]
  refine nodup_append'.mpr ⟨hnodup, nodup_range.map numbered_injective, ?_⟩
  intro key hnamed hnumber
  obtain ⟨r, hr, rfl⟩ := mem_map.mp hnamed
  obtain ⟨i, -, hi⟩ := mem_map.mp hnumber
  obtain ⟨x, hx, hne⟩ := any_eq_true.mp (hkeys r hr)
  rw [← hi, numbered, String.toList_ofList] at hx
  exact of_decide_eq_true hne (eq_of_mem_replicate hx)

def registryOf (rows : List (RelayRecord ℚ)) (hkeys : (rows.map RelayRecord.urlKey).Nodup)
    (hurls : ∀ r ∈ rows, r.normalizedURL = probedURL r.urlKey) : Registry ℚ where
  rows := rows
  urlKey_nodup := hkeys
  normalizedURL_nodup := by
    have hmap : rows.map RelayRecord.normalizedURL =
        (rows.map RelayRecord.urlKey).map probedURL := by
      rw [map_map]
      exact map_congr_left hurls
    rw [hmap]
    exact hkeys.map probedURL_injective

theorem url_crowdRows (h : ∀ r ∈ named, r.normalizedURL = probedURL r.urlKey)
    (policy : ManualPolicy) (state : AdmissionState) (n : ℕ) :
    ∀ r ∈ crowdRows named policy state n, r.normalizedURL = probedURL r.urlKey := by
  intro r hr
  rcases mem_append.mp hr with hr | hr
  · exact h r hr
  · obtain ⟨i, -, rfl⟩ := mem_map.mp hr
    rfl

theorem score_probed (m n l : ℕ) (key : String) (policy : ManualPolicy) (state : AdmissionState)
    (score : ℚ) : ((controller m n l).score (probed key policy state score)).totalScore = 20 := by
  have happly : (controller m n l).inputs.apply (probed key policy state score) =
      probed key policy state score := rfl
  rw [Controller.score, happly]
  norm_num [controller, computeScore, probed, popularityScore, probeHealthScore, latencyScore,
    clamp]

section

def Controller.entering (c : Controller K) (reg : Registry K) : ℕ :=
  (reg.listRelays listingFilter).countP fun r =>
    ¬ InTier r.admissionState ∧ InTier (c.proposed r)

omit [LinearOrder K] in
theorem countP_le_add (rows : List (RelayRecord K)) (p q : RelayRecord K → Bool) :
    rows.countP p ≤ rows.countP q + rows.countP fun r => p r && !q r := by
  rw [countP_eq_countP_filter_add rows p q, countP_filter, countP_filter]
  refine Nat.add_le_add_right (countP_mono_left fun r _ h => ?_) _
  exact (Bool.and_eq_true_iff.mp h).2

theorem countP_inTier_transitionLoop :
    (c.transitionLoop reg).rows.countP (fun r => InTier r.admissionState) ≤
      reg.rows.countP (fun r => InTier r.admissionState) + c.entering reg := by
  rw [rows_transitionLoop, countP_map]
  refine (countP_le_add _ _ fun r => InTier r.admissionState).trans (Nat.add_le_add_left ?_ _)
  rw [Controller.entering, countP_eq_length_filter, countP_eq_length_filter]
  refine (subperm_of_subset (reg.nodup.filter _) fun r hr => ?_).length_le
  simp only [mem_filter, Function.comp, Bool.and_eq_true, Bool.not_eq_true',
    decide_eq_true_eq, decide_eq_false_iff_not] at hr ⊢
  obtain ⟨hr, hin, hout⟩ := hr
  by_cases hlisted : r ∈ reg.listRelays listingFilter
  · obtain ⟨s, hs⟩ := exists_mem_cycle (c := c) hlisted
    rw [settle_cycle_of_mem hs] at hin
    rcases decision_cases hs with rfl | ⟨rfl, -⟩
    · exact ⟨hlisted, hout, hin⟩
    · exact absurd hin hout
  · rw [settle_cycle_of_notMem hr hlisted] at hin
    exact absurd hin hout

theorem run_respects_caps (c : Controller K) (reg : Registry K)
    (hsize : ((reg.rows.countP (fun r => InTier r.admissionState) + c.entering reg : ℕ) : ℤ) ≤
      enforcementListLimit) :
    WithinCaps c.cfg (c.run reg) ∧ LowestFirst (c.transitionLoop reg) (c.run reg) := by
  have hlimit : (c.transitionLoop reg).rows.countP (fun r => InTier r.admissionState) ≤ 20000 := by
    refine countP_inTier_transitionLoop.trans ?_
    unfold enforcementListLimit at hsize
    omega
  exact ⟨withinCaps_enforceCaps hlimit, lowestFirst_enforceCaps hlimit⟩

def twoActive : Registry ℚ :=
  ⟨[probed "a" .none .active 20, probed "b" .none .active 25], by decide, by decide⟩

theorem two_active_under_cap_of_one : WithinCaps (controller 1 1 1).cfg
      ((controller 1 1 1).run twoActive) ∧
    LowestFirst ((controller 1 1 1).transitionLoop twoActive) ((controller 1 1 1).run twoActive) :=
  run_respects_caps (controller 1 1 1) twoActive (by decide)

theorem notMem_listRelays {filter : ListFilter} {l : List (RelayRecord K)}
    (hl : l.Sublist reg.rows) (haccepts : ∀ b ∈ l, filter.accepts b = true)
    (hscore : ∀ b ∈ l, r.score < b.score) (hlength : filter.size ≤ l.length) :
    r ∉ reg.listRelays filter := by
  intro hlisted
  have hlt := (Registry.mem_listRelays.mp hlisted).2
  have habove : l.Sublist (above listingKey (reg.rows.filter filter.accepts) r) := by
    have hfilter := (hl.filter filter.accepts).filter fun b => listingKey r < listingKey b
    rw [filter_eq_self.mpr haccepts, filter_eq_self.mpr] at hfilter
    · exact hfilter
    · exact fun b hb => decide_eq_true (listingKey_lt (hscore b hb))
  exact absurd (habove.length_le.trans_lt hlt) (not_lt.mpr hlength)

def fresh : RelayRecord ℚ := probed "fresh" .pinned .candidate 30

def straggler : RelayRecord ℚ := probed "straggler" .none .active 0

def pinnedCrowd (n : ℕ) : Registry ℚ :=
  registryOf (crowdRows [fresh, straggler] .pinned .pinned n)
    (nodup_crowdRows (by decide) (by decide) .pinned .pinned n)
    (url_crowdRows (by simp [fresh, straggler, probed, probedURL]) .pinned .pinned n)

def pins (n : ℕ) : List (RelayRecord ℚ) :=
  (List.range n).map fun i => probed (numbered i) .pinned .pinned 20

theorem rows_pinnedCrowd (n : ℕ) : (pinnedCrowd n).rows = fresh :: straggler :: pins n := rfl

theorem mem_pinnedCrowd {n : ℕ} {r : RelayRecord ℚ} (h : r ∈ (pinnedCrowd n).rows) :
    r = fresh ∨ r = straggler ∨ r ∈ pins n := by
  simpa [rows_pinnedCrowd] using h

theorem mem_pins {n : ℕ} {r : RelayRecord ℚ} (h : r ∈ pins n) :
    ∃ i, r = probed (numbered i) .pinned .pinned 20 := by
  obtain ⟨i, -, rfl⟩ := mem_map.mp h
  exact ⟨i, rfl⟩

theorem fresh_listed (n : ℕ) : fresh ∈ (pinnedCrowd n).listRelays listingFilter := by
  refine Registry.mem_listRelays.mpr ⟨⟨.head _, rfl⟩, ?_⟩
  rw [above_eq_nil]
  · decide
  · intro b hb
    rcases mem_pinnedCrowd (mem_filter.mp hb).1 with rfl | rfl | hpin
    · exact le_rfl
    · exact (listingKey_lt (by norm_num [fresh, straggler, probed])).le
    · obtain ⟨i, rfl⟩ := mem_pins hpin
      exact (listingKey_lt (by norm_num [fresh, probed])).le

theorem straggler_not_listed {n : ℕ} (hn : 1000 ≤ n) :
    straggler ∉ (pinnedCrowd n).listRelays listingFilter := by
  refine notMem_listRelays (l := pins n) ?_ (fun _ _ => rfl) ?_ ?_
  · exact (sublist_cons_self straggler (pins n)).cons fresh
  · intro b hb
    obtain ⟨i, rfl⟩ := mem_pins hb
    norm_num [straggler, probed]
  · rw [pins, length_map, length_range]
    exact hn

variable {m k j n : ℕ}

theorem score_settle_pos {r : RelayRecord ℚ} (hr : 0 < r.score) :
    0 < ((controller m k j).settle ((controller m k j).cycle (pinnedCrowd n)) r).score := by
  rcases settle_score (c := controller m k j) (r := r) with h | ⟨r', hr', h⟩
  · rwa [h]
  · rw [h]
    rcases mem_pinnedCrowd hr' with rfl | rfl | hpin
    · rw [fresh, score_probed]
      norm_num
    · rw [straggler, score_probed]
      norm_num
    · obtain ⟨i, rfl⟩ := mem_pins hpin
      rw [score_probed]
      norm_num

theorem straggler_not_enforced (hn : 19999 ≤ n) : straggler ∉
    ((controller m k j).transitionLoop (pinnedCrowd n)).listRelays tierFilter := by
  refine notMem_listRelays
    (l := (fresh :: pins n).map ((controller m k j).settle ((controller m k j).cycle (pinnedCrowd n))))
    ?_ ?_ ?_ ?_
  · rw [rows_transitionLoop]
    exact ((sublist_cons_self straggler (pins n)).cons_cons fresh).map _
  · intro b hb
    obtain ⟨r, hr, rfl⟩ := mem_map.mp hb
    rw [tierFilter_accepts]
    refine .inr (.inl ?_)
    rcases mem_cons.mp hr with rfl | hpin
    · exact settle_of_manualState (.head _) rfl (.inr (fresh_listed n))
    · have hrow : r ∈ (pinnedCrowd n).rows := .tail _ (.tail _ hpin)
      obtain ⟨i, rfl⟩ := mem_pins hpin
      exact settle_of_manualState hrow rfl (.inl rfl)
  · intro b hb
    obtain ⟨r, hr, rfl⟩ := mem_map.mp hb
    refine score_settle_pos ?_
    rcases mem_cons.mp hr with rfl | hpin
    · norm_num [fresh, probed]
    · obtain ⟨i, rfl⟩ := mem_pins hpin
      norm_num [probed]
  · rw [length_map, length_cons, pins, length_map, length_range]
    exact Nat.succ_le_succ hn

theorem straggler_stays_active (hn : 19999 ≤ n) :
    straggler ∈ ((controller m k j).run (pinnedCrowd n)).rows := by
  have hrow : straggler ∈ (pinnedCrowd n).rows := .tail _ (.head _)
  have hloop : straggler ∈ ((controller m k j).transitionLoop (pinnedCrowd n)).rows := by
    rw [rows_transitionLoop]
    refine mem_map.mpr ⟨straggler, hrow, ?_⟩
    exact settle_cycle_of_notMem hrow (straggler_not_listed (by omega))
  rw [Controller.run, rows_enforceCaps]
  exact mem_map.mpr ⟨straggler, hloop, capped_of_notMem hloop (straggler_not_enforced hn)⟩

/-- A full listing that one more relay joins leaves out the lowest score. -/
theorem full_listing_exceeds_cap : ¬ ∀ (c : Controller ℚ) (reg : Registry ℚ),
    (reg.rows.countP (fun r => InTier r.admissionState) : ℤ) ≤ enforcementListLimit →
      WithinCaps c.cfg (c.run reg) ∧ LowestFirst (c.transitionLoop reg) (c.run reg) := by
  intro h
  have hcount : (pinnedCrowd 19999).rows.countP (fun r => InTier r.admissionState) ≤ 20000 := by
    have hrest : (straggler :: pins 19999).length = 20000 := by
      rw [length_cons, pins, length_map, length_range]
    rw [rows_pinnedCrowd, countP_cons_of_neg (by decide), ← hrest]
    exact countP_le_length
  have hcaps := (h (controller 20 0 20) (pinnedCrowd 19999) (Int.ofNat_le.mpr hcount)).1
  have hpos : 0 < ((controller 20 0 20).run (pinnedCrowd 19999)).rows.countP
      fun r => DynamicActive r :=
    countP_pos_iff.mpr ⟨straggler, straggler_stays_active le_rfl, by decide⟩
  exact absurd hcaps.dynamicActive (not_le.mpr hpos)

end

/-- The state of every relay with an override is the one that the override stands for. -/
def PolicyInEffect (reg : Registry K) : Prop :=
  ∀ r ∈ reg.rows, ∀ s, manualState r.manualPolicy = some s → r.admissionState = s

theorem mem_listing : r ∈ reg.listRelays listingFilter ↔
    r ∈ reg.rows ∧ (above listingKey reg.rows r).length < 1000 := by
  have hall : reg.rows.filter listingFilter.accepts = reg.rows :=
    filter_eq_self.mpr fun _ _ => rfl
  rw [Registry.mem_listRelays, hall]
  exact and_congr_left' (and_iff_left rfl)

theorem rows_run : (c.run reg).rows = reg.rows.map fun r =>
    c.capped ((c.transitionLoop reg).listRelays tierFilter) (c.settle (c.cycle reg) r) := by
  rw [Controller.run, rows_enforceCaps, rows_transitionLoop, map_map]
  rfl

theorem settle_mem_transitionLoop (hr : r ∈ reg.rows) :
    c.settle (c.cycle reg) r ∈ (c.transitionLoop reg).rows := by
  rw [rows_transitionLoop]
  exact mem_map_of_mem hr

theorem stateOf_run (hr : r ∈ reg.rows) : (c.run reg).stateOf r.urlKey =
    some (c.capped ((c.transitionLoop reg).listRelays tierFilter)
      (c.settle (c.cycle reg) r)).admissionState := by
  rw [Controller.run, ← stateOf_enforceCaps (settle_mem_transitionLoop hr), settle_urlKey]

theorem run_manualState_iff {s : AdmissionState} (hr : r ∈ reg.rows)
    (hs : manualState r.manualPolicy = some s) :
    (c.capped ((c.transitionLoop reg).listRelays tierFilter)
        (c.settle (c.cycle reg) r)).admissionState = s ↔
      r.admissionState = s ∨ r ∈ reg.listRelays listingFilter := by
  rw [capped_eq_manual_iff (settle_mem_transitionLoop hr) (isManual_of_manualState hs)]
  refine ⟨fun h => ?_, settle_of_manualState hr hs⟩
  by_cases hlisted : r ∈ reg.listRelays listingFilter
  · exact .inr hlisted
  · rw [settle_cycle_of_notMem hr hlisted] at h
    exact .inl h

theorem policyInEffect_run_iff (c : Controller K) (reg : Registry K) :
    PolicyInEffect (c.run reg) ↔ ∀ r ∈ reg.rows, ∀ s, manualState r.manualPolicy = some s →
      r.admissionState = s ∨ (above listingKey reg.rows r).length < 1000 := by
  unfold PolicyInEffect
  rw [rows_run, forall_mem_map]
  refine forall₂_congr fun r hr => forall_congr' fun s => ?_
  rw [capped_manualPolicy, settle_manualPolicy]
  refine imp_congr_right fun hs => ?_
  rw [run_manualState_iff hr hs, mem_listing, and_iff_right hr]

def quiet : RelayRecord ℚ := probed "quiet" .blocked .active 0

def quietCrowd (n : ℕ) : Registry ℚ :=
  registryOf (crowdRows [quiet] .none .candidate n)
    (nodup_crowdRows (by decide) (by decide) .none .candidate n)
    (url_crowdRows (by simp [quiet, probed, probedURL]) .none .candidate n)

theorem quiet_not_listed {n : ℕ} (hn : 1000 ≤ n) :
    quiet ∉ (quietCrowd n).listRelays listingFilter := by
  refine notMem_listRelays
    (l := (List.range n).map fun i => probed (numbered i) .none .candidate 20)
    (sublist_cons_self quiet _) (fun _ _ => rfl) ?_ ?_
  · intro b hb
    obtain ⟨i, -, rfl⟩ := mem_map.mp hb
    norm_num [quiet, probed]
  · rw [length_map, length_range]
    exact hn

theorem not_policyInEffect_quietCrowd {n : ℕ} (hn : 1000 ≤ n) (c : Controller ℚ) :
    ¬ PolicyInEffect (c.run (quietCrowd n)) := by
  intro heffect
  have hrow : quiet ∈ (quietCrowd n).rows := .head _
  rw [PolicyInEffect, rows_run, forall_mem_map] at heffect
  have hstate := heffect quiet hrow .blocked (by rw [capped_manualPolicy, settle_manualPolicy]; rfl)
  rw [run_manualState_iff hrow rfl] at hstate
  exact hstate.elim (by decide) (quiet_not_listed hn)

theorem quiet_stays_active : ¬ ∀ (c : Controller ℚ) (reg : Registry ℚ),
    PolicyInEffect (c.run reg) :=
  fun h => not_policyInEffect_quietCrowd le_rfl (controller 20 15 20) (h _ (quietCrowd 1000))

end NostrMash.RelayAdmission
