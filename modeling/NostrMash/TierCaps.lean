import NostrMash.AdmissionCaps

/-!
# Tiers within their caps

`enforceCaps` lists at most `enforcementListLimit` relays of the tiers.
-/

namespace NostrMash.RelayAdmission
open RelayRegistry CappedPool List Sorter Registry
variable {K : Type*} [LinearOrder K] {c : Controller K} {reg : Registry K} {r : RelayRecord K}
  {l : List (RelayRecord K)} {p : RelayRecord K → Bool}

section

def InTier (s : AdmissionState) : Prop := s = .active ∨ s = .pinned ∨ s = .probation

instance (s : AdmissionState) : Decidable (InTier s) := inferInstanceAs (Decidable (_ ∨ _))

omit [LinearOrder K] in
theorem tierFilter_accepts : tierFilter.accepts r = true ↔ InTier r.admissionState := by
  simp [tierFilter, ListFilter.accepts, InTier]

omit [LinearOrder K] in
theorem DynamicActive.inTier (h : DynamicActive r) : InTier r.admissionState := .inl h.1

omit [LinearOrder K] in
theorem DynamicActive.not_inProbation (h : DynamicActive r) : ¬ InProbation r := fun h' =>
  nomatch (h.1.symm.trans h')

omit [LinearOrder K] in
theorem InProbation.inTier (h : InProbation r) : InTier r.admissionState := .inr (.inr h)

omit [LinearOrder K] in
theorem Pinned.inTier (h : Pinned r) : InTier r.admissionState :=
  h.elim (fun h => .inr (.inl h)) fun h => .inl h.1

omit [LinearOrder K] in
theorem countP_eq_length {rows : List (RelayRecord K)} (hrows : rows.Nodup) (hl : l.Nodup)
    (h : ∀ r, r ∈ rows ∧ p r = true ↔ r ∈ l) :
    rows.countP p = l.length := by
  rw [countP_eq_length_filter]
  refine ((perm_ext_iff_of_nodup (hrows.filter p) hl).mpr fun r => ?_).length_eq
  rw [mem_filter, h]

omit [LinearOrder K] in
theorem countP_active_or_pinned (rows : List (RelayRecord K)) :
    rows.countP (fun r => r.admissionState = .active ∨ r.admissionState = .pinned) =
      rows.countP (fun r => Pinned r) + rows.countP fun r => DynamicActive r := by
  induction rows with
  | nil => rfl
  | cons r rows ih =>
    simp only [countP_cons, ih]
    by_cases hactive : r.admissionState = .active
    · by_cases hpolicy : r.manualPolicy = .pinned
      · simp [Pinned, DynamicActive, hactive, hpolicy]
        omega
      · simp [Pinned, DynamicActive, hactive, hpolicy]
        omega
    · by_cases hpinned : r.admissionState = .pinned
      · simp [Pinned, DynamicActive, hpinned]
        omega
      · simp [Pinned, DynamicActive, hactive, hpinned]

/-- The tiers of the registry are within the caps; pinned relays are not capped. -/
structure WithinCaps (cfg : Config K) (reg : Registry K) : Prop where
  dynamicActive : reg.rows.countP (fun r => DynamicActive r) ≤ cfg.maxDynamicActive
  totalActive : reg.rows.countP (fun r => r.admissionState = .active ∨ r.admissionState = .pinned) ≤
    max cfg.maxTotalActive (reg.rows.countP fun r => Pinned r)
  probation : reg.rows.countP (fun r => InProbation r) ≤ cfg.maxProbation

/-- No relay leaves a tier while one of the same tier with a lower score stays. -/
structure LowestFirst (before after : Registry K) : Prop where
  active : ∀ a ∈ before.rows, ∀ b ∈ before.rows, DynamicActive a → DynamicActive b →
    after.stateOf a.urlKey ≠ some .active → after.stateOf b.urlKey = some .active →
    a.score ≤ b.score
  probation : ∀ a ∈ before.rows, ∀ b ∈ before.rows, DynamicActive a ∨ InProbation a →
    after.stateOf a.urlKey = some .inactive → after.stateOf b.urlKey = some .probation →
    a.score ≤ b.score

variable (hsize : reg.rows.countP (fun r => InTier r.admissionState) ≤ 20000)
include hsize

theorem mem_tier_listing : r ∈ reg.listRelays tierFilter ↔
    r ∈ reg.rows ∧ InTier r.admissionState := by
  have haccepts : tierFilter.accepts = fun r : RelayRecord K => decide (InTier r.admissionState) :=
    funext fun r => by rw [Bool.eq_iff_iff, tierFilter_accepts, decide_eq_true_eq]
  have hlength : (reg.rows.filter tierFilter.accepts).length ≤ tierFilter.size := by
    rw [haccepts, ← countP_eq_length_filter]
    exact hsize
  rw [(perm_listRelays hlength).mem_iff, mem_filter, tierFilter_accepts]

theorem countP_listing {p : RelayRecord K → Prop} [DecidablePred p]
    (hp : ∀ r, p r → InTier r.admissionState) :
    (reg.listRelays tierFilter).countP (fun r => p r) = reg.rows.countP fun r => p r := by
  rw [countP_eq_length_filter]
  refine (countP_eq_length reg.nodup (nodup_listRelays.filter _) fun r => ?_).symm
  simp only [mem_filter, mem_tier_listing hsize, decide_eq_true_eq]
  exact ⟨fun h => ⟨⟨h.1, hp r h.2⟩, h.2⟩, fun h => ⟨h.1.1, h.2⟩⟩

end

section
variable {relays : List (RelayRecord K)}

def Controller.activeLeft (c : Controller K) (relays : List (RelayRecord K)) :
    List (RelayRecord K) :=
  c.sorter.kept ((c.underTotalCap relays).length - c.cfg.maxDynamicActive) (c.underTotalCap relays)

def Controller.probationLeft (c : Controller K) (relays : List (RelayRecord K)) :
    List (RelayRecord K) :=
  c.sorter.kept ((c.probationPool relays).length - c.cfg.maxProbation) (c.probationPool relays)

theorem dynamicActive_iff (h : r ∈ relays) : DynamicActive r ↔
    r ∈ c.totalSpill relays ++ c.dynamicSpill relays ∨ r ∈ c.activeLeft relays := by
  have hdynamic : DynamicActive r ↔ r ∈ relays.filter fun r => DynamicActive r := by
    simp [h]
  rw [hdynamic, mem_cut_or_kept (S := c.sorter) (n := totalExcess c.cfg relays),
    mem_append, or_assoc]
  exact or_congr_right mem_cut_or_kept

section
variable (hrelays : relays.Nodup)
include hrelays

theorem disjoint_totalSpill : (c.totalSpill relays).Disjoint (c.underTotalCap relays) :=
  disjoint_cut_kept (hrelays.filter _)

theorem nodup_underTotalCap : (c.underTotalCap relays).Nodup :=
  nodup_kept (hrelays.filter _)

theorem notMem_spill_of_mem_activeLeft (h : r ∈ c.activeLeft relays) :
    r ∉ c.totalSpill relays ++ c.dynamicSpill relays := by
  rw [mem_append]
  rintro (htotal | hdynamic)
  · exact disjoint_totalSpill hrelays htotal (mem_of_mem_kept h)
  · exact disjoint_cut_kept (nodup_underTotalCap hrelays) hdynamic h

theorem nodup_probationPool : (c.probationPool relays).Nodup := by
  have hspill : (c.totalSpill relays ++ c.dynamicSpill relays).Nodup :=
    nodup_append'.mpr ⟨nodup_cut (hrelays.filter _),
      nodup_cut (nodup_underTotalCap hrelays), fun _ ha hb =>
        disjoint_totalSpill hrelays ha (mem_of_mem_cut hb)⟩
  rw [Controller.probationPool, append_assoc]
  refine nodup_append'.mpr ⟨hrelays.filter _, hspill, fun r ha hb => ?_⟩
  exact (mem_of_mem_spill hb).2.not_inProbation (of_decide_eq_true (mem_filter.mp ha).2)

end

theorem score_le_of_mem_activeLeft {a b : RelayRecord K}
    (ha : a ∈ c.totalSpill relays ++ c.dynamicSpill relays) (hb : b ∈ c.activeLeft relays) :
    a.score ≤ b.score := by
  rcases mem_append.mp ha with ha | ha
  · exact score_le_of_mem_cut ha (mem_of_mem_kept hb)
  · exact score_le_of_mem_cut ha hb

end

variable (hsize : reg.rows.countP (fun r => InTier r.admissionState) ≤ 20000)
include hsize

theorem dynamicActive_capped : r ∈ reg.rows ∧
      DynamicActive (c.capped (reg.listRelays tierFilter) r) ↔
    r ∈ c.activeLeft (reg.listRelays tierFilter) := by
  constructor
  · rintro ⟨hr, hactive⟩
    rcases capped_cases (c := c) hr _ rfl with ⟨-, hstate⟩ | ⟨-, -, hstate⟩ | ⟨-, hspill, heq⟩
    · exact nomatch (hstate.symm.trans hactive.1)
    · exact nomatch (hstate.symm.trans hactive.1)
    · rw [heq] at hactive
      have hlisted := (mem_tier_listing hsize).mpr ⟨hr, hactive.inTier⟩
      exact ((dynamicActive_iff hlisted).mp hactive).resolve_left hspill
  · intro hleft
    obtain ⟨hlisted, hactive⟩ := mem_of_mem_underTotalCap (mem_of_mem_kept hleft)
    have hspill := notMem_spill_of_mem_activeLeft nodup_listRelays hleft
    have hr := mem_rows_of_listed hlisted
    refine ⟨hr, ?_⟩
    rcases capped_cases (c := c) hr _ rfl with ⟨hmem, -⟩ | ⟨-, hmem, -⟩ | ⟨-, -, heq⟩
    · rcases mem_probationPool.mp (mem_of_mem_cut hmem) with h | h
      · exact absurd h.2 hactive.not_inProbation
      · exact absurd h hspill
    · exact absurd hmem hspill
    · rwa [heq]

theorem inProbation_capped : r ∈ reg.rows ∧ InProbation (c.capped (reg.listRelays tierFilter) r) ↔
    r ∈ c.probationLeft (reg.listRelays tierFilter) := by
  have hnodup : (c.probationPool (reg.listRelays tierFilter)).Nodup :=
    nodup_probationPool nodup_listRelays
  constructor
  · rintro ⟨hr, hprobation⟩
    rcases capped_cases (c := c) hr _ rfl with ⟨-, hstate⟩ | ⟨hout, hspill, -⟩ | ⟨hout, -, heq⟩
    · exact nomatch (hstate.symm.trans hprobation)
    · exact (mem_cut_or_kept.mp (mem_probationPool.mpr (.inr hspill))).resolve_left hout
    · rw [heq] at hprobation
      have hlisted := (mem_tier_listing hsize).mpr ⟨hr, hprobation.inTier⟩
      exact (mem_cut_or_kept.mp
        (mem_probationPool.mpr (.inl ⟨hlisted, hprobation⟩))).resolve_left hout
  · intro hleft
    have hpool := mem_of_mem_kept hleft
    have hr := mem_rows_of_listed (mem_of_mem_probationPool hpool).1
    refine ⟨hr, ?_⟩
    rcases capped_cases (c := c) hr _ rfl with ⟨hmem, -⟩ | ⟨-, -, hstate⟩ | ⟨-, hspill, heq⟩
    · exact absurd hleft (disjoint_cut_kept hnodup hmem)
    · exact hstate
    · rw [heq]
      exact ((mem_probationPool.mp hpool).resolve_right hspill).2

omit hsize in
theorem pinned_capped (hr : r ∈ reg.rows) :
    Pinned (c.capped (reg.listRelays tierFilter) r) ↔ Pinned r := by
  constructor
  · intro hpinned
    rcases capped_cases (c := c) hr _ rfl with ⟨-, hstate⟩ | ⟨-, -, hstate⟩ | ⟨-, -, heq⟩
    · simp [Pinned, hstate] at hpinned
    · simp [Pinned, hstate] at hpinned
    · rwa [heq] at hpinned
  · intro hpinned
    have hdynamic : ¬ DynamicActive r := by
      rintro ⟨hactive, hpolicy⟩
      rcases hpinned with h | h
      · exact nomatch (hactive.symm.trans h)
      · exact hpolicy h.2
    have hprobation : ¬ InProbation r := by
      intro h
      unfold InProbation at h
      simp [Pinned, h] at hpinned
    rwa [capped_of_not_tier hr hdynamic hprobation]

omit hsize in
theorem countP_capped : (c.enforceCaps reg).rows.countP p =
    reg.rows.countP fun r => p (c.capped (reg.listRelays tierFilter) r) := by
  rw [rows_enforceCaps, countP_map]
  rfl

theorem countP_dynamicActive_enforceCaps :
    (c.enforceCaps reg).rows.countP (fun r => DynamicActive r) =
      (c.activeLeft (reg.listRelays tierFilter)).length := by
  rw [countP_capped]
  refine countP_eq_length reg.nodup
    (nodup_kept (nodup_underTotalCap nodup_listRelays)) fun r => ?_
  rw [decide_eq_true_eq, dynamicActive_capped hsize]

theorem countP_inProbation_enforceCaps : (c.enforceCaps reg).rows.countP (fun r => InProbation r) =
      (c.probationLeft (reg.listRelays tierFilter)).length := by
  rw [countP_capped]
  refine countP_eq_length reg.nodup
    (nodup_kept (nodup_probationPool nodup_listRelays)) fun r => ?_
  rw [decide_eq_true_eq, inProbation_capped hsize]

omit hsize in
theorem countP_pinned_enforceCaps :
    (c.enforceCaps reg).rows.countP (fun r => Pinned r) = reg.rows.countP fun r => Pinned r := by
  rw [countP_capped]
  refine countP_congr fun r hr => ?_
  rw [decide_eq_true_eq, decide_eq_true_eq, pinned_capped hr]

theorem withinCaps_enforceCaps : WithinCaps c.cfg (c.enforceCaps reg) where
  dynamicActive := by
    rw [countP_dynamicActive_enforceCaps hsize, Controller.activeLeft, length_kept]
    omega
  totalActive := by
    have hleft : (c.activeLeft (reg.listRelays tierFilter)).length ≤
        (c.underTotalCap (reg.listRelays tierFilter)).length := by
      rw [Controller.activeLeft, length_kept]
      omega
    have hunder : (c.underTotalCap (reg.listRelays tierFilter)).length =
        ((reg.listRelays tierFilter).filter fun r => DynamicActive r).length -
          totalExcess c.cfg (reg.listRelays tierFilter) := length_kept _ _ _
    have hpinned := countP_listing hsize (p := Pinned) fun r => Pinned.inTier
    unfold totalExcess at hunder
    rw [countP_active_or_pinned, countP_dynamicActive_enforceCaps hsize, countP_pinned_enforceCaps]
    omega
  probation := by
    rw [countP_inProbation_enforceCaps hsize, Controller.probationLeft, length_kept]
    omega

omit hsize in
theorem stateOf_enforceCaps (hr : r ∈ reg.rows) : (c.enforceCaps reg).stateOf r.urlKey =
    some (c.capped (reg.listRelays tierFilter) r).admissionState := by
  have hmem : c.capped (reg.listRelays tierFilter) r ∈ (c.enforceCaps reg).rows := by
    rw [rows_enforceCaps]
    exact mem_map_of_mem hr
  rw [← stateOf_of_mem hmem, capped_urlKey]

theorem lowestFirst_enforceCaps : LowestFirst reg (c.enforceCaps reg) where
  active a ha b hb hda hdb hgone hkept := by
    rw [stateOf_enforceCaps ha, ne_eq, Option.some.injEq] at hgone
    rw [stateOf_enforceCaps hb, Option.some.injEq] at hkept
    have hleft : b ∈ c.activeLeft (reg.listRelays tierFilter) :=
      (dynamicActive_capped hsize).mp ⟨hb, hkept, by rw [capped_manualPolicy]; exact hdb.2⟩
    have hlisted := (mem_tier_listing hsize).mpr ⟨ha, hda.inTier⟩
    refine score_le_of_mem_activeLeft (((dynamicActive_iff hlisted).mp hda).resolve_right ?_) hleft
    intro h
    exact hgone ((dynamicActive_capped hsize).mpr h).2.1
  probation a ha b hb htier hgone hkept := by
    rw [stateOf_enforceCaps ha, Option.some.injEq] at hgone
    rw [stateOf_enforceCaps hb, Option.some.injEq] at hkept
    refine score_le_of_mem_cut ?_ ((inProbation_capped hsize).mp ⟨hb, hkept⟩)
    rcases capped_cases (c := c) ha _ rfl with ⟨hmem, -⟩ | ⟨-, -, hstate⟩ | ⟨-, -, heq⟩
    · exact hmem
    · exact nomatch (hstate.symm.trans hgone)
    · rw [heq] at hgone
      simp [DynamicActive, InProbation, hgone] at htier

omit hsize in
theorem capped_state_eq_iff_spills : (∀ r ∈ reg.rows,
      (c.capped (reg.listRelays tierFilter) r).admissionState = r.admissionState) ↔
    c.totalSpill (reg.listRelays tierFilter) = [] ∧
      c.dynamicSpill (reg.listRelays tierFilter) = [] ∧
      c.probationSpill (reg.listRelays tierFilter) = [] := by
  constructor
  · intro h
    have hprobation : ∀ r, r ∉ c.probationSpill (reg.listRelays tierFilter) := by
      intro r hmem
      obtain ⟨hlisted, htier⟩ := mem_of_mem_probationSpill hmem
      have hr := mem_rows_of_listed hlisted
      have hsame := h r hr
      rcases capped_cases (c := c) hr _ rfl with ⟨-, hstate⟩ | ⟨hout, -⟩ | ⟨hout, -⟩
      · rw [hstate] at hsame
        simp [DynamicActive, InProbation, ← hsame] at htier
      · exact hout hmem
      · exact hout hmem
    have hspill : ∀ r, r ∉ c.totalSpill (reg.listRelays tierFilter) ++
        c.dynamicSpill (reg.listRelays tierFilter) := by
      intro r hmem
      obtain ⟨hlisted, hactive⟩ := mem_of_mem_spill hmem
      have hr := mem_rows_of_listed hlisted
      have hsame := h r hr
      rcases capped_cases (c := c) hr _ rfl with ⟨hin, -⟩ | ⟨-, -, hstate⟩ | ⟨-, hout, -⟩
      · exact hprobation r hin
      · rw [hstate, hactive.1] at hsame
        exact nomatch hsame
      · exact hout hmem
    obtain ⟨htotal, hdynamic⟩ := append_eq_nil_iff.mp (eq_nil_iff_forall_not_mem.mpr hspill)
    exact ⟨htotal, hdynamic, eq_nil_iff_forall_not_mem.mpr hprobation⟩
  · rintro ⟨htotal, hdynamic, hprobation⟩ r hr
    rcases capped_cases (c := c) hr _ rfl with ⟨hin, -⟩ | ⟨-, hin, -⟩ | ⟨-, -, heq⟩
    · rw [hprobation] at hin
      exact nomatch hin
    · rw [htotal, hdynamic] at hin
      exact nomatch hin
    · rw [heq]

theorem spills_eq_nil_iff : c.totalSpill (reg.listRelays tierFilter) = [] ∧
      c.dynamicSpill (reg.listRelays tierFilter) = [] ↔
    reg.rows.countP (fun r => DynamicActive r) ≤ c.cfg.maxDynamicActive ∧
      reg.rows.countP (fun r => Pinned r) + reg.rows.countP (fun r => DynamicActive r) ≤
        max c.cfg.maxTotalActive (reg.rows.countP fun r => Pinned r) := by
  have hpinned := countP_listing hsize (p := Pinned) fun r => Pinned.inTier
  have hdynamic := countP_listing hsize (p := DynamicActive) fun r => DynamicActive.inTier
  rw [countP_eq_length_filter] at hdynamic
  have hunder : (c.underTotalCap (reg.listRelays tierFilter)).length = _ :=
    length_kept _ _ _
  have htotalSpill : (c.totalSpill (reg.listRelays tierFilter)).length = _ :=
    length_cut _ _ _
  have hdynamicSpill : (c.dynamicSpill (reg.listRelays tierFilter)).length = _ :=
    length_cut _ _ _
  unfold totalExcess at hunder htotalSpill
  rw [← length_eq_zero_iff, ← length_eq_zero_iff]
  omega

theorem probationSpill_eq_nil_iff (htotal : c.totalSpill (reg.listRelays tierFilter) = [])
    (hdynamic : c.dynamicSpill (reg.listRelays tierFilter) = []) :
    c.probationSpill (reg.listRelays tierFilter) = [] ↔
      reg.rows.countP (fun r => InProbation r) ≤ c.cfg.maxProbation := by
  have hprobation := countP_listing hsize (p := InProbation) fun r => InProbation.inTier
  rw [countP_eq_length_filter] at hprobation
  have hpool : (c.probationPool (reg.listRelays tierFilter)).length =
      ((reg.listRelays tierFilter).filter fun r => InProbation r).length := by
    rw [Controller.probationPool, htotal, hdynamic, append_nil, append_nil]
  have hprobationSpill : (c.probationSpill (reg.listRelays tierFilter)).length = _ :=
    length_cut _ _ _
  rw [← length_eq_zero_iff]
  omega

theorem capped_state_eq_iff : (∀ r ∈ reg.rows,
      (c.capped (reg.listRelays tierFilter) r).admissionState = r.admissionState) ↔
    WithinCaps c.cfg reg := by
  have hcaps : WithinCaps c.cfg reg ↔
      (reg.rows.countP (fun r => DynamicActive r) ≤ c.cfg.maxDynamicActive ∧
        reg.rows.countP (fun r => Pinned r) + reg.rows.countP (fun r => DynamicActive r) ≤
          max c.cfg.maxTotalActive (reg.rows.countP fun r => Pinned r)) ∧
        reg.rows.countP (fun r => InProbation r) ≤ c.cfg.maxProbation := by
    rw [← countP_active_or_pinned]
    exact ⟨fun h => ⟨⟨h.1, h.2⟩, h.3⟩, fun h => ⟨h.1.1, h.1.2, h.2⟩⟩
  rw [capped_state_eq_iff_spills, hcaps, ← and_assoc, ← spills_eq_nil_iff hsize]
  exact and_congr_right fun h => probationSpill_eq_nil_iff hsize h.1 h.2

end NostrMash.RelayAdmission
