import NostrMash.AdmissionLoop

/-!
# What the caps do to a row

The lowest scores of the dynamic relays go to probation and the lowest scores of the probation pool
to inactive. The rows keep their place in the table, their override and their score.
-/

namespace NostrMash.RelayAdmission
open RelayRegistry CappedPool List Registry
variable {K : Type*} [LinearOrder K] {c : Controller K} {reg : Registry K} {r r' : RelayRecord K}
  {l : List (RelayRecord K)}

def ScoresOf (l : List (RelayRecord K)) (reg : Registry K) : Prop :=
  ∀ r ∈ l, ∀ r' ∈ reg.rows, r'.urlKey = r.urlKey → r'.score = r.score

def demoteRow (target : AdmissionState) (l : List (RelayRecord K)) (r : RelayRecord K) :
    RelayRecord K :=
  if r.urlKey ∈ l.map RelayRecord.urlKey then { r with admissionState := target } else r

omit [LinearOrder K] in
theorem ScoresOf.of_rows {reg' : Registry K} {target : AdmissionState} {l' : List (RelayRecord K)}
    (h : ScoresOf l reg) (hrows : reg'.rows = reg.rows.map (demoteRow target l')) :
    ScoresOf l reg' := by
  intro r hr r' hr'
  rw [hrows] at hr'
  obtain ⟨r₀, hr₀, rfl⟩ := mem_map.mp hr'
  have := h r hr r₀ hr₀
  unfold demoteRow
  split_ifs <;> exact this

omit [LinearOrder K] in
theorem rows_demoteAll (target : AdmissionState) (hl : ScoresOf l reg) :
    (demoteAll target l reg).rows = reg.rows.map (demoteRow target l) := by
  induction l generalizing reg with
  | nil =>
    conv_lhs => rw [demoteAll, foldl_nil, ← map_id reg.rows]
    exact map_congr_left fun r' _ => by simp [demoteRow]
  | cons r l ih =>
    have hrows : (reg.setAdmissionState r.urlKey target r.score).rows =
        reg.rows.map (demoteRow target [r]) := by
      rw [rows_setAdmissionState]
      refine map_congr_left fun r' hr' => ?_
      unfold demoteRow
      by_cases h : r'.urlKey = r.urlKey
      · simp [h, hl r (.head _) r' hr' h]
      · simp [h]
    have hrest : ScoresOf l reg := fun r' hr' => hl r' (mem_cons_of_mem r hr')
    change (demoteAll target l _).rows = _
    rw [ih (hrest.of_rows hrows), hrows, map_map]
    refine map_congr_left fun r' _ => ?_
    dsimp only [Function.comp, demoteRow]
    by_cases h : r'.urlKey = r.urlKey
    · simp [h]
    · simp [h]

def Controller.capped (c : Controller K) (relays : List (RelayRecord K)) (r : RelayRecord K) :
    RelayRecord K :=
  if r.urlKey ∈ (c.probationSpill relays).map RelayRecord.urlKey then
    { r with admissionState := .inactive }
  else if r.urlKey ∈ (c.totalSpill relays ++ c.dynamicSpill relays).map RelayRecord.urlKey then
    { r with admissionState := .probation }
  else r

variable {relays : List (RelayRecord K)}

theorem mem_of_mem_totalSpill (h : r ∈ c.totalSpill relays) : r ∈ relays ∧ DynamicActive r := by
  simpa using Sorter.mem_of_mem_cut h

theorem mem_of_mem_underTotalCap (h : r ∈ c.underTotalCap relays) :
    r ∈ relays ∧ DynamicActive r := by
  simpa using Sorter.mem_of_mem_kept h

theorem mem_of_mem_dynamicSpill (h : r ∈ c.dynamicSpill relays) : r ∈ relays ∧ DynamicActive r :=
  mem_of_mem_underTotalCap (Sorter.mem_of_mem_cut h)

theorem mem_of_mem_spill (h : r ∈ c.totalSpill relays ++ c.dynamicSpill relays) :
    r ∈ relays ∧ DynamicActive r :=
  (mem_append.mp h).elim mem_of_mem_totalSpill mem_of_mem_dynamicSpill

theorem mem_probationPool : r ∈ c.probationPool relays ↔
    (r ∈ relays ∧ InProbation r) ∨ r ∈ c.totalSpill relays ++ c.dynamicSpill relays := by
  rw [Controller.probationPool, append_assoc, mem_append, mem_filter, decide_eq_true_eq]

theorem mem_of_mem_probationPool (h : r ∈ c.probationPool relays) :
    r ∈ relays ∧ (DynamicActive r ∨ InProbation r) := by
  rcases mem_probationPool.mp h with h | h
  · exact ⟨h.1, .inr h.2⟩
  · exact ⟨(mem_of_mem_spill h).1, .inl (mem_of_mem_spill h).2⟩

theorem mem_of_mem_probationSpill (h : r ∈ c.probationSpill relays) :
    r ∈ relays ∧ (DynamicActive r ∨ InProbation r) :=
  mem_of_mem_probationPool (Sorter.mem_of_mem_cut h)

theorem rows_enforceCaps : (c.enforceCaps reg).rows =
    reg.rows.map (c.capped (reg.listRelays tierFilter)) := by
  have hscores : ∀ {l}, (∀ r ∈ l, r ∈ reg.listRelays tierFilter) → ScoresOf l reg :=
    fun hl r hr r' hr' h => congrArg RelayRecord.score
      (eq_of_urlKey hr' (mem_rows_of_listed (hl r hr)) h)
  have htotal := rows_demoteAll .probation
    (hscores fun r (hr : r ∈ c.totalSpill _) => (mem_of_mem_totalSpill hr).1)
  have hdynamic := rows_demoteAll .probation
    ((hscores fun r (hr : r ∈ c.dynamicSpill _) => (mem_of_mem_dynamicSpill hr).1).of_rows htotal)
  have hprobation := rows_demoteAll .inactive
    (((hscores fun r (hr : r ∈ c.probationSpill _) =>
      (mem_of_mem_probationSpill hr).1).of_rows htotal).of_rows hdynamic)
  rw [Controller.enforceCaps, hprobation, hdynamic, htotal, map_map, map_map]
  refine map_congr_left fun r _ => ?_
  dsimp only [Function.comp, demoteRow, Controller.capped]
  rw [map_append]
  simp only [mem_append]
  by_cases h₁ : r.urlKey ∈ (c.totalSpill (reg.listRelays tierFilter)).map RelayRecord.urlKey
  · simp [h₁]
  · by_cases h₂ : r.urlKey ∈ (c.dynamicSpill (reg.listRelays tierFilter)).map RelayRecord.urlKey
    · simp [h₁, h₂]
    · simp [h₁, h₂]

@[simp]
theorem capped_urlKey : (c.capped relays r).urlKey = r.urlKey := by
  unfold Controller.capped
  split_ifs <;> rfl

@[simp]
theorem capped_manualPolicy : (c.capped relays r).manualPolicy = r.manualPolicy := by
  unfold Controller.capped
  split_ifs <;> rfl

section
variable (hr : r ∈ reg.rows)
include hr

theorem mem_of_urlKey_mem {filter : ListFilter}
    (hl : ∀ r ∈ l, r ∈ reg.listRelays filter) (h : r.urlKey ∈ l.map RelayRecord.urlKey) :
    r ∈ l := by
  obtain ⟨r', hr', hkey⟩ := mem_map.mp h
  exact eq_of_urlKey (mem_rows_of_listed (hl r' hr')) hr hkey ▸ hr'

theorem capped_cases (relays : List (RelayRecord K))
    (hrelays : relays = reg.listRelays tierFilter) :
    (r ∈ c.probationSpill relays ∧ (c.capped relays r).admissionState = .inactive) ∨
    (r ∉ c.probationSpill relays ∧ r ∈ c.totalSpill relays ++ c.dynamicSpill relays ∧
      (c.capped relays r).admissionState = .probation) ∨
    (r ∉ c.probationSpill relays ∧ r ∉ c.totalSpill relays ++ c.dynamicSpill relays ∧
      c.capped relays r = r) := by
  subst hrelays
  unfold Controller.capped
  split_ifs with h₁ h₂
  · exact .inl ⟨mem_of_urlKey_mem hr (fun r hr => (mem_of_mem_probationSpill hr).1) h₁, rfl⟩
  · exact .inr (.inl ⟨fun h => h₁ (mem_map_of_mem h),
      mem_of_urlKey_mem hr (fun r hr => (mem_of_mem_spill hr).1) h₂, rfl⟩)
  · exact .inr (.inr ⟨fun h => h₁ (mem_map_of_mem h), fun h => h₂ (mem_map_of_mem h), rfl⟩)

theorem capped_of_notMem (h : r ∉ reg.listRelays tierFilter) :
    c.capped (reg.listRelays tierFilter) r = r := by
  rcases capped_cases (c := c) hr _ rfl with ⟨hmem, -⟩ | ⟨-, hmem, -⟩ | ⟨-, -, heq⟩
  · exact absurd (mem_of_mem_probationSpill hmem).1 h
  · exact absurd (mem_of_mem_spill hmem).1 h
  · exact heq

theorem capped_of_not_tier (h : ¬ DynamicActive r) (h' : ¬ InProbation r) :
    c.capped (reg.listRelays tierFilter) r = r := by
  rcases capped_cases (c := c) hr _ rfl with ⟨hmem, -⟩ | ⟨-, hmem, -⟩ | ⟨-, -, heq⟩
  · exact absurd (mem_of_mem_probationSpill hmem).2 (not_or_intro h h')
  · exact absurd (mem_of_mem_spill hmem).2 h
  · exact heq

theorem capped_eq_manual_iff {s : AdmissionState} (hs : IsManual s) :
    (c.capped (reg.listRelays tierFilter) r).admissionState = s ↔ r.admissionState = s := by
  constructor
  · rintro rfl
    rcases capped_cases (c := c) hr _ rfl with ⟨-, hstate⟩ | ⟨-, -, hstate⟩ | ⟨-, -, heq⟩
    · rw [hstate] at hs
      exact absurd hs (by simp [IsManual])
    · rw [hstate] at hs
      exact absurd hs (by simp [IsManual])
    · rw [heq]
  · rintro rfl
    rw [capped_of_not_tier hr]
    · intro h
      rw [h.1] at hs
      exact absurd hs (by simp [IsManual])
    · intro h
      unfold InProbation at h
      rw [h] at hs
      exact absurd hs (by simp [IsManual])

end
end NostrMash.RelayAdmission
