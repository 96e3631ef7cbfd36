import NostrMash.RelayAdmission

/-!
# What the transition loop does to a row

Each listed relay gets the state that the gate lets through and its new score; the other rows are as
they were. The loop is a map over the rows.
-/

namespace NostrMash.RelayAdmission
open RelayRegistry List Registry
variable {K : Type*} [LinearOrder K] {c : Controller K} {reg : Registry K} {r r' : RelayRecord K}
  {o : TierOccupancy} {l : List (RelayRecord K)}

section
variable {cfg : Config K} {current proposed s : AdmissionState}

def Gated (current proposed : AdmissionState) : Prop :=
  (current = .probation ∧ proposed = .active) ∨
    ((current = .candidate ∨ current = .inactive) ∧ proposed = .probation)

omit [LinearOrder K] in
theorem gate_cases (cfg : Config K) (o : TierOccupancy) (current proposed : AdmissionState) :
    (gate cfg o current proposed).1 = proposed ∨
    ((gate cfg o current proposed).1 = current ∧ (gate cfg o current proposed).2 = o ∧
      Gated current proposed) := by
  unfold gate Gated
  by_cases h : proposed = current
  · rw [if_pos h]
    exact .inl rfl
  · rw [if_neg h]
    split
    · split_ifs
      · exact .inr ⟨rfl, rfl, .inl ⟨rfl, rfl⟩⟩
      · exact .inl rfl
    · split_ifs
      · exact .inr ⟨rfl, rfl, .inr ⟨.inl rfl, rfl⟩⟩
      · exact .inl rfl
    · split_ifs
      · exact .inr ⟨rfl, rfl, .inr ⟨.inr rfl, rfl⟩⟩
      · exact .inl rfl
    all_goals exact .inl rfl

omit [LinearOrder K] in
theorem gate_of_not_gated (h : ¬ Gated current proposed) :
    (gate cfg o current proposed).1 = proposed :=
  (gate_cases cfg o current proposed).resolve_right fun hr => h hr.2.2

def IsManual (s : AdmissionState) : Prop := s = .blocked ∨ s = .draining ∨ s = .pinned

theorem isManual_of_manualState {policy : ManualPolicy} (h : manualState policy = some s) :
    IsManual s := by
  cases policy <;> simp only [manualState, Option.some.injEq, reduceCtorEq] at h
  all_goals subst h; unfold IsManual; decide

theorem IsManual.not_gated (h : IsManual proposed) : ¬ Gated current proposed := by
  unfold Gated
  rcases h with rfl | rfl | rfl <;> simp

theorem Controller.proposed_of_manualState (h : manualState r.manualPolicy = some s) :
    c.proposed r = s := by
  rw [Controller.proposed, computeTransition, ScoreInputs.apply_manualPolicy, h, Option.getD_some]

end

def Controller.decisions (c : Controller K) :
    TierOccupancy → List (RelayRecord K) → List (RelayRecord K × AdmissionState)
  | _, [] => []
  | o, r :: relays =>
    (r, (gate c.cfg o r.admissionState (c.proposed r)).1) ::
      c.decisions (gate c.cfg o r.admissionState (c.proposed r)).2 relays

def Controller.settle (c : Controller K) (ds : List (RelayRecord K × AdmissionState))
    (r : RelayRecord K) : RelayRecord K :=
  match ds.find? fun d => d.1.urlKey = r.urlKey with
  | some d => { r with admissionState := d.2, score := (c.score d.1).totalScore }
  | none => r

variable {ds : List (RelayRecord K × AdmissionState)} {s : AdmissionState}

theorem Controller.map_fst_decisions (c : Controller K) (o : TierOccupancy)
    (l : List (RelayRecord K)) : (c.decisions o l).map Prod.fst = l := by
  induction l generalizing o with
  | nil => rfl
  | cons r l ih => rw [decisions, map_cons, ih]

theorem settle_nil : c.settle [] r = r := rfl

theorem settle_cons : c.settle ((r', s) :: ds) r =
    if r'.urlKey = r.urlKey then
      { r with admissionState := s, score := (c.score r').totalScore }
    else c.settle ds r := by
  unfold Controller.settle
  rw [List.find?_cons]
  split_ifs with h
  · simp [h]
  · simp [h]

@[simp]
theorem settle_urlKey : (c.settle ds r).urlKey = r.urlKey := by
  unfold Controller.settle
  split <;> rfl

@[simp]
theorem settle_manualPolicy : (c.settle ds r).manualPolicy = r.manualPolicy := by
  unfold Controller.settle
  split <;> rfl

theorem settle_of_notMem (h : r.urlKey ∉ (ds.map Prod.fst).map RelayRecord.urlKey) :
    c.settle ds r = r := by
  induction ds with
  | nil => rfl
  | cons d ds ih =>
    simp only [map_cons, mem_cons, not_or] at h
    rw [settle_cons, if_neg (Ne.symm h.1), ih h.2]

theorem settle_of_mem (hnd : ((ds.map Prod.fst).map RelayRecord.urlKey).Nodup)
    (h : (r, s) ∈ ds) :
    c.settle ds r = { r with admissionState := s, score := (c.score r).totalScore } := by
  induction ds with
  | nil => exact nomatch h
  | cons d ds ih =>
    obtain ⟨hfirst, hrest⟩ := nodup_cons.mp hnd
    rcases mem_cons.mp h with rfl | h
    · rw [settle_cons, if_pos rfl]
    · have hne : d.1.urlKey ≠ r.urlKey := fun heq =>
        hfirst (heq ▸ mem_map_of_mem (mem_map_of_mem h))
      rw [settle_cons, if_neg hne, ih hrest h]

theorem rows_turn (hr : r ∈ reg.rows) : (c.turn (reg, o) r).1.rows =
    reg.rows.map (c.settle [(r, (gate c.cfg o r.admissionState (c.proposed r)).1)]) := by
  unfold Controller.turn
  dsimp only
  split_ifs with h
  · rw [rows_setAdmissionState]
    refine map_congr_left fun r' _ => ?_
    rw [settle_cons, settle_nil]
    exact if_congr eq_comm rfl rfl
  · push Not at h
    conv_lhs => rw [← map_id reg.rows]
    refine map_congr_left fun r' hr' => ?_
    rw [settle_cons, settle_nil, id]
    split_ifs with hkey
    · rw [← eq_of_urlKey hr hr' hkey, h.1, h.2]
    · rfl

theorem snd_turn : (c.turn (reg, o) r).2 = (gate c.cfg o r.admissionState (c.proposed r)).2 := by
  unfold Controller.turn
  dsimp only
  split_ifs <;> rfl

theorem rows_foldl_turn (hnd : (l.map RelayRecord.urlKey).Nodup) (hl : ∀ r ∈ l, r ∈ reg.rows) :
    (l.foldl c.turn (reg, o)).1.rows = reg.rows.map (c.settle (c.decisions o l)) := by
  induction l generalizing reg o with
  | nil =>
    conv_lhs => rw [foldl_nil, ← map_id reg.rows]
    rfl
  | cons r l ih =>
    obtain ⟨hfirst, hrest⟩ := nodup_cons.mp hnd
    have hrows := rows_turn (c := c) (o := o) (hl r (.head _))
    -- The relays still to come have other keys, so their rows are as they were.
    have hlater : ∀ r' ∈ l, r' ∈ (c.turn (reg, o) r).1.rows := by
      intro r' hr'
      have hne : r.urlKey ≠ r'.urlKey := fun h => hfirst (h ▸ mem_map_of_mem hr')
      rw [hrows]
      refine mem_map.mpr ⟨r', hl r' (mem_cons_of_mem r hr'), ?_⟩
      rw [settle_cons, if_neg hne, settle_nil]
    have hstep : c.turn (reg, o) r =
        ((c.turn (reg, o) r).1, (gate c.cfg o r.admissionState (c.proposed r)).2) :=
      Prod.ext rfl snd_turn
    rw [foldl_cons, hstep, ih hrest hlater, hrows, map_map]
    refine map_congr_left fun r' _ => ?_
    rw [Function.comp, settle_cons, settle_nil, Controller.decisions, settle_cons]
    split_ifs with hkey
    · exact settle_of_notMem (by rw [Controller.map_fst_decisions, ← hkey]; exact hfirst)
    · rfl

def Controller.cycle (c : Controller K) (reg : Registry K) :
    List (RelayRecord K × AdmissionState) :=
  c.decisions (loadTierOccupancy reg) (reg.listRelays listingFilter)

theorem rows_transitionLoop : (c.transitionLoop reg).rows = reg.rows.map (c.settle (c.cycle reg)) :=
  rows_foldl_turn urlKey_nodup_listRelays fun _ => mem_rows_of_listed

theorem map_fst_cycle : (c.cycle reg).map Prod.fst = reg.listRelays listingFilter :=
  c.map_fst_decisions _ _

theorem settle_cycle_of_mem (h : (r, s) ∈ c.cycle reg) :
    c.settle (c.cycle reg) r =
      { r with admissionState := s, score := (c.score r).totalScore } :=
  settle_of_mem (by rw [map_fst_cycle]; exact urlKey_nodup_listRelays) h

theorem settle_cycle_of_notMem (hr : r ∈ reg.rows) (h : r ∉ reg.listRelays listingFilter) :
    c.settle (c.cycle reg) r = r := by
  refine settle_of_notMem ?_
  rw [map_fst_cycle]
  rintro hmem
  obtain ⟨r', hr', hkey⟩ := mem_map.mp hmem
  exact h (eq_of_urlKey (mem_rows_of_listed hr') hr hkey ▸ hr')

theorem exists_mem_cycle (h : r ∈ reg.listRelays listingFilter) : ∃ s, (r, s) ∈ c.cycle reg := by
  rw [← map_fst_cycle (c := c)] at h
  obtain ⟨d, hd, rfl⟩ := mem_map.mp h
  exact ⟨d.2, hd⟩

theorem exists_gate_of_mem_decisions (h : (r, s) ∈ c.decisions o l) :
    ∃ o', s = (gate c.cfg o' r.admissionState (c.proposed r)).1 := by
  induction l generalizing o with
  | nil => exact nomatch h
  | cons r' l ih =>
    rcases mem_cons.mp h with heq | h
    · obtain ⟨rfl, rfl⟩ := Prod.mk.inj heq
      exact ⟨o, rfl⟩
    · exact ih h

theorem decision_cases (h : (r, s) ∈ c.decisions o l) :
    s = c.proposed r ∨ (s = r.admissionState ∧ Gated r.admissionState (c.proposed r)) := by
  obtain ⟨o', rfl⟩ := exists_gate_of_mem_decisions h
  exact (gate_cases c.cfg o' r.admissionState (c.proposed r)).imp_right fun hr => ⟨hr.1, hr.2.2⟩

theorem settle_of_manualState (hr : r ∈ reg.rows) (h : manualState r.manualPolicy = some s)
    (h' : r.admissionState = s ∨ r ∈ reg.listRelays listingFilter) :
    (c.settle (c.cycle reg) r).admissionState = s := by
  by_cases hlisted : r ∈ reg.listRelays listingFilter
  · obtain ⟨s', hs'⟩ := exists_mem_cycle (c := c) hlisted
    rw [settle_cycle_of_mem hs']
    have hproposed := Controller.proposed_of_manualState (c := c) h
    refine (decision_cases hs').elim (fun heq => heq.trans hproposed) fun hgated => ?_
    exact absurd hgated.2 (hproposed ▸ (isManual_of_manualState h).not_gated)
  · rw [settle_cycle_of_notMem hr hlisted]
    exact h'.resolve_right hlisted

theorem settle_score : (c.settle (c.cycle reg) r).score = r.score ∨
    ∃ r' ∈ reg.rows, (c.settle (c.cycle reg) r).score = (c.score r').totalScore := by
  unfold Controller.settle
  split
  · next d hd =>
    have hmem : d.1 ∈ (c.cycle reg).map Prod.fst :=
      mem_map_of_mem (List.mem_of_find?_eq_some hd)
    rw [map_fst_cycle] at hmem
    exact .inr ⟨d.1, mem_rows_of_listed hmem, rfl⟩
  · exact .inl rfl

end NostrMash.RelayAdmission
