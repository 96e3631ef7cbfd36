import NostrMash.TrustFrontier

/-!
# What a refresh does to a row

A refresh keeps a row or moves it towards `active`. It never moves a row out of cooldown. If it
leaves out a stable candidate that it has seen, it promotes other rows in its place.
-/

namespace NostrMash.Frontier
open KeyedTable Option

def FrontierRow.Same (r r' : FrontierRow) : Prop :=
  r'.state = r.state ∧ r'.firstSeenAt = r.firstSeenAt ∧ r'.nextEligibleAt = r.nextEligibleAt

theorem FrontierRow.Same.refl (r : FrontierRow) : r.Same r := ⟨rfl, rfl, rfl⟩

theorem FrontierRow.Same.trans {r r' r'' : FrontierRow} (h : r.Same r') (h' : r'.Same r'') :
    r.Same r'' :=
  ⟨h'.1.trans h.1, h'.2.1.trans h.2.1, h'.2.2.trans h.2.2⟩

section
variable {window now : ℤ} {T : FrontierTable} {pubkey : String} {r : FrontierRow}

theorem get_upsertCandidate (window now : ℤ) (candidate : Candidate) (h : T.get pubkey = some r) :
    ∃ r', (upsertCandidate window now T candidate).get pubkey = some r' ∧ r.Same r' := by
  unfold upsertCandidate
  split_ifs
  · exact ⟨r, h, .refl r⟩
  · by_cases hkey : pubkey = trimSpace candidate.pubkey
    · subst hkey
      rw [get_upsert_self, h]
      exact ⟨_, rfl, rfl, rfl, rfl⟩
    · rw [get_upsert_ne hkey]
      exact ⟨r, h, .refl r⟩

theorem get_upsertCandidate_new (candidate : Candidate)
    (h : (upsertCandidate window now T candidate).get pubkey = some r) :
    r.firstSeenAt = now ∨ ∃ r₀, T.get pubkey = some r₀ ∧ r₀.Same r := by
  cases hold : T.get pubkey with
  | some r₀ =>
    obtain ⟨r', hr', hsame⟩ := get_upsertCandidate window now candidate hold
    obtain rfl : r' = r := some.inj (hr'.symm.trans h)
    exact .inr ⟨r₀, rfl, hsame⟩
  | none =>
    unfold upsertCandidate at h
    split_ifs at h
    · cases hold.symm.trans h
    · by_cases hkey : pubkey = trimSpace candidate.pubkey
      · subst hkey
        rw [get_upsert_self, hold] at h
        exact .inl (some.inj h ▸ rfl)
      · rw [get_upsert_ne hkey] at h
        cases hold.symm.trans h

theorem get_foldl_upsert (window now : ℤ) (candidates : List Candidate)
    (h : T.get pubkey = some r) :
    ∃ r', (candidates.foldl (upsertCandidate window now) T).get pubkey = some r' ∧ r.Same r' := by
  induction candidates generalizing T r with
  | nil => exact ⟨r, h, .refl r⟩
  | cons candidate candidates ih =>
    obtain ⟨r₁, h₁, hsame₁⟩ := get_upsertCandidate window now candidate h
    obtain ⟨r', h', hsame'⟩ := ih h₁
    exact ⟨r', h', hsame₁.trans hsame'⟩

theorem get_foldl_upsert_new (candidates : List Candidate)
    (h : (candidates.foldl (upsertCandidate window now) T).get pubkey = some r) :
    r.firstSeenAt = now ∨ ∃ r₀, T.get pubkey = some r₀ ∧ r₀.Same r := by
  induction candidates generalizing T with
  | nil => exact .inr ⟨r, h, .refl r⟩
  | cons candidate candidates ih =>
    rcases ih h with hnew | ⟨r₁, h₁, hsame⟩
    · exact .inl hnew
    · rcases get_upsertCandidate_new candidate h₁ with hnew | ⟨r₀, h₀, hsame₀⟩
      · exact .inl (hsame.2.1.trans hnew)
      · exact .inr ⟨r₀, h₀, hsame₀.trans hsame⟩

theorem get_demote (popular : List String) (h : T.get pubkey = some r) :
    ∃ r', (demote popular T).get pubkey = some r' ∧ r.Same r' := by
  rw [demote, get_update, h, map_some]
  refine ⟨_, rfl, ?_⟩
  split_ifs
  · exact ⟨rfl, rfl, rfl⟩
  · exact .refl r

theorem get_upsertCandidates (window now : ℤ) (candidates : List Candidate)
    (h : T.get pubkey = some r) :
    ∃ r', (upsertCandidates window now candidates T).get pubkey = some r' ∧ r.Same r' := by
  obtain ⟨r₁, h₁, hsame₁⟩ := get_foldl_upsert window now candidates h
  obtain ⟨r', h', hsame'⟩ := get_demote (popularPubkeys candidates) h₁
  exact ⟨r', h', hsame₁.trans hsame'⟩

theorem get_upsertCandidates_new (candidates : List Candidate)
    (h : (upsertCandidates window now candidates T).get pubkey = some r) :
    r.firstSeenAt = now ∨ ∃ r₀, T.get pubkey = some r₀ ∧ r₀.Same r := by
  cases hold : (candidates.foldl (upsertCandidate window now) T).get pubkey with
  | none =>
    rw [upsertCandidates, demote, get_update, hold] at h
    exact nomatch h
  | some r₁ =>
    obtain ⟨r', h', hsame⟩ := get_demote (popularPubkeys candidates) hold
    obtain rfl : r' = r := some.inj (h'.symm.trans h)
    rcases get_foldl_upsert_new candidates hold with hnew | ⟨r₀, h₀, hsame₀⟩
    · exact .inl (hsame.2.1.trans hnew)
    · exact .inr ⟨r₀, h₀, hsame₀.trans hsame⟩

end

variable {params : RefreshParams} {sources : Sources} {now : ℤ} {T : FrontierTable}
  {pubkey : String} {r r' : FrontierRow}

def FrontierRow.Refreshes (now : ℤ) (r r' : FrontierRow) : Prop :=
  r'.firstSeenAt = r.firstSeenAt ∧
    ((r'.state = r.state ∧ r'.nextEligibleAt = r.nextEligibleAt) ∨
      (r.state = .failed ∧ r'.state = .candidate) ∨
      ((r.state = .candidate ∨ r.state = .failed) ∧ r'.state = .active ∧ r'.nextEligibleAt ≤ now))

theorem mem_promotable {seen : List String} {stable : ℤ} {limit : ℕ}
    (h : pubkey ∈ promotable seen stable limit now T) : pubkey ∈ seen ∧
      ∃ r, T.get pubkey = some r ∧ r.state = .candidate ∧ r.firstSeenAt ≤ now - stable := by
  obtain ⟨⟨key, r⟩, hmem, rfl⟩ := List.mem_map.mp h
  obtain ⟨hrow, hcond⟩ := List.mem_filter.mp (mem_of_mem_oldest hmem)
  obtain ⟨hseen, hstate, hstable⟩ := of_decide_eq_true hcond
  exact ⟨hseen, r, mem_rows.mp hrow, hstate, hstable⟩

theorem get_considered (params : RefreshParams) (sources : Sources) (now : ℤ)
    (h : T.get pubkey = some r) : ∃ r', (params.considered sources now T).get pubkey = some r' ∧
      r'.firstSeenAt = r.firstSeenAt ∧ r'.nextEligibleAt = r.nextEligibleAt ∧
      (r'.state = r.state ∨ (r.state = .failed ∧ r'.state = .candidate)) := by
  obtain ⟨r₁, h₁, hstate, hseen, hnext⟩ := get_upsertCandidates
    params.minStableWindow now (params.candidates sources) h
  rw [RefreshParams.considered, reactivate, get_update, h₁, map_some]
  refine ⟨_, rfl, ?_⟩
  split_ifs with hdue
  · exact ⟨hseen, hnext, .inr ⟨hstate ▸ (of_decide_eq_true hdue).1, rfl⟩⟩
  · exact ⟨hseen, hnext, .inl hstate⟩

theorem get_promote {pubkeys : List String} :
    (promote pubkeys now T).get pubkey = (T.get pubkey).map fun r =>
      if pubkey ∈ pubkeys then
        { r with state := .active, nextEligibleAt := min r.nextEligibleAt now }
      else r := by
  rw [promote, get_update]
  simp only [decide_eq_true_eq]

theorem get_refreshed (params : RefreshParams) (sources : Sources) (now : ℤ)
    (h : T.get pubkey = some r) :
    ∃ r', (params.refreshed sources now T).get pubkey = some r' ∧ r.Refreshes now r' := by
  unfold RefreshParams.refreshed
  split_ifs
  · exact ⟨r, h, rfl, .inl ⟨rfl, rfl⟩⟩
  · obtain ⟨r₁, h₁, hseen, hnext, hstate⟩ :=
      get_considered params sources now h
    rw [get_promote, h₁, map_some]
    refine ⟨_, rfl, ?_⟩
    split_ifs with hmem
    · obtain ⟨-, r₂, h₂, hcandidate, -⟩ := mem_promotable hmem
      obtain rfl : r₁ = r₂ := some.inj (h₁.symm.trans h₂)
      refine ⟨hseen, .inr (.inr ⟨?_, rfl, min_le_right _ _⟩)⟩
      rcases hstate with hstate | ⟨hfailed, -⟩
      · exact .inl (hstate ▸ hcandidate)
      · exact .inr hfailed
    · rcases hstate with hstate | hfailed
      · exact ⟨hseen, .inl ⟨hstate, hnext⟩⟩
      · exact ⟨hseen, .inr (.inl hfailed)⟩

theorem get_refreshed_new (h : (params.refreshed sources now T).get pubkey = some r) :
    r.firstSeenAt = now ∨ ∃ r₀, T.get pubkey = some r₀ := by
  unfold RefreshParams.refreshed at h
  split_ifs at h
  · exact .inr ⟨r, h⟩
  · rw [get_promote] at h
    obtain ⟨r₁, h₁, rfl⟩ := map_eq_some_iff.mp h
    rw [RefreshParams.considered, reactivate, get_update] at h₁
    obtain ⟨r₂, h₂, rfl⟩ := map_eq_some_iff.mp h₁
    rcases get_upsertCandidates_new _ h₂ with hnew | ⟨r₀, h₀, -⟩
    · left
      split_ifs <;> exact hnew
    · exact .inr ⟨r₀, h₀⟩

def Active (T : FrontierTable) (pubkey : String) : Prop :=
  ∃ r, T.get pubkey = some r ∧ r.state = .active

theorem active_refreshed (h : Active T pubkey) :
    Active (params.refreshed sources now T) pubkey := by
  obtain ⟨r, hr, hactive⟩ := h
  obtain ⟨r', hr', -, hstate⟩ :=
    get_refreshed params sources now hr
  refine ⟨r', hr', ?_⟩
  rcases hstate with ⟨hsame, -⟩ | ⟨hfailed, -⟩ | ⟨-, hstate, -⟩
  · exact hsame.trans hactive
  · exact nomatch hactive.symm.trans hfailed
  · exact hstate

def FrontierRow.Waits (stable now : ℤ) (r : FrontierRow) : Prop :=
  r.firstSeenAt ≤ now - stable ∧
    (r.state = .candidate ∨ (r.state = .failed ∧ r.nextEligibleAt ≤ now))

theorem get_considered_of_waits (hr : T.get pubkey = some r) (hwaits : r.Waits params.stable now)
    (hseen : pubkey ∈ seenPubkeys (params.candidates sources)) :
    ∃ r', (params.considered sources now T).get pubkey = some r' ∧ r'.state = .candidate ∧
      r'.firstSeenAt ≤ now - params.stable := by
  obtain ⟨r₁, h₁, hstate, hfirst, hnext⟩ := get_upsertCandidates
    params.minStableWindow now (params.candidates sources) hr
  obtain ⟨hstable, hcandidate | ⟨hfailed, hdue⟩⟩ := hwaits
  · obtain ⟨r', h', hfirst', -, hstate'⟩ :=
      get_considered params sources now hr
    refine ⟨r', h', ?_, hfirst' ▸ hstable⟩
    rcases hstate' with hsame | ⟨-, hnow⟩
    · exact hsame.trans hcandidate
    · exact hnow
  · rw [RefreshParams.considered, reactivate, get_update, h₁, map_some, if_pos]
    · exact ⟨_, rfl, rfl, hfirst ▸ hstable⟩
    · exact decide_eq_true ⟨hstate.trans hfailed, hnext ▸ hdue, hseen⟩

theorem promotions_pos (params : RefreshParams) : 0 < params.promotions := by
  unfold RefreshParams.promotions
  split_ifs with h
  · exact Nat.zero_lt_succ _
  · omega

theorem exists_promoted (h : (params.considered sources now T).get pubkey = some r)
    (hcandidate : r.state = .candidate) (hstable : r.firstSeenAt ≤ now - params.stable)
    (hseen : pubkey ∈ seenPubkeys (params.candidates sources))
    (hnot : pubkey ∉ params.promoted sources now T) :
    ∃ other, other ∈ params.promoted sources now T := by
  have hx : (pubkey, r) ∈ (params.considered sources now T).rows.filter fun row =>
      row.1 ∈ seenPubkeys (params.candidates sources) ∧ row.2.state = .candidate ∧
        row.2.firstSeenAt ≤ now - params.stable :=
    List.mem_filter.mpr ⟨mem_rows.mpr h, decide_eq_true ⟨hseen, hcandidate, hstable⟩⟩
  have hout : (pubkey, r) ∉ oldest (fun row : String × FrontierRow => row.2.trustRank)
      params.promotions ((params.considered sources now T).rows.filter fun row =>
        row.1 ∈ seenPubkeys (params.candidates sources) ∧ row.2.state = .candidate ∧
          row.2.firstSeenAt ≤ now - params.stable) :=
    fun hmem => hnot (List.mem_map.mpr ⟨_, hmem, rfl⟩)
  have hlength := (oldest_full hx hout).1
  obtain ⟨row, hrow⟩ := List.exists_mem_of_length_pos (hlength ▸ promotions_pos params)
  exact ⟨row.1, List.mem_map.mpr ⟨row, hrow, rfl⟩⟩

theorem refreshed_of_waits (hr : T.get pubkey = some r) (hwaits : r.Waits params.stable now)
    (hseen : pubkey ∈ seenPubkeys (params.candidates sources)) :
    ∃ r', (params.refreshed sources now T).get pubkey = some r' ∧
      ((r'.state = .active ∧ r'.nextEligibleAt ≤ now) ∨
        (r'.Waits params.stable now ∧ ∃ other, ¬ Active T other ∧
          other ∈ seenPubkeys (params.candidates sources) ∧
          ∃ r₀, (params.refreshed sources now T).get other = some r₀ ∧ r₀.state = .active ∧
            r₀.firstSeenAt ≤ now - params.stable)) := by
  have hne : (params.candidates sources).isEmpty = false := by
    cases hc : params.candidates sources with
    | nil => simp [hc, seenPubkeys] at hseen
    | cons => rfl
  have hrefreshed : params.refreshed sources now T =
      promote (params.promoted sources now T) now (params.considered sources now T) := by
    rw [RefreshParams.refreshed, hne]
    rfl
  obtain ⟨r₁, h₁, hcandidate, hstable⟩ := get_considered_of_waits hr hwaits hseen
  rw [hrefreshed, get_promote, h₁, map_some]
  refine ⟨_, rfl, ?_⟩
  split_ifs with hmem
  · exact .inl ⟨rfl, min_le_right _ _⟩
  · obtain ⟨other, hother⟩ := exists_promoted h₁ hcandidate hstable hseen hmem
    obtain ⟨hotherSeen, r₂, h₂, hcandidate₂, hstable₂⟩ := mem_promotable hother
    refine .inr ⟨⟨hstable, .inl hcandidate⟩, other, ?_, hotherSeen, ?_⟩
    · rintro ⟨r₀, h₀, hactive⟩
      obtain ⟨r₃, h₃, -, -, hstate⟩ :=
        get_considered params sources now h₀
      obtain rfl : r₂ = r₃ := some.inj (h₂.symm.trans h₃)
      rcases hstate with hsame | ⟨hfailed, -⟩
      · cases hcandidate₂.symm.trans (hsame.trans hactive)
      · cases hactive.symm.trans hfailed
    · rw [get_promote, h₂, map_some, if_pos hother]
      exact ⟨_, rfl, rfl, hstable₂⟩

end NostrMash.Frontier
