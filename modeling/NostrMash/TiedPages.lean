import Mathlib

/-!
# Pages behind a cursor that many rows share

A listing in descending order of rank is read page by page. The first page is its beginning. Every
further page is asked for with the rank of the last row seen, and returns the rows of at most this
rank except for the first of them.
-/

namespace NostrMash.TiedPages
open List
variable {α κ : Type*} [LinearOrder κ] (rank : α → κ) (limit : ℕ) (L : List α)

def pageFrom : Option κ → List α
  | none => L.take limit
  | some r => ((L.filter fun a => rank a ≤ r).drop 1).take limit

def pageAt : ℕ → List α
  | 0 => pageFrom rank limit L none
  | n + 1 =>
    match (pageAt n).getLast? with
    | none => []
    | some a => pageFrom rank limit L (some (rank a))

def Complete : Prop := ∃ n, ∀ a ∈ L, ∃ m ≤ n, a ∈ pageAt rank limit L m

def above (r : κ) : ℕ := L.countP fun a => r < rank a

def tied (r : κ) : ℕ := L.countP fun a => rank a = r

/-- A rank shared by more rows than a page has is the last one, and by one row more at most. -/
def FewTies : Prop :=
  ∀ a ∈ L, tied rank L (rank a) ≤ limit ∨ L.length ≤ above rank L (rank a) + limit + 1

variable {rank limit L} {P : α → Bool} {i n : ℕ}

theorem pageAt_subset (n : ℕ) : pageAt rank limit L n ⊆ L := by
  cases n with
  | zero => exact take_subset _ _
  | succ n =>
    rw [pageAt]
    cases (pageAt rank limit L n).getLast? with
    | none => exact nil_subset _
    | some a =>
      exact List.Subset.trans (take_subset _ _)
        (List.Subset.trans (drop_subset _ _) (filter_subset_self _))

section
variable (hP : L.Pairwise fun a b => P b = true → P a = true)
include hP

theorem getElem_iff_lt_countP (hi : i < L.length) : P L[i] = true ↔ i < L.countP P := by
  induction L generalizing i with
  | nil => simp at hi
  | cons a L ih =>
    obtain ⟨ha, hL⟩ := pairwise_cons.mp hP
    by_cases hpa : P a = true
    · cases i with
      | zero => simp [hpa]
      | succ i => simpa [hpa] using ih hL (by simpa using hi)
    · have hnone : ∀ b ∈ a :: L, ¬ P b = true := by
        intro b hb
        rcases mem_cons.mp hb with rfl | hb
        · exact hpa
        · exact fun hpb => hpa (ha b hb hpb)
      rw [countP_eq_zero.mpr hnone]
      simpa using hnone _ (getElem_mem hi)

theorem filter_not_eq_drop : (L.filter fun a => !P a) = L.drop (L.countP P) := by
  conv_lhs => rw [← take_append_drop (L.countP P) L]
  rw [filter_append, filter_eq_nil_iff.mpr, filter_eq_self.mpr, nil_append]
  · intro a ha
    obtain ⟨i, hi, rfl⟩ := getElem_of_mem ha
    rw [length_drop] at hi
    rw [getElem_drop, Bool.not_eq_true', ← Bool.not_eq_true, getElem_iff_lt_countP hP (by omega)]
    omega
  · intro a ha
    obtain ⟨i, hi, rfl⟩ := getElem_of_mem ha
    rw [length_take] at hi
    simpa using (getElem_iff_lt_countP hP (i := i) (by omega)).mpr (by omega)

end

theorem above_add_tied (r : κ) : above rank L r + tied rank L r = L.countP fun a => r ≤ rank a := by
  induction L with
  | nil => rfl
  | cons a L ih =>
    simp only [above, tied, countP_cons] at ih ⊢
    rw [← ih]
    rcases lt_trichotomy r (rank a) with h | h | h
    · simp [h, h.le, h.ne']
      omega
    · simp [h]
      omega
    · simp [h.not_gt, h.not_ge, h.ne]

section
variable (hL : L.Pairwise fun a b => rank b ≤ rank a)
include hL

theorem filter_le_eq_drop (r : κ) : (L.filter fun a => rank a ≤ r) = L.drop (above rank L r) := by
  have hP : L.Pairwise fun a b => decide (r < rank b) = true → decide (r < rank a) = true :=
    hL.imp fun hab hb => by simpa using (of_decide_eq_true hb).trans_le hab
  rw [above, ← filter_not_eq_drop hP]
  exact filter_congr fun a _ => by simp [← not_lt]

theorem lt_rank_iff (hi : i < L.length) (r : κ) : r < rank L[i] ↔ i < above rank L r := by
  have hP : L.Pairwise fun a b => decide (r < rank b) = true → decide (r < rank a) = true :=
    hL.imp fun hab hb => by simpa using (of_decide_eq_true hb).trans_le hab
  rw [above, ← getElem_iff_lt_countP hP hi, decide_eq_true_iff]

theorem le_rank_iff (hi : i < L.length) (r : κ) :
    r ≤ rank L[i] ↔ i < above rank L r + tied rank L r := by
  have hP : L.Pairwise fun a b => decide (r ≤ rank b) = true → decide (r ≤ rank a) = true :=
    hL.imp fun hab hb => by simpa using (of_decide_eq_true hb).trans hab
  rw [above_add_tied, ← getElem_iff_lt_countP hP hi, decide_eq_true_iff]

theorem pageAt_succ (hi : i < L.length) (h : (pageAt rank limit L n).getLast? = some L[i]) :
    pageAt rank limit L (n + 1) = (L.drop (above rank L (rank L[i]) + 1)).take limit := by
  rw [pageAt, h]
  dsimp only
  rw [pageFrom, filter_le_eq_drop hL, drop_drop]

end

structure Reached (rank : α → κ) (limit : ℕ) (L : List α) (n p : ℕ) : Prop where
  pos : 0 < p
  le : p ≤ L.length
  last : (pageAt rank limit L n).getLast? = L[p - 1]?
  shown : ∀ a ∈ L.take p, ∃ m ≤ n, a ∈ pageAt rank limit L m

section
variable (hlimit : 0 < limit)
include hlimit

theorem reached_zero (hne : L ≠ []) : Reached rank limit L 0 (min limit L.length) where
  pos := lt_min hlimit (length_pos_iff.mpr hne)
  le := min_le_right _ _
  last := by
    rw [pageAt, pageFrom, List.getLast?_eq_getElem?, length_take, List.getElem?_take,
      if_pos (by have := length_pos_iff.mpr hne; omega)]
  shown := fun a ha => ⟨0, le_rfl, take_subset_take_left _ (min_le_left _ _) ha⟩

section
variable (hL : L.Pairwise fun a b => rank b ≤ rank a)
include hL

section
variable (hfew : FewTies rank limit L)
include hfew

theorem reached_succ {p : ℕ} (h : Reached rank limit L n p) (hp : p < L.length) :
    ∃ p', p < p' ∧ Reached rank limit L (n + 1) p' := by
  have hpos := h.pos
  have hi : p - 1 < L.length := by omega
  have hlast := h.last
  rw [List.getElem?_eq_getElem hi] at hlast
  have hpage := pageAt_succ hL hi hlast
  set r := rank L[p - 1] with hr
  have habove : above rank L r ≤ p - 1 :=
    not_lt.mp fun hlt => absurd ((lt_rank_iff hL hi r).mpr hlt) (lt_irrefl _)
  have htied : p - 1 < above rank L r + tied rank L r := (le_rank_iff hL hi r).mp le_rfl
  have hfew := hfew L[p - 1] (getElem_mem hi)
  rw [← hr] at hfew
  set q := min (above rank L r + 1 + limit) L.length with hq
  have hpq : p < q := by omega
  refine ⟨q, hpq, by omega, by omega, ?_, ?_⟩
  · rw [hpage, List.getLast?_eq_getElem?, length_take, length_drop, List.getElem?_take,
      if_pos (by omega), List.getElem?_drop]
    congr 1
    omega
  · intro a ha
    by_cases hold : a ∈ L.take p
    · obtain ⟨m, hm, ha⟩ := h.shown a hold
      exact ⟨m, by omega, ha⟩
    · refine ⟨n + 1, le_rfl, ?_⟩
      obtain ⟨j, hj, rfl⟩ := getElem_of_mem ha
      rw [length_take] at hj
      have hpj : p ≤ j := by
        by_contra hlt
        refine hold ?_
        rw [getElem_take]
        exact mem_take_iff_getElem.mpr ⟨j, by omega, rfl⟩
      rw [hpage, getElem_take, mem_take_iff_getElem]
      refine ⟨j - (above rank L r + 1), by rw [length_drop]; omega, ?_⟩
      rw [getElem_drop]
      congr 1
      omega

theorem exists_reached
    (hne : L ≠ []) (n : ℕ) : ∃ m p, Reached rank limit L m p ∧ (p = L.length ∨ n < p) := by
  induction n with
  | zero =>
    have hzero : Reached rank limit L 0 (min limit L.length) := reached_zero hlimit hne
    exact ⟨0, _, hzero, .inr hzero.pos⟩
  | succ n ih =>
    obtain ⟨m, p, h, hp⟩ := ih
    rcases h.le.eq_or_lt with heq | hlt
    · exact ⟨m, p, h, .inl heq⟩
    · obtain ⟨q, hpq, hq⟩ := reached_succ hlimit hL hfew h hlt
      exact ⟨m + 1, q, hq, .inr (by omega)⟩

theorem complete_of_fewTies
 : Complete rank limit L := by
  by_cases hne : L = []
  · exact ⟨0, fun a ha => by simp [hne] at ha⟩
  · obtain ⟨m, p, h, hp⟩ := exists_reached hlimit hL hfew hne L.length
    have hfull : L.take p = L := take_of_length_le (by have := h.le; omega)
    exact ⟨m, fun a ha => h.shown a (hfull.symm ▸ ha)⟩

end
end
end

theorem pageAt_subset_of_ties (hL : L.Pairwise fun a b => rank b ≤ rank a) {r : κ}
    (hmany : limit < tied rank L r) (n : ℕ) :
    pageAt rank limit L n ⊆ L.take (above rank L r + limit + 1) := by
  induction n with
  | zero =>
    rw [pageAt, pageFrom]
    exact take_subset_take_left _ (by omega)
  | succ n ih =>
    rcases hlast : (pageAt rank limit L n).getLast? with _ | a
    · rw [pageAt, hlast]
      exact nil_subset _
    · have ha := ih (List.mem_of_getLast? hlast)
      obtain ⟨i, hi, rfl⟩ := mem_take_iff_getElem.mp ha
      rw [pageAt_succ hL (by omega) hlast]
      -- The page starts no later than the rows of rank `r` do.
      have hle : r ≤ rank L[i] := (le_rank_iff hL (by omega) r).mpr (by omega)
      have habove : above rank L (rank L[i]) ≤ above rank L r :=
        countP_mono_left fun b _ hb => by simpa using hle.trans_lt (of_decide_eq_true hb)
      intro b hb
      obtain ⟨j, hj, rfl⟩ := mem_take_iff_getElem.mp hb
      rw [length_drop] at hj
      rw [getElem_drop]
      exact mem_take_iff_getElem.mpr ⟨_, by omega, rfl⟩

theorem complete_iff (hlimit : 0 < limit) (hL : L.Pairwise fun a b => rank b ≤ rank a)
    (hnd : L.Nodup) : Complete rank limit L ↔ FewTies rank limit L := by
  refine ⟨fun ⟨n, hn⟩ a ha => ?_, complete_of_fewTies hlimit hL⟩
  by_contra hmany
  obtain ⟨hmany, hmore⟩ := not_or.mp hmany
  rw [not_le] at hmany hmore
  obtain ⟨m, -, hm⟩ := hn L[above rank L (rank a) + limit + 1] (getElem_mem hmore)
  have hin := pageAt_subset_of_ties hL hmany m hm
  obtain ⟨j, hj, heq⟩ := mem_take_iff_getElem.mp hin
  have := (hnd.getElem_inj_iff).mp heq
  omega

theorem pageAt_eq_of_repeated (h : pageAt rank limit L (n + 1) = pageAt rank limit L n) (k : ℕ) :
    pageAt rank limit L (n + k) = pageAt rank limit L n := by
  induction k with
  | zero => rfl
  | succ k ih =>
    rw [← add_assoc, pageAt, ih, ← pageAt]
    exact h

theorem shown_of_repeated (hc : Complete rank limit L)
    (h : pageAt rank limit L (n + 1) = pageAt rank limit L n) :
    ∀ a ∈ L, ∃ m ≤ n, a ∈ pageAt rank limit L m := by
  intro a ha
  obtain ⟨N, hN⟩ := hc
  obtain ⟨m, -, hm⟩ := hN a ha
  rcases Nat.le_total m n with hmn | hnm
  · exact ⟨m, hmn, hm⟩
  · obtain ⟨k, rfl⟩ := Nat.exists_eq_add_of_le hnm
    exact ⟨n, le_rfl, pageAt_eq_of_repeated h k ▸ hm⟩

end NostrMash.TiedPages
