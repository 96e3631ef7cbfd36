import Mathlib.Data.List.Sort

/-!
# Keyset paging

A listing in descending order of key is read page by page. Each page asks for one row more than it
returns, and when that row is there it hands out the key of its last row as the cursor of the next
page.
-/

namespace NostrMash.KeysetPaging
open List Option
variable {α κ : Type*} [LinearOrder κ] (key : α → κ)

def descending (l : List α) : List α := l.insertionSort fun a b => key b ≤ key a

def page (query : Option κ → List α) (limit : ℕ) (cursor : Option κ) : List α × Option κ :=
  let fetched := (descending key (query cursor)).take (limit + 1)
  if limit < fetched.length then (fetched.take limit, (fetched.take limit).getLast?.map key)
  else (fetched, none)

def follow (query : Option κ → List α) (limit : ℕ) : ℕ → Option κ → Option (List α)
  | 0, _ => none
  | n + 1, cursor =>
    match page key query limit cursor with
    | (rows, none) => some rows
    | (rows, some next) => (follow query limit n (some next)).map (rows ++ ·)

def keysetQuery (rows : List α) (unbounded : α → Bool) : Option κ → List α
  | none => rows
  | some c => rows.filter fun a => unbounded a || decide (key a < c)

def beforeLastPage (limit : ℕ) (l : List α) : List α := l.take (limit * ((l.length - 1) / limit))

section
variable {key} {l S : List α}

theorem perm_descending (l : List α) : (descending key l).Perm l := perm_insertionSort _ l

theorem pairwise_descending (l : List α) :
    (descending key l).Pairwise fun a b => key b ≤ key a := by
  have : Std.Total fun a b : α => key b ≤ key a := ⟨fun a b => le_total (key b) (key a)⟩
  have : IsTrans α fun a b : α => key b ≤ key a := ⟨fun _ _ _ hab hbc => hbc.trans hab⟩
  exact pairwise_insertionSort _ l

theorem descending_eq (hp : l.Perm S) (hS : S.Pairwise fun a b => key b ≤ key a)
    (hnd : (S.map key).Nodup) : descending key l = S := by
  refine List.Perm.eq_of_pairwise ?_ (pairwise_descending l) hS ((perm_descending l).trans hp)
  intro a b ha hb hab hba
  have ha' : a ∈ S := hp.mem_iff.mp ((perm_descending l).mem_iff.mp ha)
  exact inj_on_of_nodup_map hnd ha' hb (le_antisymm hba hab)

end

variable {key} {rows U V : List α} {unbounded : α → Bool} {limit : ℕ} {cursor : Option κ}
  {query : Option κ → List α}

theorem page_eq (h : descending key (query cursor) = V) : page key query limit cursor =
      if limit < V.length then (V.take limit, (V.take limit).getLast?.map key) else (V, none) := by
  have hlen : limit < (V.take (limit + 1)).length ↔ limit < V.length := by
    rw [length_take]
    omega
  have htake : (V.take (limit + 1)).take limit = V.take limit := by
    rw [take_take, Nat.min_eq_left (Nat.le_succ limit)]
  simp only [page, h, hlen, htake]
  split_ifs with hmore
  · rfl
  · rw [take_of_length_le (by omega)]

/-- Below the last row of a part without unbounded rows, the query finds the rest. -/
theorem descending_keysetQuery (hS : descending key rows = U ++ V) (hnd : (rows.map key).Nodup)
    (hU : ∀ a ∈ U, unbounded a = false) :
    descending key (keysetQuery key rows unbounded (U.getLast?.map key)) = V := by
  have hperm : rows.Perm (U ++ V) := hS ▸ (perm_descending rows).symm
  have hsorted : (U ++ V).Pairwise fun a b => key b ≤ key a := hS ▸ pairwise_descending rows
  have hkeys : ((U ++ V).map key).Nodup := (hperm.map key).nodup_iff.mp hnd
  rw [map_append, nodup_append] at hkeys
  rw [pairwise_append] at hsorted
  rcases eq_nil_or_concat U with rfl | ⟨U', u, rfl⟩
  · exact hS
  · have hlast : (U' ++ [u]).getLast?.map key = some (key u) := by simp
    rw [concat_eq_append] at *
    rw [hlast]
    have hUe : (U' ++ [u]).filter (fun a => unbounded a || decide (key a < key u)) = [] := by
      rw [filter_eq_nil_iff]
      intro a ha
      have hge : key u ≤ key a := by
        rcases mem_append.mp ha with h | h
        · exact (pairwise_append.mp hsorted.1).2.2 a h u (.head _)
        · rw [mem_singleton.mp h]
      simp [hU a ha, hge]
    have hVe : V.filter (fun a => unbounded a || decide (key a < key u)) = V := by
      rw [filter_eq_self]
      intro v hv
      have hu : u ∈ U' ++ [u] := mem_append_right _ (.head _)
      have hle := hsorted.2.2 u hu v hv
      have hne := hkeys.2.2 (key u) (mem_map_of_mem hu) (key v) (mem_map_of_mem hv)
      simp [lt_of_le_of_ne hle hne.symm]
    apply descending_eq _ hsorted.2.1 hkeys.2.1
    have hfilter := hperm.filter fun a => unbounded a || decide (key a < key u)
    rwa [filter_append, hUe, hVe, nil_append] at hfilter

/-- An unbounded row on a page that is not the last comes first on the page after it. -/
theorem follow_ne_rest (hS : descending key rows = U ++ V) (hnd : (rows.map key).Nodup)
    (hlimit : 0 < limit) {d : α} (hd : d ∈ V.take limit) (hun : unbounded d = true) (c : κ)
    (n : ℕ) : follow key (keysetQuery key rows unbounded) limit n (some c) ≠
      some (V.drop limit) := by
  have hperm : rows.Perm (U ++ V) := hS ▸ (perm_descending rows).symm
  have hsorted : (U ++ V).Pairwise fun a b => key b ≤ key a := hS ▸ pairwise_descending rows
  have hkeys : ((U ++ V).map key).Nodup := (hperm.map key).nodup_iff.mp hnd
  rw [pairwise_append] at hsorted
  rw [map_append, nodup_append] at hkeys
  have hV := hsorted.2.1
  have hVk := hkeys.2.1
  rw [← take_append_drop limit V, pairwise_append] at hV
  rw [← take_append_drop limit V, map_append, nodup_append] at hVk
  have hdrows : d ∈ rows :=
    hperm.mem_iff.mpr (mem_append_right U (mem_of_mem_take hd))
  have hdq : d ∈ descending key (keysetQuery key rows unbounded (some c)) := by
    rw [(perm_descending _).mem_iff]
    exact mem_filter.mpr ⟨hdrows, by simp [hun]⟩
  obtain ⟨w, W, hW⟩ := exists_cons_of_ne_nil (ne_nil_of_mem hdq)
  have hdw : key d ≤ key w := by
    have hpw : (descending key (keysetQuery key rows unbounded (some c))).Pairwise
        fun a b => key b ≤ key a := pairwise_descending _
    rw [hW] at hpw hdq
    rcases mem_cons.mp hdq with rfl | h
    · exact le_rfl
    · exact (pairwise_cons.mp hpw).1 d h
  have hhead : ∀ X, follow key (keysetQuery key rows unbounded) limit n (some c) = some X →
      w ∈ X := by
    intro X hX
    cases n with
    | zero => cases hX
    | succ n =>
      rw [follow, page_eq hW] at hX
      split_ifs at hX with hmore
      · have hw : w ∈ (w :: W).take limit := by
          rw [take_cons hlimit]
          exact .head _
        cases hl : ((w :: W).take limit).getLast?.map key with
        | none =>
          rw [hl] at hX
          exact some.inj hX ▸ hw
        | some c' =>
          rw [hl] at hX
          obtain ⟨Y, _, rfl⟩ := map_eq_some_iff.mp hX
          exact mem_append_left Y hw
      · exact some.inj hX ▸ (.head _)
  intro hrest
  have hwdrop := hhead _ hrest
  have heq := le_antisymm hdw (hV.2.2 d hd w hwdrop)
  exact hVk.2.2 (key d) (mem_map_of_mem hd) (key w) (mem_map_of_mem hwdrop) heq

theorem forall_beforeLastPage {p : α → Prop} (hlimit : 0 < limit) (hV : limit < V.length) :
    (∀ a ∈ beforeLastPage limit V, p a) ↔
      (∀ a ∈ V.take limit, p a) ∧ ∀ a ∈ beforeLastPage limit (V.drop limit), p a := by
  have hdiv : (V.length - 1) / limit = (V.length - limit - 1) / limit + 1 := by
    have hsplit : V.length - 1 = V.length - limit - 1 + limit := by omega
    rw [hsplit, Nat.add_div_right _ hlimit]
  have htake : beforeLastPage limit V = V.take limit ++ beforeLastPage limit (V.drop limit) := by
    rw [beforeLastPage, beforeLastPage, length_drop, hdiv, Nat.mul_succ, Nat.add_comm, take_add]
  simp only [htake, mem_append, or_imp, forall_and]

theorem follow_iff_from (hnd : (rows.map key).Nodup) (hlimit : 0 < limit) (m : ℕ) :
    ∀ U V : List α, V.length ≤ m → descending key rows = U ++ V → (∀ a ∈ U, unbounded a = false) →
      ((∃ n, follow key (keysetQuery key rows unbounded) limit n (U.getLast?.map key) = some V) ↔
        ∀ a ∈ beforeLastPage limit V, unbounded a = false) := by
  induction m with
  | zero =>
    intro U V hlen hS hU
    obtain rfl := length_eq_zero_iff.mp (Nat.le_zero.mp hlen)
    refine iff_of_true ⟨1, ?_⟩ (by simp [beforeLastPage])
    rw [follow, page_eq (descending_keysetQuery hS hnd hU)]
    simp
  | succ m ih =>
    intro U V hlen hS hU
    have hpage : page key (keysetQuery key rows unbounded) limit (U.getLast?.map key) = _ :=
      page_eq (descending_keysetQuery hS hnd hU)
    by_cases hmore : limit < V.length
    · rw [if_pos hmore] at hpage
      have hne : V.take limit ≠ [] := by
        intro h0
        have hl := congrArg List.length h0
        rw [length_take, length_nil] at hl
        omega
      obtain ⟨c, hc⟩ : ∃ c, (V.take limit).getLast?.map key = some c :=
        ⟨_, by rw [List.getLast?_eq_some_getLast hne]; rfl⟩
      rw [hc] at hpage
      have hstep : (∃ n, follow key (keysetQuery key rows unbounded) limit n
            (U.getLast?.map key) = some V) ↔
          ∃ n, follow key (keysetQuery key rows unbounded) limit n (some c) =
            some (V.drop limit) := by
        constructor
        · rintro ⟨n, hn⟩
          cases n with
          | zero => cases hn
          | succ n =>
            rw [follow, hpage] at hn
            obtain ⟨Y, hY, happ⟩ := map_eq_some_iff.mp hn
            refine ⟨n, hY.trans (congrArg some ?_)⟩
            exact append_cancel_left (happ.trans (take_append_drop limit V).symm)
        · rintro ⟨n, hn⟩
          refine ⟨n + 1, ?_⟩
          rw [follow, hpage]
          simp [hn]
      rw [hstep, forall_beforeLastPage hlimit hmore]
      by_cases hclean : ∀ a ∈ V.take limit, unbounded a = false
      · have hlast : (U ++ V.take limit).getLast?.map key = some c := by
          rw [List.getLast?_append_of_ne_nil _ hne, hc]
        rw [← hlast, ih (U ++ V.take limit) (V.drop limit)]
        · exact ⟨fun h => ⟨hclean, h⟩, And.right⟩
        · rw [length_drop]
          omega
        · rw [append_assoc, take_append_drop, hS]
        · intro a ha
          rcases mem_append.mp ha with h | h
          · exact hU a h
          · exact hclean a h
      · refine iff_of_false ?_ fun h => hclean h.1
        push Not at hclean
        obtain ⟨d, hd, hun⟩ := hclean
        rintro ⟨n, hn⟩
        exact follow_ne_rest hS hnd hlimit hd (by simpa using hun) c n hn
    · rw [if_neg hmore] at hpage
      have hzero : (V.length - 1) / limit = 0 := Nat.div_eq_of_lt (by omega)
      refine iff_of_true ⟨1, ?_⟩ (by simp [beforeLastPage, hzero])
      rw [follow, hpage]

/-- The pages add up to the listing exactly when no unbounded row stands before its last page. -/
theorem follow_iff (hnd : (rows.map key).Nodup) (hlimit : 0 < limit) :
    (∃ n, follow key (keysetQuery key rows unbounded) limit n none = some (descending key rows)) ↔
      ∀ a ∈ beforeLastPage limit (descending key rows), unbounded a = false := by
  exact follow_iff_from hnd hlimit _ [] (descending key rows) le_rfl rfl (by simp)

theorem page_cursor {k : κ} (h : (page key query limit cursor).2 = some k) :
    ∃ a ∈ query cursor, key a = k := by
  simp only [page] at h
  split_ifs at h
  obtain ⟨a, ha, rfl⟩ := map_eq_some_iff.mp h
  exact ⟨a, (perm_descending _).mem_iff.mp
    (mem_of_mem_take (mem_of_mem_take (List.mem_of_getLast? ha))), rfl⟩

theorem page_subset (cursor : Option κ) :
    (page key query limit cursor).1 ⊆ query cursor := by
  have hsub : (descending key (query cursor)).take (limit + 1) ⊆ query cursor := fun a ha =>
    (perm_descending _).mem_iff.mp (mem_of_mem_take ha)
  simp only [page]
  split_ifs
  · exact fun a ha => hsub (mem_of_mem_take ha)
  · exact hsub

theorem follow_subset (hq : ∀ c, query c ⊆ rows) {n : ℕ} {X : List α}
    (h : follow key query limit n cursor = some X) : X ⊆ rows := by
  induction n generalizing cursor X with
  | zero => cases h
  | succ n ih =>
    have hpage : (page key query limit cursor).1 ⊆ rows :=
      fun a ha => hq cursor (page_subset cursor ha)
    rw [follow] at h
    cases hp : page key query limit cursor with
    | mk out next =>
      rw [hp] at h hpage
      cases next with
      | none => exact some.inj h ▸ hpage
      | some c =>
        obtain ⟨Y, hY, rfl⟩ := map_eq_some_iff.mp h
        exact append_subset.mpr ⟨hpage, ih hY⟩

theorem keysetQuery_subset (cursor : Option κ) : keysetQuery key rows unbounded cursor ⊆ rows := by
  cases cursor with
  | none => exact List.Subset.refl rows
  | some c => exact filter_subset_self _

end NostrMash.KeysetPaging
