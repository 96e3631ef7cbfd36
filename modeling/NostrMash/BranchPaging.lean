import NostrMash.TopRows
import Mathlib.Data.List.Dedup

/-!
# Keyset paging over branches

The rows of a listing come from several branches. Each branch is cut to one row more than a page
before repeated rows are removed.
-/

namespace NostrMash.KeysetPaging
open List Nat

section
variable {α κ : Type*} [LinearOrder κ] (key : α → κ) (branches : List (List α)) (limit : ℕ)

def below (cursor : Option κ) (a : α) : Bool := cursor.all fun c => key a < c

/-- A branch has the row and at most `limit` rows between the cursor and it. -/
def Reached (cursor : Option κ) (a : α) : Prop :=
  ∃ rows ∈ branches, a ∈ rows ∧ (above key (rows.filter (below key cursor)) a).length ≤ limit

instance [DecidableEq α] (cursor : Option κ) (a : α) :
    Decidable (Reached key branches limit cursor a) :=
  inferInstanceAs (Decidable (∃ rows ∈ branches, _))

/-- Every row of the page is reached from its start, and so is some row after the page. -/
def PageReached (listing : List α) (number : ℕ) : Prop :=
  let cursor := (listing.take (number * limit)).getLast?.map key
  let rest := listing.drop (number * limit)
  (∀ a ∈ rest.take limit, Reached key branches limit cursor a) ∧
    (limit < rest.length → ∃ a ∈ rest.drop limit, Reached key branches limit cursor a)

variable {key branches limit} {V S : List α} {number : ℕ}

/-- A filter keeps the first `n` rows and some later one. -/
theorem take_filter_iff {n : ℕ} (hn : n < V.length) (p : α → Bool) :
    (n < (V.filter p).length ∧ (V.filter p).take n = V.take n) ↔
      (∀ a ∈ V.take n, p a = true) ∧ ∃ a ∈ V.drop n, p a = true := by
  have hsplit : V.filter p = (V.take n).filter p ++ (V.drop n).filter p := by
    rw [← filter_append, take_append_drop]
  have hlen : (V.take n).length = n := by
    rw [length_take]
    omega
  constructor
  · rintro ⟨hlt, htake⟩
    refine ⟨fun a ha => ?_, ?_⟩
    · rw [← htake] at ha
      exact (mem_filter.mp (mem_of_mem_take ha)).2
    · have hle := length_filter_le p (V.take n)
      rw [hsplit, length_append] at hlt
      obtain ⟨a, ha⟩ := exists_mem_of_length_pos (l := (V.drop n).filter p) (by omega)
      exact ⟨a, (mem_filter.mp ha).1, (mem_filter.mp ha).2⟩
  · rintro ⟨hall, a, ha, hpa⟩
    have hpos : 0 < ((V.drop n).filter p).length :=
      length_pos_of_mem (mem_filter.mpr ⟨ha, hpa⟩)
    rw [hsplit, filter_eq_self.mpr hall]
    refine ⟨?_, ?_⟩
    · rw [length_append]
      omega
    · rw [take_append_of_le_length hlen.ge, take_of_length_le hlen.le]

omit [LinearOrder κ] in
theorem exists_cursor {l : List α} (hlimit : 0 < limit) (hl : limit < l.length) :
    ∃ c, (l.take limit).getLast?.map key = some c := by
  have hne : l.take limit ≠ [] := by
    intro h0
    have hlen := congrArg List.length h0
    rw [length_take, length_nil] at hlen
    omega
  exact ⟨_, by rw [List.getLast?_eq_some_getLast hne]; rfl⟩

theorem pageReached_of_end (h : S.length ≤ number * limit) :
    PageReached key branches limit S number := by
  unfold PageReached
  rw [drop_eq_nil_of_le h]
  simp

theorem forall_pageReached_last (hlen : (S.drop (number * limit)).length ≤ limit) :
    (∀ later ≥ number, PageReached key branches limit S later) ↔ ∀ a ∈ S.drop (number * limit),
        Reached key branches limit ((S.take (number * limit)).getLast?.map key) a := by
  constructor
  · intro h a ha
    refine (h number le_rfl).1 a ?_
    rwa [take_of_length_le hlen]
  · intro h later hlater
    rcases eq_or_lt_of_le hlater with rfl | hlt
    · refine ⟨fun a ha => h a (mem_of_mem_take ha), fun hmore => absurd hmore hlen.not_gt⟩
    · apply pageReached_of_end
      rw [length_drop] at hlen
      have hmul := mul_le_mul_right limit hlt
      rw [succ_mul] at hmul
      omega

end

variable {α κ : Type*} [LinearOrder κ] [DecidableEq α] (key : α → κ) (branches : List (List α))
  (keep : α → Bool) (limit : ℕ)

def unionRows : List α := (branches.flatten.filter keep).dedup

def branchQuery (cursor : Option κ) : List α :=
  ((branches.flatMap fun rows =>
    (descending key (rows.filter (below key cursor))).take (limit + 1)).filter keep).dedup

variable {key branches keep limit} {cursor : Option κ} {a : α} {U V : List α}

section
variable (hk : Function.Injective key)
include hk

theorem mem_branchQuery : a ∈ branchQuery key branches keep limit cursor ↔
      (a ∈ unionRows branches keep ∧ below key cursor a = true) ∧
        Reached key branches limit cursor a := by
  have hkeyed : ∀ l : List α, Keyed key l := fun l a _ b _ h => hk h
  simp only [branchQuery, unionRows, Reached, mem_filter, mem_dedup, mem_flatMap,
    mem_flatten, mem_take_descending (hkeyed _), Nat.lt_succ_iff]
  constructor
  · rintro ⟨⟨rows, hrows, ⟨ha, hb⟩, hlen⟩, hkeep⟩
    exact ⟨⟨⟨⟨rows, hrows, ha⟩, hkeep⟩, hb⟩, rows, hrows, ha, hlen⟩
  · rintro ⟨⟨⟨-, hkeep⟩, hb⟩, rows, hrows, ha, hlen⟩
    exact ⟨⟨rows, hrows, ⟨ha, hb⟩, hlen⟩, hkeep⟩

section
variable (hS : descending key (unionRows branches keep) = U ++ V)
include hS

/-- After the rows `U`, the rest of the listing is below the cursor. -/
theorem descending_below
 :
    descending key ((unionRows branches keep).filter (below key (U.getLast?.map key))) = V := by
  have hnd : (unionRows branches keep).Nodup := nodup_dedup _
  have hrest : descending key (keysetQuery key (unionRows branches keep) (fun _ => false)
      (U.getLast?.map key)) = V := descending_keysetQuery hS (hnd.map hk) fun _ _ => rfl
  have hbelow : keysetQuery key (unionRows branches keep) (fun _ => false) (U.getLast?.map key) =
      (unionRows branches keep).filter (below key (U.getLast?.map key)) := by
    cases U.getLast?.map key with
    | none => exact (filter_eq_self.mpr fun _ _ => rfl).symm
    | some c => rfl
  rwa [hbelow] at hrest

/-- After the rows `U`, the query finds the reached ones of the rest. -/
theorem descending_branchQuery
 :
    descending key (branchQuery key branches keep limit (U.getLast?.map key)) =
      V.filter fun a => Reached key branches limit (U.getLast?.map key) a := by
  have hnd : (unionRows branches keep).Nodup := nodup_dedup _
  have hquery : (branchQuery key branches keep limit (U.getLast?.map key)).Nodup :=
    nodup_dedup _
  rw [← descending_below hk hS]
  refine descending_eq_filter (fun a _ b _ h => hk h) (hnd.filter _) hquery fun a => ?_
  rw [mem_branchQuery hk, mem_filter, decide_eq_true_eq]

theorem follow_branches_last
 (hlen : V.length ≤ limit) :
    (∃ n, follow key (branchQuery key branches keep limit) limit n (U.getLast?.map key) = some V) ↔
      ∀ a ∈ V, Reached key branches limit (U.getLast?.map key) a := by
  have hpage : page key (branchQuery key branches keep limit) limit (U.getLast?.map key) = _ :=
    page_eq (descending_branchQuery hk hS)
  rw [if_neg (((length_filter_le _ V).trans hlen).not_gt)] at hpage
  have hfollow : ∀ n, follow key (branchQuery key branches keep limit) limit (n + 1)
      (U.getLast?.map key) = some (V.filter fun a =>
        decide (Reached key branches limit (U.getLast?.map key) a)) := by
    intro n
    rw [follow, hpage]
  constructor
  · rintro ⟨n, hn⟩
    cases n with
    | zero => cases hn
    | succ n =>
      rw [hfollow n] at hn
      intro a ha
      exact of_decide_eq_true (filter_eq_self.mp (Option.some.inj hn) a ha)
  · intro hall
    refine ⟨1, (hfollow 0).trans (congrArg some ?_)⟩
    exact filter_eq_self.mpr fun a ha => decide_eq_true (hall a ha)

end

theorem follow_branches_step (hlimit : 0 < limit)
    (hS : descending key (unionRows branches keep) = U ++ V) (hmore : limit < V.length) :
    (∃ n, follow key (branchQuery key branches keep limit) limit n (U.getLast?.map key) = some V) ↔
      ((∀ a ∈ V.take limit, Reached key branches limit (U.getLast?.map key) a) ∧
        ∃ a ∈ V.drop limit, Reached key branches limit (U.getLast?.map key) a) ∧
      ∃ n, follow key (branchQuery key branches keep limit) limit n
        ((U ++ V.take limit).getLast?.map key) = some (V.drop limit) := by
  have hpage : page key (branchQuery key branches keep limit) limit (U.getLast?.map key) = _ :=
    page_eq (descending_branchQuery hk hS)
  have hfilter := take_filter_iff hmore
    fun a => decide (Reached key branches limit (U.getLast?.map key) a)
  simp only [decide_eq_true_eq] at hfilter
  rw [← hfilter]
  obtain ⟨c, hc⟩ : ∃ c, (V.take limit).getLast?.map key = some c := exists_cursor hlimit hmore
  have hne : V.take limit ≠ [] := by
    intro h0
    simp [h0] at hc
  rw [List.getLast?_append_of_ne_nil _ hne, hc]
  constructor
  · rintro ⟨n, hn⟩
    cases n with
    | zero => cases hn
    | succ n =>
      rw [follow, hpage] at hn
      split_ifs at hn with hlt
      · obtain ⟨d, hd⟩ : ∃ d, ((V.filter fun a => decide (Reached key branches limit
            (U.getLast?.map key) a)).take limit).getLast?.map key = some d :=
          exists_cursor hlimit hlt
        rw [hd] at hn
        obtain ⟨Y, hY, happ⟩ := Option.map_eq_some_iff.mp hn
        obtain ⟨htake, hdrop⟩ := append_inj (happ.trans (take_append_drop limit V).symm)
          (by rw [length_take, length_take]; omega)
        rw [htake, hc] at hd
        exact ⟨⟨hlt, htake⟩, n, by rw [Option.some.inj hd, hY, hdrop]⟩
      · have hle := length_filter_le (fun a => decide (Reached key branches limit
          (U.getLast?.map key) a)) V
        have hl := congrArg List.length (Option.some.inj hn)
        omega
  · rintro ⟨⟨hlt, htake⟩, n, hn⟩
    refine ⟨n + 1, ?_⟩
    rw [follow, hpage, if_pos hlt, htake, hc]
    simp [hn]

/-- From the start of a page on, the pages add up to the rest of the listing exactly when this page
and all later ones are reached. -/
theorem follow_branches_from (hlimit : 0 < limit) {S : List α}
    (hS : descending key (unionRows branches keep) = S) (m : ℕ) :
    ∀ number, (S.drop (number * limit)).length ≤ m →
      ((∃ n, follow key (branchQuery key branches keep limit) limit n
          ((S.take (number * limit)).getLast?.map key) = some (S.drop (number * limit))) ↔
        ∀ later ≥ number, PageReached key branches limit S later) := by
  induction m with
  | zero =>
    intro number hlen
    have hsplit := hS.trans (take_append_drop (number * limit) S).symm
    rw [follow_branches_last hk hsplit (by omega), forall_pageReached_last (by omega)]
  | succ m ih =>
    intro number hlen
    have hsplit := hS.trans (take_append_drop (number * limit) S).symm
    by_cases hmore : limit < (S.drop (number * limit)).length
    · have htake : S.take (number * limit) ++ (S.drop (number * limit)).take limit =
          S.take ((number + 1) * limit) := by rw [succ_mul, take_add]
      have hdrop : (S.drop (number * limit)).drop limit = S.drop ((number + 1) * limit) := by
        rw [succ_mul, drop_drop]
      rw [follow_branches_step hk hlimit hsplit hmore, htake, hdrop, ih]
      · constructor
        · rintro ⟨⟨hall, hsome⟩, hrest⟩ later hlater
          rcases eq_or_lt_of_le hlater with rfl | hlt
          · exact ⟨hall, fun _ => by rwa [hdrop]⟩
          · exact hrest later hlt
        · intro h
          obtain ⟨hall, hsome⟩ := h number le_rfl
          refine ⟨⟨hall, ?_⟩, fun later hlater => h later (by omega)⟩
          rw [← hdrop]
          exact hsome hmore
      · rw [length_drop] at hlen hmore ⊢
        rw [succ_mul]
        omega
    · rw [follow_branches_last hk hsplit (by omega), forall_pageReached_last (by omega)]

/-- The pages add up to the distinct rows of all branches in order exactly when every page is
reached. -/
theorem follow_branches_iff (hlimit : 0 < limit) :
    (∃ n, follow key (branchQuery key branches keep limit) limit n none =
        some (descending key (unionRows branches keep))) ↔
      ∀ number, PageReached key branches limit (descending key (unionRows branches keep))
        number := by
  have h := follow_branches_from hk hlimit
    (rfl : descending key (unionRows branches keep) = _) _ 0 le_rfl
  simpa using h

section
variable (hnodup : ∀ rows ∈ branches, rows.Nodup ∧ ∀ b ∈ rows, keep b = true)
include hnodup

/-- Rows of the rest up to the first row after the page are reached when no branch repeats a row. -/
theorem reached_of_nodup

    (hS : descending key (unionRows branches keep) = U ++ V) {i : ℕ} (hi : i ≤ limit)
    (ha : V[i]? = some a) : Reached key branches limit (U.getLast?.map key) a := by
  have hrest := descending_below hk hS
  have hmem : ∀ b, b ∈ V ↔ b ∈ unionRows branches keep ∧ below key (U.getLast?.map key) b = true :=
    fun b => by rw [← hrest, (perm_descending _).mem_iff, mem_filter]
  have hcount : (above key V a).length < i + 1 := by
    have htake : a ∈ V.take (i + 1) := by
      refine mem_iff_getElem?.mpr ⟨i, ?_⟩
      rwa [List.getElem?_take_of_lt (lt_succ_self i)]
    exact ((mem_take_iff (hrest ▸ pairwise_descending _) fun a _ b _ h => hk h).mp htake).2
  obtain ⟨hunion, -⟩ := (hmem a).mp (mem_of_getElem? ha)
  obtain ⟨hflat, -⟩ := mem_filter.mp (mem_dedup.mp hunion)
  obtain ⟨rows, hrows, harows⟩ := mem_flatten.mp hflat
  obtain ⟨hnd, hkeep⟩ := hnodup rows hrows
  refine ⟨rows, hrows, harows, ?_⟩
  -- the rows above it are different rows of the rest
  have hsub : above key (rows.filter (below key (U.getLast?.map key))) a ⊆ above key V a := by
    intro b hb
    obtain ⟨hb, hlt⟩ := mem_filter.mp hb
    obtain ⟨hb, hbelow⟩ := mem_filter.mp hb
    refine mem_filter.mpr ⟨(hmem b).mpr ⟨?_, hbelow⟩, hlt⟩
    exact mem_dedup.mpr (mem_filter.mpr ⟨mem_flatten.mpr ⟨rows, hrows, hb⟩, hkeep b hb⟩)
  have hdistinct : (above key (rows.filter (below key (U.getLast?.map key))) a).Nodup :=
    (hnd.filter _).filter _
  have hle := (subperm_of_subset hdistinct hsub).length_le
  omega

theorem pageReached_of_nodup
 (number : ℕ) :
    PageReached key branches limit (descending key (unionRows branches keep)) number := by
  have hsplit := (take_append_drop (number * limit) (descending key (unionRows branches keep))).symm
  refine ⟨fun a ha => ?_, fun hmore => ?_⟩
  · obtain ⟨i, hi⟩ := mem_iff_getElem?.mp ha
    rw [List.getElem?_take] at hi
    split_ifs at hi with hlt
    exact reached_of_nodup hk hnodup hsplit hlt.le hi
  · have ha := List.getElem?_eq_getElem hmore
    refine ⟨_, mem_iff_getElem?.mpr ⟨0, ?_⟩, reached_of_nodup hk hnodup hsplit le_rfl ha⟩
    rw [List.getElem?_drop]
    exact ha

end
end
end NostrMash.KeysetPaging
