import NostrMash.KeysetPaging
import Mathlib.Data.List.NodupEquivFin
import Mathlib.Order.WellFounded

/-!
# The first rows of a descending listing

A row is among the first `n` of a descending listing exactly when fewer than `n` rows stand above
it. Queries that keep a bounded number of rows of each part are described by this count, whatever
their parts are.
-/

namespace NostrMash.KeysetPaging
open List
variable {α κ β : Type*} [LinearOrder κ] {key : α → κ} {l l' : List α} {a : α} {n : ℕ}

def Keyed (key : α → κ) (l : List α) : Prop := ∀ a ∈ l, ∀ b ∈ l, key a = key b → a = b

def above (key : α → κ) (l : List α) (a : α) : List α := l.filter fun b => key a < key b

omit [LinearOrder κ] in
theorem Keyed.mono (h : Keyed key l) (hs : ∀ a ∈ l', a ∈ l) : Keyed key l' :=
  fun a ha b hb => h a (hs a ha) b (hs b hb)

theorem above_cons (x a : α) (l : List α) :
    (above key (x :: l) a).length = (above key l a).length + if key a < key x then 1 else 0 := by
  unfold above
  by_cases h : key a < key x
  · simp [h]
  · simp [h]

theorem length_above_of_perm (h : l.Perm l') : (above key l a).length = (above key l' a).length :=
  (h.filter _).length_eq

theorem above_eq_nil (h : ∀ b ∈ l, key b ≤ key a) : above key l a = [] :=
  filter_eq_nil_iff.mpr fun b hb => by simp [h b hb]

theorem mem_take_iff (hs : l.Pairwise fun a b => key b ≤ key a) (hk : Keyed key l) :
    a ∈ l.take n ↔ a ∈ l ∧ (above key l a).length < n := by
  induction l generalizing n with
  | nil => simp
  | cons x xs ih =>
    obtain ⟨hx, hxs⟩ := pairwise_cons.mp hs
    cases n with
    | zero => simp
    | succ n =>
      rw [take_succ_cons, mem_cons, mem_cons, above_cons,
        ih hxs (hk.mono fun b hb => mem_cons_of_mem x hb)]
      by_cases hax : a = x
      · subst hax
        simp [above_eq_nil hx]
      · constructor
        · rintro (h | ⟨hmem, hlt⟩)
          · exact absurd h hax
          · refine ⟨.inr hmem, ?_⟩
            split_ifs
            all_goals omega
        · rintro ⟨hmem, hlt⟩
          have hmem : a ∈ xs := hmem.resolve_left hax
          have hne : key a ≠ key x := fun h =>
            hax (hk a (mem_cons_of_mem x hmem) x (.head _) h)
          rw [if_pos (lt_of_le_of_ne (hx a hmem) hne)] at hlt
          exact .inr ⟨hmem, by omega⟩

theorem mem_take_descending (hk : Keyed key l) :
    a ∈ (descending key l).take n ↔ a ∈ l ∧ (above key l a).length < n := by
  have hperm : (descending key l).Perm l := perm_descending l
  rw [mem_take_iff (pairwise_descending l) (hk.mono fun b hb => hperm.mem_iff.mp hb),
    hperm.mem_iff, length_above_of_perm hperm]

theorem descending_nodup (hl : l.Nodup) : (descending key l).Nodup :=
  (perm_descending l).nodup_iff.mpr hl

theorem descending_eq_descending (hk : Keyed key l) (hl : l.Nodup) (hl' : l'.Nodup)
    (h : ∀ a, a ∈ l' ↔ a ∈ l) : descending key l' = descending key l := by
  have hperm : (descending key l).Perm l := perm_descending l
  refine descending_eq (((perm_ext_iff_of_nodup hl' hl).mpr h).trans hperm.symm)
    (pairwise_descending l) ?_
  exact List.Nodup.map_on (fun a ha b hb => hk a (hperm.mem_iff.mp ha) b (hperm.mem_iff.mp hb))
    (descending_nodup hl)

theorem descending_eq_filter (hk : Keyed key l) (hl : l.Nodup) (hl' : l'.Nodup) {p : α → Bool}
    (h : ∀ a, a ∈ l' ↔ a ∈ l ∧ p a = true) : descending key l' = (descending key l).filter p := by
  have hperm : (descending key l).Perm l := perm_descending l
  have hfilter : ∀ a ∈ (descending key l).filter p, a ∈ l := fun a ha =>
    hperm.mem_iff.mp (mem_filter.mp ha).1
  refine descending_eq ?_ ((pairwise_descending l).filter p) ?_
  · refine (perm_ext_iff_of_nodup hl' ((descending_nodup hl).filter p)).mpr fun a => ?_
    rw [h, mem_filter, hperm.mem_iff]
  · exact List.Nodup.map_on (fun a ha b hb => hk a (hfilter a ha) b (hfilter b hb))
      ((descending_nodup hl).filter p)

theorem descending_congr {κ' : Type*} [LinearOrder κ'] {key' : α → κ'} (hk : Keyed key l)
    (h : ∀ a ∈ l, ∀ b ∈ l, key' a ≤ key' b ↔ key a ≤ key b) :
    descending key' l = descending key l := by
  have hperm : (descending key' l).Perm l := perm_descending l
  have hperm' : (descending key l).Perm l := perm_descending l
  refine List.Perm.eq_of_pairwise ?_ ?_ (pairwise_descending l) (hperm.trans hperm'.symm)
  · intro a b ha hb hab hba
    exact hk a (hperm.mem_iff.mp ha) b (hperm'.mem_iff.mp hb) (le_antisymm hba hab)
  · have hsorted : (descending key' l).Pairwise fun a b => key' b ≤ key' a := pairwise_descending l
    refine hsorted.imp_of_mem ?_
    intro a b ha hb hba
    exact (h b (hperm.mem_iff.mp hb) a (hperm.mem_iff.mp ha)).mp hba

theorem getElem?_sublist_ne (hl : l.Nodup) (h : l'.Sublist l) {i j : ℕ} (hij : i ≤ j) {x : α}
    (hx : l[i]? = some x) (hmiss : x ∉ l') (hj : j < l.length) : l'[j]? ≠ l[j]? := by
  obtain ⟨f, hf⟩ := List.sublist_iff_exists_orderEmbedding_getElem?_eq.mp h
  intro heq
  have hge : ∀ k, k ≤ f k := fun k => f.strictMono.le_apply
  have hfj : f j = j := by
    have hsame : l[j]? = l[f j]? := heq ▸ hf j
    exact ((List.getElem?_inj hj hl).mp hsame).symm
  have hfi : f i = i := by
    have hgap : f i + (j - i) ≤ f j := by
      have := StrictMono.add_le_nat f.strictMono (j - i) i
      have hsum : j - i + i = j := by omega
      rw [hsum] at this
      omega
    have := hge i
    omega
  have hxl : l'[i]? = some x := by rw [hf i, hfi, hx]
  exact hmiss (mem_of_getElem? hxl)

theorem slice_filter_iff (hl : l.Nodup) (p : α → Bool) (offset : ℕ) (hn : 0 < n) :
    ((l.filter p).drop offset).take n = (l.drop offset).take n ↔
      l.length ≤ offset ∨ ∀ a ∈ l.take (offset + n), p a = true := by
  constructor
  · intro heq
    by_contra hcon
    obtain ⟨hlen, a, ha, hpa⟩ : offset < l.length ∧ ∃ a ∈ l.take (offset + n), ¬ p a = true := by
      push Not at hcon
      exact ⟨hcon.1, hcon.2⟩
    obtain ⟨i, hi⟩ := mem_iff_getElem?.mp ha
    rw [List.getElem?_take] at hi
    split_ifs at hi with hin
    have hmiss : a ∉ l.filter p := fun h => hpa (mem_filter.mp h).2
    have hil : i < l.length := by
      by_contra hge
      rw [List.getElem?_eq_none (by omega)] at hi
      cases hi
    refine getElem?_sublist_ne hl filter_sublist (le_max_left i offset) hi hmiss
      (max_lt hil hlen) ?_
    have hat := congrArg (·[max i offset - offset]?) heq
    have hsum : offset + (max i offset - offset) = max i offset := by omega
    have hlt : max i offset - offset < n := by omega
    simpa [List.getElem?_take, List.getElem?_drop, hlt, hsum] using hat
  · rintro (hlen | hall)
    · have hfil : (l.filter p).length ≤ offset := (length_filter_le p l).trans hlen
      rw [drop_eq_nil_of_le hlen, drop_eq_nil_of_le hfil]
    · have hsplit : l.filter p = l.take (offset + n) ++ (l.drop (offset + n)).filter p := by
        conv_lhs => rw [← take_append_drop (offset + n) l]
        rw [filter_append, filter_eq_self.mpr hall]
      have htake : (l.filter p).take (offset + n) = l.take (offset + n) := by
        rcases Nat.le_total l.length (offset + n) with hle | hge
        · rw [take_of_length_le hle] at hall
          rw [filter_eq_self.mpr hall]
        · rw [hsplit, take_append_of_le_length (by simp [hge]), take_take,
            Nat.min_self]
      rw [take_drop, take_drop, htake]

section
variable {parts : List (List α)} {m : ℕ}

def InWindow (key : α → κ) (parts : List (List α)) (n : ℕ) (a : α) : Prop :=
  ∃ p ∈ parts, a ∈ p ∧ (above key p a).length < n

instance [DecidableEq α] (a : α) : Decidable (InWindow key parts n a) :=
  inferInstanceAs (Decidable (∃ p ∈ parts, _))

def windows (key : α → κ) (n : ℕ) (parts : List (List α)) : List α :=
  parts.flatMap fun p => (descending key p).take n

theorem map_windows {γ : Type*} (f : γ → List α) (g : α → β) (l : List γ) :
    (windows key n (l.map f)).map g = l.flatMap fun c => ((descending key (f c)).take n).map g := by
  unfold windows
  rw [map_flatMap, flatMap_map]

theorem mem_windows (hk : Keyed key parts.flatten) :
    a ∈ windows key n parts ↔ a ∈ parts.flatten ∧ InWindow key parts n a := by
  have hpart : ∀ p ∈ parts, Keyed key p := fun p hp =>
    hk.mono fun b hb => mem_flatten.mpr ⟨p, hp, hb⟩
  simp only [windows, InWindow, mem_flatMap]
  constructor
  · rintro ⟨p, hp, ha⟩
    obtain ⟨ha, hlt⟩ := (mem_take_descending (hpart p hp)).mp ha
    exact ⟨mem_flatten.mpr ⟨p, hp, ha⟩, p, hp, ha, hlt⟩
  · rintro ⟨-, p, hp, ha, hlt⟩
    exact ⟨p, hp, (mem_take_descending (hpart p hp)).mpr ⟨ha, hlt⟩⟩

theorem nodup_windows (hl : parts.flatten.Nodup) : (windows key n parts).Nodup := by
  rw [nodup_flatten] at hl
  refine nodup_flatMap.mpr ⟨fun p hp => ?_, ?_⟩
  · exact (descending_nodup (hl.1 p hp)).sublist (take_sublist n _)
  · refine hl.2.imp fun {p q} hpq => ?_
    intro a hp hq
    exact hpq ((perm_descending p).mem_iff.mp (mem_of_mem_take hp))
      ((perm_descending q).mem_iff.mp (mem_of_mem_take hq))

section
variable (hk : Keyed key parts.flatten)
include hk

theorem descending_windows [DecidableEq α]
    (hl : parts.flatten.Nodup) : descending key (windows key n parts) =
      (descending key parts.flatten).filter fun a => decide (InWindow key parts n a) := by
  refine descending_eq_filter hk hl (nodup_windows hl) fun a => ?_
  rw [mem_windows hk, decide_eq_true_eq]

theorem inWindow_of_mem_take
    (h : a ∈ (descending key parts.flatten).take n) : InWindow key parts n a := by
  obtain ⟨hmem, hlt⟩ := (mem_take_descending hk).mp h
  obtain ⟨p, hp, ha⟩ := mem_flatten.mp hmem
  refine ⟨p, hp, ha, lt_of_le_of_lt ?_ hlt⟩
  exact (List.Sublist.filter _ (sublist_flatten_of_mem hp)).length_le

theorem take_descending_windows (hl : parts.flatten.Nodup)
    (hnm : n ≤ m) : (descending key (windows key m parts)).take n =
      (descending key parts.flatten).take n := by
  classical
  rcases Nat.eq_zero_or_pos n with rfl | hn
  · rfl
  · rw [descending_windows hk hl]
    have hnd : (descending key parts.flatten).Nodup := descending_nodup hl
    have hall : ∀ a ∈ (descending key parts.flatten).take (0 + n),
        decide (InWindow key parts m a) = true := by
      intro a ha
      rw [Nat.zero_add] at ha
      obtain ⟨p, hp, hap, hlt⟩ := inWindow_of_mem_take hk ha
      exact decide_eq_true ⟨p, hp, hap, hlt.trans_le hnm⟩
    exact (slice_filter_iff hnd _ 0 hn).mpr (.inr hall)

end
end

theorem descending_map {f : β → κ} {g : α → β} (h : ∀ a ∈ l, f (g a) = key a) :
    descending f (l.map g) = (descending key l).map g := by
  unfold descending
  refine (map_insertionSort (fun a b => key b ≤ key a) (fun a b => f b ≤ f a) g l ?_).symm
  intro a ha b hb
  rw [h a ha, h b hb]

end NostrMash.KeysetPaging
