import Mathlib.Data.List.Sort

/-!
# Pools trimmed to a cap

The lowest scores leave a pool that holds too many elements. Which of several elements with one
score leaves is up to the sort.
-/

namespace NostrMash.CappedPool
open List
variable {α κ : Type*} [LinearOrder κ] {score : α → κ}

structure Sorter (score : α → κ) where
  sort : List α → List α
  perm : ∀ l, (sort l).Perm l
  sorted : ∀ l, (sort l).Pairwise fun a b => score a ≤ score b

def insertionSorter (score : α → κ) : Sorter score where
  sort l := l.insertionSort fun a b => score a ≤ score b
  perm := perm_insertionSort _
  sorted l := by
    have : Std.Total fun a b : α => score a ≤ score b := ⟨fun a b => le_total (score a) (score b)⟩
    have : IsTrans α fun a b : α => score a ≤ score b := ⟨fun _ _ _ hab hbc => hab.trans hbc⟩
    exact pairwise_insertionSort _ l

namespace Sorter

variable (S : Sorter score) (n m : ℕ) (l : List α)

def cut : List α := if n = 0 then [] else (S.sort l).take n

def kept : List α := if n = 0 then l else (S.sort l).drop n

theorem perm_cut_append_kept : (S.cut n l ++ S.kept n l).Perm l := by
  unfold cut kept
  split_ifs with h
  · exact List.Perm.refl l
  · rw [take_append_drop]
    exact S.perm l

theorem length_cut : (S.cut n l).length = min n l.length := by
  unfold cut
  split_ifs with h
  · simp [h]
  · rw [length_take, (S.perm l).length_eq]

theorem length_kept : (S.kept n l).length = l.length - n := by
  unfold kept
  split_ifs with h
  · simp [h]
  · rw [length_drop, (S.perm l).length_eq]

variable {S n m l} {a b : α}

theorem mem_cut_or_kept : a ∈ l ↔ a ∈ S.cut n l ∨ a ∈ S.kept n l := by
  rw [← (S.perm_cut_append_kept n l).mem_iff, mem_append]

theorem mem_of_mem_cut (h : a ∈ S.cut n l) : a ∈ l := mem_cut_or_kept.mpr (.inl h)

theorem mem_of_mem_kept (h : a ∈ S.kept n l) : a ∈ l := mem_cut_or_kept.mpr (.inr h)

theorem score_le_of_mem_cut (ha : a ∈ S.cut n l) (hb : b ∈ S.kept n l) : score a ≤ score b := by
  unfold cut at ha
  unfold kept at hb
  split_ifs at ha hb with h
  · exact nomatch ha
  · have hsorted := S.sorted l
    rw [← take_append_drop n (S.sort l)] at hsorted
    exact (pairwise_append.mp hsorted).2.2 a ha b hb

theorem disjoint_cut_kept (hl : l.Nodup) : (S.cut n l).Disjoint (S.kept n l) :=
  (nodup_append'.mp ((S.perm_cut_append_kept n l).nodup_iff.mpr hl)).2.2

theorem nodup_cut (hl : l.Nodup) : (S.cut n l).Nodup :=
  (nodup_append'.mp ((S.perm_cut_append_kept n l).nodup_iff.mpr hl)).1

theorem nodup_kept (hl : l.Nodup) : (S.kept n l).Nodup :=
  (nodup_append'.mp ((S.perm_cut_append_kept n l).nodup_iff.mpr hl)).2.1

end Sorter
end NostrMash.CappedPool
