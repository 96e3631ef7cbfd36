import Mathlib.Data.List.Sort
import Mathlib.Data.List.Perm.Subperm

/-!
# Batches of the oldest items

`oldest age k l` takes the `k` oldest items of `l`, in order of age. Items of equal age keep the
order in which `l` lists them, so an item misses the batch exactly when enough items are older, or
of its age and listed before it.
-/

namespace NostrMash
open List
variable {α : Type*} (age : α → ℤ)

def oldest (k : ℕ) (l : List α) : List α := (l.insertionSort fun a b => age a ≤ age b).take k

variable {age} {k : ℕ} {l : List α} {x : α}

theorem mem_of_mem_oldest (h : x ∈ oldest age k l) : x ∈ l :=
  (perm_insertionSort _ l).mem_iff.mp (mem_of_mem_take h)

theorem nodup_oldest (h : l.Nodup) : (oldest age k l).Nodup :=
  ((perm_insertionSort _ l).nodup_iff.mpr h).sublist (take_sublist _ _)

theorem mem_oldest_of_length_le (hx : x ∈ l) (hk : l.length ≤ k) : x ∈ oldest age k l := by
  rw [oldest, take_of_length_le (by rwa [length_insertionSort])]
  exact (perm_insertionSort _ l).mem_iff.mpr hx

theorem oldest_full (hx : x ∈ l) (hn : x ∉ oldest age k l) :
    (oldest age k l).length = k ∧ ∀ y ∈ oldest age k l, age y ≤ age x := by
  have : Std.Total fun a b : α => age a ≤ age b := ⟨fun a b => le_total (age a) (age b)⟩
  have : IsTrans α fun a b : α => age a ≤ age b := ⟨fun _ _ _ => le_trans⟩
  have hsorted := pairwise_insertionSort (fun a b : α => age a ≤ age b) l
  rw [← take_append_drop k (l.insertionSort _), pairwise_append] at hsorted
  have hx' : x ∈ l.insertionSort fun a b => age a ≤ age b :=
    (perm_insertionSort _ l).mem_iff.mpr hx
  rw [← take_append_drop k (l.insertionSort _)] at hx'
  have hdrop := (mem_append.mp hx').resolve_left hn
  refine ⟨?_, fun y hy => hsorted.2.2 y hy x hdrop⟩
  have hpos := length_pos_of_mem hdrop
  rw [length_drop] at hpos
  rw [oldest, length_take]
  omega

theorem mem_of_pair_sublist {q : α} {A B : List α} (hnd : (A ++ x :: B).Nodup)
    (h : [q, x].Sublist (A ++ x :: B)) : q ∈ A := by
  obtain ⟨l₁, l₂, he, h₁, h₂⟩ := sublist_append_iff.mp h
  cases l₁ with
  | cons y l₁ =>
    have hy : y = q := by simpa using (List.cons.inj he).1.symm
    exact hy ▸ h₁.subset (.head _)
  | nil =>
    rw [nil_append] at he
    subst he
    have hx : x ∈ B := by
      cases h₂ with
      | cons _ h' => exact h'.subset (by simp)
      | cons_cons _ h' => exact h'.subset (by simp)
    have hB := (nodup_append.mp hnd).2.1
    exact absurd hx (nodup_cons.mp hB).1

theorem not_mem_oldest (hl : l.Nodup) {Q : List α} (hQ : Q.Nodup) (hk : k ≤ Q.length)
    (h : ∀ q ∈ Q, age q ≤ age x ∧ [q, x].Sublist l) : x ∉ oldest age k l := by
  intro hx
  have hnd : (l.insertionSort fun a b => age a ≤ age b).Nodup :=
    (perm_insertionSort _ l).nodup_iff.mpr hl
  obtain ⟨A, B, hS⟩ := append_of_mem (mem_of_mem_take hx)
  rw [hS] at hnd
  have hsub : Q ⊆ A := by
    intro q hq
    have hpair : [q, x].Sublist (l.insertionSort fun a b => age a ≤ age b) :=
      pair_sublist_insertionSort (h q hq).1 (h q hq).2
    rw [hS] at hpair
    exact mem_of_pair_sublist hnd hpair
  have hlen : k ≤ A.length := hk.trans (hQ.subperm hsub).length_le
  rw [oldest, hS, take_append_of_le_length hlen] at hx
  exact (nodup_append.mp hnd).2.2 x (mem_of_mem_take hx) x (.head _) rfl

end NostrMash
