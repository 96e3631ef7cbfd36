import Mathlib.Data.Finset.Prod

/-!
# Counting the edges at a vertex

A finite relation as a set of edges from sources to targets. Replacing everything that one source
points at changes the number of edges into a target by at most one, and only the number of edges
out of that source.
-/

namespace NostrMash.EdgeCounts
open Finset
variable {α β : Type*} [DecidableEq α] [DecidableEq β]

def into (E : Finset (α × β)) (a : α) : ℕ := (E.filter fun e => e.1 = a).card

def outOf (E : Finset (α × β)) (b : β) : ℕ := (E.filter fun e => e.2 = b).card

def redirect (E : Finset (α × β)) (b : β) (next : Finset α) : Finset (α × β) :=
  (E.filter fun e => e.2 ≠ b) ∪ next.image fun a => (a, b)

def targets (E : Finset (α × β)) (b : β) : Finset α := (E.filter fun e => e.2 = b).image Prod.fst

variable {E : Finset (α × β)} {a : α} {b b' : β} {next : Finset α}

theorem mem_redirect : (a, b') ∈ redirect E b next ↔
    if b' = b then a ∈ next else (a, b') ∈ E := by
  split_ifs with h
  · simp [redirect, h]
  · simp [redirect, h, Ne.symm h]

theorem mem_targets : a ∈ targets E b ↔ (a, b) ∈ E := by
  simp [targets]

theorem redirect_targets : redirect E b (targets E b) = E := by
  ext ⟨a, b'⟩
  rw [mem_redirect]
  split_ifs with h
  · rw [mem_targets, h]
  · exact Iff.rfl

theorem card_targets : (targets E b).card = outOf E b := by
  refine card_image_of_injOn ?_
  rintro ⟨a, c⟩ h ⟨a', c'⟩ h' haa
  have hc := (mem_filter.mp h).2
  have hc' := (mem_filter.mp h').2
  exact Prod.ext haa (hc.trans hc'.symm)

theorem outOf_redirect_self : outOf (redirect E b next) b = next.card := by
  rw [← card_targets]
  congr 1
  ext a
  rw [mem_targets, mem_redirect, if_pos rfl]

theorem outOf_redirect_ne (h : b' ≠ b) : outOf (redirect E b next) b' = outOf E b' := by
  rw [← card_targets, ← card_targets]
  congr 1
  ext a
  rw [mem_targets, mem_targets, mem_redirect, if_neg h]

theorem into_eq (E : Finset (α × β)) (a : α) (b : β) :
    into E a = (E.filter fun e => e.1 = a ∧ e.2 ≠ b).card + if (a, b) ∈ E then 1 else 0 := by
  have hsplit := card_filter_add_card_filter_not (s := E.filter fun e => e.1 = a)
    (p := fun e => e.2 ≠ b)
  rw [filter_filter, filter_filter] at hsplit
  have hone : (E.filter fun e => e.1 = a ∧ ¬ e.2 ≠ b) = if (a, b) ∈ E then {(a, b)} else ∅ := by
    ext ⟨a', b'⟩
    split_ifs with h <;> simp only [mem_filter, mem_singleton, Prod.mk.injEq,
      not_not, notMem_empty, iff_false, not_and]
    · exact ⟨And.right, fun he => ⟨he.1 ▸ he.2 ▸ h, he⟩⟩
    · rintro hmem rfl rfl
      exact h hmem
  rw [hone] at hsplit
  rw [into, ← hsplit]
  split_ifs <;> rfl

theorem into_redirect : into (redirect E b next) a + (if (a, b) ∈ E then 1 else 0) =
    into E a + if a ∈ next then 1 else 0 := by
  have hothers : ((redirect E b next).filter fun e => e.1 = a ∧ e.2 ≠ b) =
      E.filter fun e => e.1 = a ∧ e.2 ≠ b := by
    ext ⟨a', b'⟩
    simp only [mem_filter, mem_redirect]
    refine and_congr_left fun h => ?_
    rw [if_neg h.2]
  have hself : (a, b) ∈ redirect E b next ↔ a ∈ next := by rw [mem_redirect, if_pos rfl]
  rw [into_eq (redirect E b next) a b, into_eq E a b, hothers, if_congr hself rfl rfl]
  omega

end NostrMash.EdgeCounts
