import Mathlib.Data.List.Nodup
import Mathlib.Data.List.Perm.Subperm
import Mathlib.Data.List.Range
import Mathlib.Order.Nat
import Mathlib.Algebra.Group.Nat.Defs

/-!
# Pages cut from growing windows

Each page of a listing is computed on its own, from a window of the rows that may change from page
to page. `Partitions` says that the pages together show no row twice and none before the rows that
precede it in a reference order.
-/

namespace NostrMash.WindowPages
open List
variable {α : Type*}

def slice (R : List α) (size k : ℕ) : List α := (R.drop (k * size)).take size

def firstPages (pages : ℕ → List α) (k : ℕ) : List α := (List.range k).flatMap pages

def Precedes (R : List α) (y x : α) : Prop := ∃ i j : ℕ, i < j ∧ R[i]? = some y ∧ R[j]? = some x

structure Partitions (R : List α) (pages : ℕ → List α) : Prop where
  nodup : ∀ k, (firstPages pages k).Nodup
  closed : ∀ k x y, x ∈ firstPages pages k → Precedes R y x → y ∈ firstPages pages k

variable {R : List α} {pages : ℕ → List α} {size : ℕ}

theorem firstPages_succ (pages : ℕ → List α) (k : ℕ) :
    firstPages pages (k + 1) = firstPages pages k ++ pages k := by
  simp [firstPages, range_succ]

theorem firstPages_slice (R : List α) (size k : ℕ) :
    firstPages (slice R size) k = R.take (k * size) := by
  induction k with
  | zero => simp [firstPages]
  | succ k ih => rw [firstPages_succ, ih, slice, Nat.succ_mul, take_add]

theorem firstPages_perm (h : ∀ k, (pages k).Perm (slice R size k)) (k : ℕ) :
    (firstPages pages k).Perm (R.take (k * size)) := by
  rw [← firstPages_slice]
  exact List.Perm.flatMap_left _ fun i _ => h i

theorem mem_take_of_precedes {x y : α} {n : ℕ} (hR : R.Nodup) (hx : x ∈ R.take n)
    (h : Precedes R y x) : y ∈ R.take n := by
  obtain ⟨i, j, hij, hy, hxj⟩ := h
  obtain ⟨m, hm, rfl⟩ := mem_take_iff_getElem.mp hx
  obtain ⟨hj, heq⟩ := List.getElem?_eq_some_iff.mp hxj
  obtain rfl : j = m := hR.getElem_inj_iff.mp heq
  obtain ⟨hi, rfl⟩ := List.getElem?_eq_some_iff.mp hy
  exact mem_take_iff_getElem.mpr ⟨i, by omega, rfl⟩

theorem perm_take_of_closed {l : List α} (hR : R.Nodup) (hl : l.Nodup) (hsub : l ⊆ R)
    (hclosed : ∀ x y, x ∈ l → Precedes R y x → y ∈ l) : l.Perm (R.take l.length) := by
  have hle : l.length ≤ R.length := (hl.subperm hsub).length_le
  have htake : R.take l.length ⊆ l := by
    intro y hy
    by_contra hyl
    obtain ⟨i, hi, rfl⟩ := mem_take_iff_getElem.mp hy
    -- All rows of `l` stand before the missing row, so there are too few of them.
    have hbefore : l ⊆ R.take i := by
      intro x hx
      obtain ⟨j, hj, rfl⟩ := getElem_of_mem (hsub hx)
      rcases lt_trichotomy j i with hji | rfl | hij
      · exact mem_take_iff_getElem.mpr ⟨j, by omega, rfl⟩
      · exact absurd hx hyl
      · exact absurd (hclosed _ _ hx ⟨i, j, hij, List.getElem?_eq_getElem _,
          List.getElem?_eq_getElem _⟩) hyl
    have hlen := (hl.subperm hbefore).length_le
    rw [length_take] at hlen
    omega
  have hnd : (R.take l.length).Nodup := hR.sublist (take_sublist _ _)
  exact ((hnd.subperm htake).perm_of_length_le (by rw [length_take]; omega)).symm

theorem length_firstPages (hlen : ∀ k, (pages k).length = (slice R size k).length) (k : ℕ) :
    (firstPages pages k).length = (R.take (k * size)).length := by
  rw [← firstPages_slice]
  induction k with
  | zero => rfl
  | succ k ih => simp only [firstPages_succ, length_append, ih, hlen]

theorem partitions_iff (hR : R.Nodup) (hsub : ∀ k, pages k ⊆ R)
    (hlen : ∀ k, (pages k).length = (slice R size k).length) :
    Partitions R pages ↔ ∀ k, (pages k).Perm (slice R size k) := by
  constructor
  · intro h
    have hall : ∀ k, (firstPages pages k).Perm (R.take (k * size)) := by
      intro k
      have hp := perm_take_of_closed hR (h.nodup k)
        (fun x hx => let ⟨i, _, hi⟩ := mem_flatMap.mp hx; hsub i hi) (h.closed k)
      rwa [length_firstPages hlen, length_take, ← take_eq_take_min] at hp
    intro k
    have hsucc := hall (k + 1)
    rw [firstPages_succ, Nat.succ_mul, take_add] at hsucc
    exact (perm_append_left_iff _).mp
      ((hsucc.symm.trans ((hall k).append_right _)).symm)
  · intro h
    have hall := firstPages_perm h
    refine ⟨fun k => (hall k).nodup_iff.mpr (hR.sublist (take_sublist _ _)), ?_⟩
    intro k x y hx hyx
    rw [(hall k).mem_iff] at hx ⊢
    exact mem_take_of_precedes hR hx hyx

variable {A A' B B' : List α} {k : ℕ}

theorem slice_eq_drop (l : List α) (size k : ℕ) :
    slice l size k = (l.take ((k + 1) * size)).drop (k * size) := by
  rw [slice, take_drop, Nat.succ_mul]

theorem slice_groups_perm_iff (hR : (A' ++ B').Nodup) (hA : A <+: A') (hB : B <+: B')
    (hsize : 0 < size) (hfull : min (A' ++ B').length ((k + 1) * size) ≤ (A ++ B).length) :
    (slice (A ++ B) size k).Perm (slice (A' ++ B') size k) ↔
      (k + 1) * size ≤ A.length ∨ A.length = A'.length := by
  obtain ⟨A₂, rfl⟩ := hA
  obtain ⟨B₂, rfl⟩ := hB
  have hpos : k * size < (k + 1) * size := by rw [Nat.succ_mul]; omega
  rw [slice_eq_drop, slice_eq_drop]
  set n := (k + 1) * size
  simp only [length_append] at hfull ⊢
  constructor
  · intro hp
    by_contra hcon
    -- The last row of the page belongs to `B`, and in the reference it stands behind the page.
    have hi : n - 1 - A.length < B.length := by omega
    have hx : B[n - 1 - A.length] ∈ ((A ++ B).take n).drop (k * size) := by
      refine mem_drop_iff_getElem.mpr ⟨n - 1 - k * size, ?_, ?_⟩
      · rw [length_take, length_append]
        omega
      · rw [getElem_take, getElem_append_right (by omega)]
        congr 1
        omega
    obtain ⟨j, hj, heq⟩ := mem_take_iff_getElem.mp (mem_of_mem_drop (hp.subset hx))
    have hlast : B[n - 1 - A.length] = (A ++ A₂ ++ (B ++ B₂)).get
        ⟨A.length + A₂.length + (n - 1 - A.length), by simp only [length_append]; omega⟩ := by
      rw [get_eq_getElem, getElem_append_right (by simp),
        getElem_append_left (by simpa using hi)]
      simp
    have := hR.getElem_inj_iff.mp (heq.trans hlast)
    omega
  · rintro (hfill | hcomplete)
    · rw [take_append_of_le_length hfill, append_assoc, take_append_of_le_length hfill]
    · obtain rfl : A₂ = [] := length_eq_zero_iff.mp (by omega)
      rw [append_nil, ← append_assoc]
      rcases Nat.lt_or_ge (A ++ B).length n with hlt | hge
      · obtain rfl : B₂ = [] := by
          rw [length_append] at hlt
          exact length_eq_zero_iff.mp (by simp only [length_nil] at hfull; omega)
        rw [append_nil]
      · rw [take_append_of_le_length hge]

end NostrMash.WindowPages
