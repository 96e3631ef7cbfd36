import NostrMash.KeyedTable
import Mathlib.Data.List.Sigma

/-!
# Counting in batches

Items are counted by their keys in a table, and the table is handed on in batches.
-/

namespace NostrMash.BatchedCounts
open List

section
variable {κ ι : Type*} [DecidableEq κ] {key : ι → κ} {T : KeyedTable κ ℕ} {items : List ι}

def increment (T : KeyedTable κ ℕ) (k : κ) : KeyedTable κ ℕ := T.upsert k 1 (· + 1)

def Tallies (key : ι → κ) (T : KeyedTable κ ℕ) (items : List ι) : Prop :=
  ∀ k, T.get k = if items.countP (key · = k) = 0 then none else some (items.countP (key · = k))

theorem tallies_empty : Tallies key KeyedTable.empty [] := fun _ => rfl

theorem Tallies.increment (h : Tallies key T items) (i : ι) :
    Tallies key (increment T (key i)) (items ++ [i]) := by
  intro k
  rw [countP_append, countP_singleton]
  by_cases hk : k = key i
  · subst hk
    rw [BatchedCounts.increment, KeyedTable.get_upsert_self, h]
    split_ifs with hnone <;> simp_all
  · rw [BatchedCounts.increment, KeyedTable.get_upsert_ne hk, h, decide_eq_false (Ne.symm hk)]
    simp

theorem Tallies.get_eq_some (h : Tallies key T items) {k : κ} {n : ℕ} (hget : T.get k = some n) :
    0 < n ∧ n = items.countP (key · = k) := by
  rw [h] at hget
  split_ifs at hget with hnone
  cases hget
  exact ⟨Nat.pos_of_ne_zero hnone, rfl⟩

theorem Tallies.rows_eq_nil_iff (h : Tallies key T items) : T.rows = [] ↔ items = [] := by
  constructor
  · intro hrows
    refine eq_nil_iff_forall_not_mem.mpr fun i hi => ?_
    have hnone : T.get (key i) = none := by rw [KeyedTable.get, hrows, lookup_nil]
    have hpos : 0 < items.countP (key · = key i) :=
      countP_pos_iff.mpr ⟨i, hi, decide_eq_true rfl⟩
    rw [h, if_neg hpos.ne'] at hnone
    exact nomatch hnone
  · rintro rfl
    refine eq_nil_iff_forall_not_mem.mpr fun row hrow => ?_
    have hget : T.get row.1 = some row.2 := KeyedTable.mem_rows.mp hrow
    exact absurd (h.get_eq_some hget).2 (h.get_eq_some hget).1.ne'

end

structure Ledger (ι : Type*) where
  issued : List ι
  refused : List (ι × ℕ)
  waiting : List (ι × ℕ)
  underway : List (ι × ℕ)
  lost : List (ι × ℕ)
  arrived : List (List (ι × ℕ))
  perm : issued.zipIdx.Perm (refused ++ (waiting ++ (underway ++ (lost ++ arrived.flatten))))

namespace Ledger

variable {ι : Type*}

def start : Ledger ι := ⟨[], [], [], [], [], [], .nil⟩

theorem zipIdx_issue (L : Ledger ι) (i : ι) :
    (L.issued ++ [i]).zipIdx = L.issued.zipIdx ++ [(i, L.issued.length)] := by
  simp [zipIdx_append]

theorem perm_append_last {α : Type*} (l₁ l₂ : List α) (a : α) :
    (l₁ ++ l₂ ++ [a]).Perm (l₁ ++ [a] ++ l₂) := by
  rw [append_assoc, append_assoc, perm_append_left_iff]
  exact perm_append_comm

def refuse (L : Ledger ι) (i : ι) : Ledger ι :=
  { L with
    issued := L.issued ++ [i]
    refused := L.refused ++ [(i, L.issued.length)]
    perm := by
      rw [zipIdx_issue]
      exact (L.perm.append_right _).trans (perm_append_last _ _ _) }

def accept (L : Ledger ι) (i : ι) : Ledger ι :=
  { L with
    issued := L.issued ++ [i]
    waiting := L.waiting ++ [(i, L.issued.length)]
    perm := by
      rw [zipIdx_issue]
      refine (L.perm.append_right _).trans ?_
      rw [append_assoc, perm_append_left_iff]
      exact perm_append_last _ _ _ }

def take (L : Ledger ι) : Ledger ι :=
  { L with
    waiting := []
    underway := L.underway ++ L.waiting
    perm := by
      refine L.perm.trans ((perm_append_left_iff _).mpr ?_)
      rw [nil_append, ← append_assoc]
      exact perm_append_comm.append_right _ }

def lose (L : Ledger ι) : Ledger ι :=
  { L with
    underway := []
    lost := L.lost ++ L.underway
    perm := by
      refine L.perm.trans ((perm_append_left_iff _).mpr ((perm_append_left_iff _).mpr ?_))
      rw [nil_append, ← append_assoc]
      exact perm_append_comm.append_right _ }

def arrive (L : Ledger ι) : Ledger ι :=
  { L with
    underway := []
    arrived := L.arrived ++ [L.underway]
    perm := by
      refine L.perm.trans ((perm_append_left_iff _).mpr ((perm_append_left_iff _).mpr ?_))
      rw [nil_append, flatten_append, flatten_singleton, ← append_assoc L.lost]
      exact perm_append_comm }

variable [DecidableEq ι] {L : Ledger ι} {e : ι × ℕ}

def deliveries (L : Ledger ι) (e : ι × ℕ) : ℕ := L.arrived.countP (e ∈ ·)

theorem countP_mem_le_one {batches : List (List (ι × ℕ))} (h : batches.flatten.Nodup) :
    batches.countP (e ∈ ·) ≤ 1 := by
  obtain ⟨-, hdisjoint⟩ := nodup_flatten.mp h
  induction batches with
  | nil => exact Nat.zero_le 1
  | cons batch batches ih =>
    obtain ⟨hfirst, hrest⟩ := pairwise_cons.mp hdisjoint
    rw [flatten_cons, nodup_append] at h
    by_cases he : e ∈ batch
    · have hnone : batches.countP (e ∈ ·) = 0 :=
        countP_eq_zero.mpr fun other hother hmem =>
          hfirst other hother he (of_decide_eq_true hmem)
      rw [countP_cons, hnone, Nat.zero_add]
      split_ifs <;> decide
    · rw [countP_cons_of_neg (by simpa using he)]
      exact ih h.2.1 hrest

theorem deliveries_eq_one_iff (he : e ∈ L.issued.zipIdx) : L.deliveries e = 1 ↔
    e ∉ L.refused ∧ e ∉ L.waiting ∧ e ∉ L.underway ∧ e ∉ L.lost := by
  have hnodup : (L.refused ++ (L.waiting ++ (L.underway ++ (L.lost ++ L.arrived.flatten)))).Nodup :=
    L.perm.nodup_iff.mp (List.nodup_zipIdx_map_snd L.issued).of_map
  have hplace := L.perm.mem_iff.mp he
  have hle : L.deliveries e ≤ 1 := by
    refine countP_mem_le_one (hnodup.sublist ?_)
    exact (((sublist_append_right _ _).trans (sublist_append_right _ _)).trans
      (sublist_append_right _ _)).trans (sublist_append_right _ _)
  have hpos : 0 < L.deliveries e ↔ e ∈ L.arrived.flatten := by
    rw [deliveries, countP_pos_iff, mem_flatten]
    simp
  have hone : L.deliveries e = 1 ↔ e ∈ L.arrived.flatten := by
    rw [← hpos]
    omega
  rw [hone]
  simp only [mem_append] at hplace
  simp only [nodup_append, mem_append] at hnodup
  constructor
  · intro harrived
    refine ⟨fun h => ?_, fun h => ?_, fun h => ?_, fun h => ?_⟩
    · exact hnodup.2.2 e h e (by tauto) rfl
    · exact hnodup.2.1.2.2 e h e (by tauto) rfl
    · exact hnodup.2.1.2.1.2.2 e h e (by tauto) rfl
    · exact hnodup.2.1.2.1.2.1.2.2 e h e harrived rfl
  · rintro ⟨hrefused, hwaiting, hunderway, hlost⟩
    tauto

end Ledger
end NostrMash.BatchedCounts
