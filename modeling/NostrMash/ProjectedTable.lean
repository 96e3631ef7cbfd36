import Mathlib.Algebra.BigOperators.Group.List.Basic
import Mathlib.Data.Set.Insert
import Mathlib.Data.List.Nodup

/-!
# Tables projected from keys

A projected table has at most one row for each key, the row that a function gives for the key.
Projecting a key writes its row, or deletes it where the function gives none.
-/

namespace NostrMash.ProjectedTable
open List
variable {ι ρ : Type*}

structure Projects (rowOf : ι → Option ρ) (S : Set ι) (table : List (ι × ρ)) : Prop where
  nodup : (table.map Prod.fst).Nodup
  mem_iff : ∀ i row, (i, row) ∈ table ↔ i ∈ S ∧ rowOf i = some row

variable {rowOf : ι → Option ρ} {S : Set ι} {table : List (ι × ρ)} {keys : List ι}

theorem projects_nil : Projects rowOf ∅ [] where
  nodup := nodup_nil
  mem_iff _ _ := by simp

section
variable [DecidableEq ι]

def put (table : List (ι × ρ)) (i : ι) (row : Option ρ) : List (ι × ρ) :=
  row.toList.map (i, ·) ++ table.filter (·.1 ≠ i)

def putSome (table : List (ι × ρ)) (i : ι) : Option ρ → List (ι × ρ)
  | none => table
  | some row => put table i (some row)

theorem lookup_put_self (table : List (ι × ρ)) (i : ι) (row : Option ρ) :
    (put table i row).lookup i = row := by
  cases row with
  | some row => simp [put]
  | none =>
    rw [lookup_eq_none_iff]
    intro p hp
    have hne : p.1 ≠ i := by simpa using (mem_filter.mp hp).2
    simpa [bne, beq_eq_false_iff_ne] using hne.symm

theorem lookup_put_ne (table : List (ι × ρ)) {i j : ι} (h : j ≠ i) (row : Option ρ) :
    (put table i row).lookup j = table.lookup j := by
  have hbeq : (j == i) = false := beq_eq_false_iff_ne.mpr h
  have hfilter : (table.filter (·.1 ≠ i)).lookup j = table.lookup j := by
    induction table with
    | nil => rfl
    | cons p table ih =>
      by_cases hp : p.1 = i
      · have hj : (j == p.1) = false := beq_eq_false_iff_ne.mpr fun hj => h (hj.trans hp)
        rw [filter_cons_of_neg (by simpa using hp), ih, lookup_cons, hj]
      · rw [filter_cons_of_pos (by simpa using hp), lookup_cons, lookup_cons, ih]
  cases row with
  | some row => simpa [put, lookup_cons, hbeq] using hfilter
  | none => simpa [put] using hfilter

theorem Projects.put (h : Projects rowOf S table) (i : ι) :
    Projects rowOf (insert i S) (put table i (rowOf i)) where
  nodup := by
    have hold : ((table.filter (·.1 ≠ i)).map Prod.fst).Nodup :=
      h.nodup.sublist (filter_sublist.map _)
    cases hrow : rowOf i with
    | none => simpa [ProjectedTable.put] using hold
    | some row => simpa [ProjectedTable.put] using hold
  mem_iff j row := by
    by_cases hj : j = i
    · subst hj
      simp [ProjectedTable.put, eq_comm]
    · have hne : i ≠ j := Ne.symm hj
      simp [ProjectedTable.put, hj, hne, h.mem_iff]

theorem Projects.putSome (h : Projects rowOf S table) (i : ι) :
    Projects rowOf (insert i S) (putSome table i (rowOf i)) := by
  cases hrow : rowOf i with
  | some row =>
    have hput := h.put i
    rw [hrow] at hput
    exact hput
  | none =>
    refine ⟨h.nodup, fun j row => ?_⟩
    by_cases hj : j = i
    · subst hj
      simp [ProjectedTable.putSome, h.mem_iff, hrow]
    · simp [ProjectedTable.putSome, h.mem_iff, hj]

end

theorem Projects.perm (h : Projects rowOf S table) (hnd : keys.Nodup)
    (hkeys : ∀ i, i ∈ keys ↔ i ∈ S) :
    table.Perm (keys.filterMap fun i => (rowOf i).map (i, ·)) := by
  have htable : table.Nodup := h.nodup.of_map _
  have hrows : (keys.filterMap fun i => (rowOf i).map (i, ·)).Nodup := by
    refine hnd.filterMap fun i j row hi hj => ?_
    obtain ⟨r, -, rfl⟩ := Option.map_eq_some_iff.mp hi
    obtain ⟨r', -, heq⟩ := Option.map_eq_some_iff.mp hj
    exact (Prod.mk.inj heq).1.symm
  refine (perm_ext_iff_of_nodup htable hrows).mpr fun p => ?_
  rw [h.mem_iff, mem_filterMap]
  constructor
  · rintro ⟨hi, hrow⟩
    exact ⟨p.1, (hkeys p.1).mpr hi, by rw [hrow]; rfl⟩
  · rintro ⟨i, hi, hrow⟩
    obtain ⟨row, hsome, rfl⟩ := Option.map_eq_some_iff.mp hrow
    exact ⟨(hkeys i).mp hi, hsome⟩

section
variable {α β M : Type*} [AddCommMonoid M]

theorem sum_filterMap (f : α → Option β) (g : β → M) (l : List α) :
    ((l.filterMap f).map g).sum = (l.map fun a => ((f a).map g).getD 0).sum := by
  induction l with
  | nil => rfl
  | cons a l ih =>
    cases hf : f a with
    | none => simp [hf, ih]
    | some b => simp [hf, ih]

theorem sum_filter (p : α → Bool) (g : α → M) (l : List α) :
    ((l.filter p).map g).sum = (l.map fun a => if p a then g a else 0).sum := by
  induction l with
  | nil => rfl
  | cons a l ih =>
    cases hp : p a with
    | true => simp [hp, ih]
    | false => simp [hp, ih]

theorem sum_flatMap (f : α → List β) (g : β → M) (l : List α) :
    ((l.flatMap f).map g).sum = (l.map fun a => ((f a).map g).sum).sum := by
  induction l with
  | nil => rfl
  | cons a l ih => simp [ih]

end

theorem Projects.sum_map {M : Type*} [AddCommMonoid M] (h : Projects rowOf S table)
    (hnd : keys.Nodup) (hkeys : ∀ i, i ∈ keys ↔ i ∈ S) (g : ι × ρ → M) :
    (table.map g).sum = (keys.map fun i => ((rowOf i).map fun row => g (i, row)).getD 0).sum := by
  rw [((h.perm hnd hkeys).map g).sum_eq, sum_filterMap]
  simp only [Option.map_map, Function.comp_def]

theorem Projects.exists_iff (h : Projects rowOf S table) (i : ι) :
    (∃ row, (i, row) ∈ table) ↔ i ∈ S ∧ (rowOf i).isSome := by
  simp only [h.mem_iff, exists_and_left, Option.isSome_iff_exists]

end NostrMash.ProjectedTable
