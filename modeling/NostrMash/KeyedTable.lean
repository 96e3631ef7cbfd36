import Mathlib.Data.Finset.Card

/-!
# Tables with a primary key

A table has at most one row for each key. `update` and `delete` act on the rows that meet a
condition, and `upsert` inserts a row or changes the one that is there. What a statement does is
said by what it does to the row of each key.
-/

namespace NostrMash
open List Option

structure KeyedTable (κ ρ : Type*) where
  rows : List (κ × ρ)
  nodup : (rows.map Prod.fst).Nodup

namespace KeyedTable

variable {κ ρ : Type*}

def empty : KeyedTable κ ρ := ⟨[], nodup_nil⟩

def update (T : KeyedTable κ ρ) (p : κ → ρ → Bool) (f : ρ → ρ) : KeyedTable κ ρ where
  rows := T.rows.map fun row => (row.1, if p row.1 row.2 then f row.2 else row.2)
  nodup := by
    rw [List.map_map]
    exact T.nodup

def delete (T : KeyedTable κ ρ) (p : κ → ρ → Bool) : KeyedTable κ ρ where
  rows := T.rows.filter fun row => !p row.1 row.2
  nodup := T.nodup.sublist (filter_sublist.map _)

variable [DecidableEq κ]

def get (T : KeyedTable κ ρ) (k : κ) : Option ρ := T.rows.lookup k

def upsert (T : KeyedTable κ ρ) (k : κ) (new : ρ) (merge : ρ → ρ) : KeyedTable κ ρ :=
  if h : k ∈ T.rows.map Prod.fst then T.update (fun k' _ => k' = k) merge
  else ⟨(k, new) :: T.rows, nodup_cons.mpr ⟨h, T.nodup⟩⟩

def upsertAll {δ : Type*} (T : KeyedTable κ ρ) (l : List (κ × δ)) (new : δ → ρ)
    (merge : δ → ρ → ρ) : KeyedTable κ ρ :=
  l.foldl (fun T d => T.upsert d.1 (new d.2) (merge d.2)) T

def insertAll (T : KeyedTable κ ρ) (l : List (κ × ρ)) : KeyedTable κ ρ :=
  T.upsertAll l (fun r => r) fun _ r => r

def keys (T : KeyedTable κ ρ) : Finset κ := (T.rows.map Prod.fst).toFinset

variable {T : KeyedTable κ ρ} {k k' : κ} {r : ρ}

theorem lookup_eq_some_iff {rows : List (κ × ρ)} (h : (rows.map Prod.fst).Nodup) :
    rows.lookup k = some r ↔ (k, r) ∈ rows := by
  induction rows with
  | nil => simp
  | cons row rows ih =>
    obtain ⟨k', r'⟩ := row
    obtain ⟨hfirst, hrest⟩ := nodup_cons.mp h
    rw [lookup_cons, mem_cons, Prod.mk.injEq]
    by_cases hk : k = k'
    · subst hk
      have hnot : (k, r) ∉ rows := fun hmem => hfirst (List.mem_map.mpr ⟨_, hmem, rfl⟩)
      simp [hnot, eq_comm]
    · rw [beq_eq_false_iff_ne.mpr hk]
      simp [ih hrest, hk]

theorem mem_rows : (k, r) ∈ T.rows ↔ T.get k = some r := (lookup_eq_some_iff T.nodup).symm

theorem eq_of_mem_rows {a b : κ × ρ} (ha : a ∈ T.rows) (hb : b ∈ T.rows) (h : a.1 = b.1) :
    a = b := by
  have ha' : T.get a.1 = some a.2 := mem_rows.mp ha
  have hb' : T.get b.1 = some b.2 := mem_rows.mp hb
  rw [h] at ha'
  exact Prod.ext h (Option.some.inj (ha'.symm.trans hb'))

theorem get_eq_none_iff : T.get k = none ↔ k ∉ T.rows.map Prod.fst := by
  rw [eq_none_iff_forall_ne_some]
  simp only [ne_eq, ← mem_rows, List.mem_map, Prod.exists, exists_and_right, exists_eq_right,
    not_exists]

@[simp] theorem get_empty : (empty : KeyedTable κ ρ).get k = none := rfl

theorem get_update (p : κ → ρ → Bool) (f : ρ → ρ) :
    (T.update p f).get k = (T.get k).map fun r => if p k r then f r else r := by
  refine ext fun r => ?_
  rw [← mem_rows, map_eq_some_iff]
  show (k, r) ∈ T.rows.map _ ↔ _
  simp only [List.mem_map, Prod.mk.injEq, ← mem_rows]
  constructor
  · rintro ⟨⟨k', r'⟩, hmem, rfl, rfl⟩
    exact ⟨r', hmem, rfl⟩
  · rintro ⟨r', hmem, rfl⟩
    exact ⟨(k, r'), hmem, rfl, rfl⟩

theorem get_delete (p : κ → ρ → Bool) :
    (T.delete p).get k = some r ↔ T.get k = some r ∧ p k r = false := by
  rw [← mem_rows, ← mem_rows]
  show (k, r) ∈ T.rows.filter _ ↔ _
  simp

theorem isSome_get_delete {p : κ → ρ → Bool} (h : T.get k = some r) (hp : p k r = false) :
    ((T.delete p).get k).isSome :=
  isSome_iff_exists.mpr ⟨r, (get_delete p).mpr ⟨h, hp⟩⟩

theorem get_upsert_self (new : ρ) (merge : ρ → ρ) :
    (T.upsert k new merge).get k = some ((T.get k).elim new merge) := by
  unfold upsert
  split_ifs with h
  · rw [get_update]
    obtain ⟨r, hr⟩ := ne_none_iff_exists'.mp (mt get_eq_none_iff.mp (not_not.mpr h))
    simp [hr]
  · rw [get_eq_none_iff.mpr h, ← mem_rows]
    exact .head _

theorem get_upsert_ne (h : k' ≠ k) (new : ρ) (merge : ρ → ρ) :
    (T.upsert k new merge).get k' = T.get k' := by
  unfold upsert
  split_ifs
  · rw [get_update]
    simp [h]
  · refine ext fun r => ?_
    rw [← mem_rows, ← mem_rows]
    simp [Prod.ext_iff, h]

section
variable {δ : Type*} {l : List (κ × δ)} {new : δ → ρ} {merge : δ → ρ → ρ}

theorem get_upsertAll_of_notMem (h : k ∉ l.map Prod.fst) :
    (T.upsertAll l new merge).get k = T.get k := by
  induction l generalizing T with
  | nil => rfl
  | cons d l ih =>
    rw [map_cons, mem_cons, not_or] at h
    exact (ih h.2).trans (get_upsert_ne h.1 _ _)

theorem get_upsertAll_of_mem (hl : (l.map Prod.fst).Nodup) {d : δ} (h : (k, d) ∈ l) :
    (T.upsertAll l new merge).get k = some ((T.get k).elim (new d) (merge d)) := by
  induction l generalizing T with
  | nil => exact nomatch h
  | cons e l ih =>
    obtain ⟨hfirst, hrest⟩ := nodup_cons.mp hl
    rcases mem_cons.mp h with rfl | hmem
    · exact (get_upsertAll_of_notMem hfirst).trans (get_upsert_self _ _)
    · have hne : k ≠ e.1 := fun he => hfirst (List.mem_map.mpr ⟨_, hmem, he⟩)
      refine (ih hrest hmem).trans ?_
      rw [get_upsert_ne hne]

theorem get_insertAll (l : List (κ × ρ)) : (T.insertAll l).get k = (T.get k).or (l.lookup k) := by
  induction l generalizing T with
  | nil => exact (or_none).symm
  | cons d l ih =>
    refine ih.trans ?_
    rw [lookup_cons]
    by_cases hk : k = d.1
    · rw [hk, get_upsert_self, beq_self_eq_true]
      cases T.get d.1 with
      | none => rfl
      | some r => rfl
    · rw [get_upsert_ne hk, beq_eq_false_iff_ne.mpr hk]

theorem get_or_mem_of_get_insertAll {l : List (κ × ρ)} (h : (T.insertAll l).get k = some r) :
    T.get k = some r ∨ (k, r) ∈ l := by
  rw [get_insertAll, or_eq_some_iff] at h
  rcases h with h | ⟨-, h⟩
  · exact .inl h
  · obtain ⟨l₁, l₂, rfl, -⟩ := List.lookup_eq_some_iff.mp h
    exact .inr (mem_append_right l₁ (.head _))

/-- A row of the list is there afterwards, itself or the one it conflicts with. -/
theorem isSome_get_insertAll {l : List (κ × ρ)} (h : (k, r) ∈ l) :
    ((T.insertAll l).get k).isSome := by
  rw [get_insertAll, isSome_or, Bool.or_eq_true]
  exact .inr (lookup_isSome_iff.mpr ⟨_, h, beq_self_eq_true k⟩)

theorem isSome_get_insertAll_of_isSome (h : (T.get k).isSome) (l : List (κ × ρ)) :
    ((T.insertAll l).get k).isSome := by
  rw [get_insertAll, isSome_or, h, Bool.true_or]

end

theorem mem_keys : k ∈ T.keys ↔ (T.get k).isSome := by
  rw [keys, List.mem_toFinset, ← not_iff_not, ← get_eq_none_iff, not_isSome_iff_eq_none]

theorem mem_keys_upsert (new : ρ) (merge : ρ → ρ) :
    k' ∈ (T.upsert k new merge).keys ↔ k' = k ∨ k' ∈ T.keys := by
  by_cases h : k' = k
  · subst h
    simp [mem_keys, get_upsert_self]
  · simp [mem_keys, get_upsert_ne h, h]

theorem mem_keys_upsertAll {δ : Type*} {l : List (κ × δ)} {new : δ → ρ} {merge : δ → ρ → ρ} :
    k ∈ (T.upsertAll l new merge).keys ↔ k ∈ l.map Prod.fst ∨ k ∈ T.keys := by
  induction l generalizing T with
  | nil => simp [upsertAll]
  | cons d l ih =>
    refine ih.trans ?_
    rw [mem_keys_upsert, map_cons, mem_cons]
    tauto

theorem card_filter_keys (p : κ → Prop) [DecidablePred p] :
    (T.keys.filter p).card = T.rows.countP fun row => p row.1 := by
  have hfilter : T.keys.filter p = ((T.rows.map Prod.fst).filter fun k => p k).toFinset := by
    rw [keys, toFinset_filter]
    simp
  rw [hfilter, toFinset_card_of_nodup (T.nodup.filter _), ← countP_eq_length_filter, countP_map]
  rfl

end KeyedTable
end NostrMash
