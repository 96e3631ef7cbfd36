import NostrMash.CursorScan

/-!
# Draining a table in batches

A job reads the rows behind its cursor in ascending order of key, at most `size` of them, takes
them into its state and moves the cursor to the last one. It ends with a batch that is empty or not
full, or with the error of a row.
-/

namespace NostrMash.KeysetBatches
open List
variable {α κ σ ε : Type*} [LinearOrder κ]

def batch (key : α → κ) (size : ℕ) (rows : List α) (cursor : κ) : List α :=
  scan key size (rows.filter fun a => cursor < key a)

def drain (key : α → κ) (size : ℕ) (rows : List α) (visit : σ → List α → Except ε σ) :
    ℕ → κ → σ → Option (Except ε σ)
  | 0, _, _ => none
  | n + 1, cursor, s =>
    match (batch key size rows cursor).getLast? with
    | none => some (.ok s)
    | some last =>
      match visit s (batch key size rows cursor) with
      | .error e => some (.error e)
      | .ok s' =>
        if (batch key size rows cursor).length < size then some (.ok s')
        else drain key size rows visit n (key last) s'

variable {key : α → κ} {size : ℕ} {rows U V : List α} {visit : σ → List α → Except ε σ}

theorem perm_ascending (rows : List α) : (ascending key rows).Perm rows :=
  KeysetPaging.perm_descending rows

theorem ascending_eq {l S : List α} (hp : l.Perm S) (hS : S.Pairwise fun a b => key a ≤ key b)
    (hnd : (S.map key).Nodup) : ascending key l = S :=
  KeysetPaging.descending_eq hp (hS.imp OrderDual.toDual_le_toDual.mpr) hnd

theorem ascending_filter_last {last : α} (hS : ascending key rows = U ++ [last] ++ V)
    (hnd : (rows.map key).Nodup) : ascending key (rows.filter fun a => key last < key a) = V := by
  have hperm : rows.Perm (U ++ [last] ++ V) := hS ▸ (perm_ascending rows).symm
  have hsorted : (U ++ [last] ++ V).Pairwise fun a b => key a ≤ key b :=
    hS ▸ pairwise_ascending rows
  have hkeys : ((U ++ [last] ++ V).map key).Nodup := (hperm.map key).nodup_iff.mp hnd
  rw [map_append, nodup_append] at hkeys
  rw [pairwise_append] at hsorted
  have hlast : last ∈ U ++ [last] := mem_append_right U (.head _)
  have hU : (U ++ [last]).filter (fun a => key last < key a) = [] := by
    rw [filter_eq_nil_iff]
    intro a ha
    rw [decide_eq_true_eq, not_lt]
    rcases mem_append.mp ha with h | h
    · exact (pairwise_append.mp hsorted.1).2.2 a h last (.head _)
    · rw [mem_singleton.mp h]
  have hV : V.filter (fun a => key last < key a) = V := by
    rw [filter_eq_self]
    intro v hv
    have hne := hkeys.2.2 (key last) (mem_map_of_mem hlast) (key v) (mem_map_of_mem hv)
    exact decide_eq_true (lt_of_le_of_ne (hsorted.2.2 last hlast v hv) hne)
  apply ascending_eq _ hsorted.2.1 hkeys.2.1
  have hfilter := hperm.filter fun a => key last < key a
  rwa [filter_append, hU, hV, nil_append] at hfilter

theorem drain_eq_of_remaining (hnd : (rows.map key).Nodup) (hsize : 0 < size)
    (hnil : ∀ s, visit s [] = .ok s)
    (hvisit : ∀ s as bs, visit s (as ++ bs) = (visit s as).bind (visit · bs)) (n : ℕ) :
    ∀ U V cursor s, V.length < n → ascending key rows = U ++ V →
      ascending key (rows.filter fun a => cursor < key a) = V →
      drain key size rows visit n cursor s = some (visit s V) := by
  induction n with
  | zero => exact fun U V cursor s hn => absurd hn (Nat.not_lt_zero _)
  | succ n ih =>
    intro U V cursor s hn hS hV
    have hbatch : batch key size rows cursor = V.take size := by rw [batch, scan, hV]
    rw [drain, hbatch]
    rcases eq_nil_or_concat (V.take size) with hempty | ⟨A, last, hA⟩
    · have hVnil : V = [] := (take_eq_nil_iff.mp hempty).resolve_left hsize.ne'
      rw [hempty, hVnil, hnil]
      rfl
    · rw [concat_eq_append] at hA
      have hsplit : V = A ++ [last] ++ V.drop size := by rw [← hA, take_append_drop]
      rw [hA, List.getLast?_concat]
      simp only
      have hall : visit s V = (visit s (A ++ [last])).bind (visit · (V.drop size)) := by
        rw [← hvisit, ← hsplit]
      cases hA' : visit s (A ++ [last]) with
      | error e => rw [hall, hA']; rfl
      | ok s' =>
        have hrest : visit s V = visit s' (V.drop size) := by rw [hall, hA']; rfl
        simp only
        rw [← hA, length_take]
        split_ifs with hshort
        · rw [hrest, drop_of_length_le (by omega), hnil]
        · rw [hrest]
          refine ih (U ++ (A ++ [last])) (V.drop size) (key last) s' ?_ ?_ ?_
          · rw [length_drop]
            omega
          · rw [append_assoc, ← hsplit, hS]
          · refine ascending_filter_last ?_ hnd (U := U ++ A)
            rw [append_assoc U, append_assoc U, ← hsplit, hS]

/-- A drain takes in all rows, as if they were one batch. -/
theorem drain_eq (hnd : (rows.map key).Nodup) (hsize : 0 < size) (hnil : ∀ s, visit s [] = .ok s)
    (hvisit : ∀ s as bs, visit s (as ++ bs) = (visit s as).bind (visit · bs))
    {n : ℕ} (hn : rows.length < n) {cursor : κ} (hcursor : ∀ a ∈ rows, cursor < key a) (s : σ) :
    drain key size rows visit n cursor s = some (visit s (ascending key rows)) := by
  refine drain_eq_of_remaining hnd hsize hnil hvisit n [] _ cursor s ?_ rfl ?_
  · rwa [(perm_ascending rows).length_eq]
  · rw [filter_eq_self.mpr fun a ha => decide_eq_true (hcursor a ha)]

end NostrMash.KeysetBatches
