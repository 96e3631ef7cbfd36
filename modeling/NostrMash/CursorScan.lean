import NostrMash.KeysetPaging
import Mathlib.Data.List.MinMax

/-!
# Bounded scans in ascending order of key

A sweep reads the first `n` rows in ascending order of key and moves its cursor to the key of the
last one.
-/

namespace NostrMash
open List
variable {α κ : Type*} [LinearOrder κ] {key : α → κ} {n : ℕ} {rows : List α} {x y : α}

def ascending (key : α → κ) (rows : List α) : List α :=
  KeysetPaging.descending (fun a => OrderDual.toDual (key a)) rows

def scan (key : α → κ) (n : ℕ) (rows : List α) : List α := (ascending key rows).take n

theorem mem_ascending : x ∈ ascending key rows ↔ x ∈ rows :=
  (KeysetPaging.perm_descending rows).mem_iff

theorem pairwise_ascending (rows : List α) :
    (ascending key rows).Pairwise fun a b => key a ≤ key b := by
  have h : (ascending key rows).Pairwise
      fun a b => OrderDual.toDual (key b) ≤ OrderDual.toDual (key a) :=
    KeysetPaging.pairwise_descending rows
  exact h.imp OrderDual.toDual_le_toDual.mp

theorem mem_of_mem_scan (h : x ∈ scan key n rows) : x ∈ rows :=
  mem_ascending.mp (mem_of_mem_take h)

theorem le_of_notMem_scan (hx : x ∈ rows) (hn : x ∉ scan key n rows) (hy : y ∈ scan key n rows) :
    key y ≤ key x := by
  have hsorted : (ascending key rows).Pairwise fun a b => key a ≤ key b := pairwise_ascending rows
  have hmem : x ∈ ascending key rows := mem_ascending.mpr hx
  rw [← take_append_drop n (ascending key rows)] at hsorted hmem
  have hdrop := (mem_append.mp hmem).resolve_left hn
  exact (pairwise_append.mp hsorted).2.2 y hy x hdrop

theorem mem_scan_of_le_last (hinj : ∀ a ∈ rows, ∀ b ∈ rows, key a = key b → a = b)
    (hlast : y ∈ (scan key n rows).getLast?) (hx : x ∈ rows) (hle : key x ≤ key y) :
    x ∈ scan key n rows := by
  have hy : y ∈ scan key n rows := List.mem_of_mem_getLast? hlast
  by_contra hn
  have hkey : key x = key y := le_antisymm hle (le_of_notMem_scan hx hn hy)
  exact hn (hinj x hx y (mem_of_mem_scan hy) hkey ▸ hy)

theorem mem_scan_of_length_lt (hlen : (scan key n rows).length < n) (hx : x ∈ rows) :
    x ∈ scan key n rows := by
  rw [scan, length_take] at hlen
  rw [scan, take_of_length_le (by omega)]
  exact mem_ascending.mpr hx

def greatest (key : α → κ) (rows : List α) : Option α := rows.argmax key

@[simp] theorem greatest_nil : greatest key [] = none := rfl

theorem greatest_concat (rows : List α) (x : α) : greatest key (rows ++ [x]) =
    (greatest key rows).elim (some x) fun y => if key y < key x then some x else some y := by
  unfold greatest
  rw [argmax_concat]
  cases rows.argmax key with
  | none => rfl
  | some y => rfl

end NostrMash
