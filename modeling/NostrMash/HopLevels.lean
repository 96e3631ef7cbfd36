import Mathlib.Data.List.Dedup
import Mathlib.Data.List.Range
import Mathlib.Data.Nat.Find

/-!
# Hops from a set of seeds

The nodes that are reached after exactly `k` hops form a level. A recursive query with a bound on the
hops returns the levels up to the bound, one row for each node and level.
-/

namespace NostrMash.HopLevels
open List
variable {α : Type*} {next : α → List α} {seeds : List α} {p : α} {k : ℕ}

/-- A walk of `k` hops from a seed. -/
inductive Reaches (next : α → List α) (seeds : List α) : ℕ → α → Prop
  | seed {p : α} (h : p ∈ seeds) : Reaches next seeds 0 p
  | hop {k : ℕ} {p q : α} (h : Reaches next seeds k p) (hq : q ∈ next p) :
      Reaches next seeds (k + 1) q

def IsDistance (next : α → List α) (seeds : List α) (p : α) (k : ℕ) : Prop :=
  Reaches next seeds k p ∧ ∀ j < k, ¬ Reaches next seeds j p

theorem IsDistance.unique {j : ℕ} (h : IsDistance next seeds p k) (h' : IsDistance next seeds p j) :
    k = j :=
  le_antisymm (not_lt.mp fun hlt => h.2 j hlt h'.1) (not_lt.mp fun hlt => h'.2 k hlt h.1)

theorem isDistance_zero : IsDistance next seeds p 0 ↔ p ∈ seeds :=
  ⟨fun | ⟨.seed h, _⟩ => h, fun h => ⟨.seed h, nofun⟩⟩

theorem Reaches.exists_isDistance (h : Reaches next seeds k p) :
    ∃ j ≤ k, IsDistance next seeds p j := by
  classical
  have hex : ∃ k, Reaches next seeds k p := ⟨k, h⟩
  exact ⟨Nat.find hex, Nat.find_min' hex h, Nat.find_spec hex, fun _ => Nat.find_min hex⟩

theorem Reaches.mono {next' : α → List α} {seeds' : List α} (hnext : ∀ p, next p ⊆ next' p)
    (hseeds : seeds ⊆ seeds') (h : Reaches next seeds k p) : Reaches next' seeds' k p := by
  induction h with
  | seed h => exact .seed (hseeds h)
  | hop _ hq ih => exact .hop ih (hnext _ hq)

variable [DecidableEq α] (next seeds)

def level : ℕ → List α
  | 0 => seeds.dedup
  | k + 1 => ((level k).flatMap next).dedup

def rows (maxHops : ℕ) : List (α × ℕ) :=
  (range (maxHops + 1)).flatMap fun k => (level next seeds k).map fun p => (p, k)

variable {next seeds}

theorem mem_level : p ∈ level next seeds k ↔ Reaches next seeds k p := by
  induction k generalizing p with
  | zero => exact mem_dedup.trans ⟨.seed, fun | .seed h => h⟩
  | succ k ih =>
    simp only [level, mem_dedup, mem_flatMap, ih]
    exact ⟨fun ⟨_, hq, hp⟩ => .hop hq hp, fun | .hop hq hp => ⟨_, hq, hp⟩⟩

theorem mem_rows {maxHops : ℕ} :
    (p, k) ∈ rows next seeds maxHops ↔ k ≤ maxHops ∧ p ∈ level next seeds k := by
  simp [rows, Nat.lt_succ_iff]

/-- The first row of a node has its distance. -/
theorem lookup_rows {maxHops : ℕ} :
    (rows next seeds maxHops).lookup p = some k ↔ k ≤ maxHops ∧ IsDistance next seeds p k := by
  rw [← Nat.lt_add_one_iff, rows]
  generalize maxHops + 1 = n
  induction n with
  | zero => simp
  | succ n ih =>
    have hnone : ((range n).flatMap fun k => (level next seeds k).map fun p => (p, k)).lookup p =
        none ↔ ∀ j < n, ¬ Reaches next seeds j p := by
      simp [lookup_eq_none_iff, ← mem_level]
      grind
    have hlast : ((level next seeds n).map fun p => (p, n)).lookup p = some k ↔
        k = n ∧ Reaches next seeds n p := by
      rw [← mem_level]
      generalize level next seeds n = l
      induction l with
      | nil => simp
      | cons q l ih =>
        rw [map_cons, lookup_cons, mem_cons]
        by_cases hq : p = q
        · simp [hq, eq_comm]
        · simpa [beq_false_of_ne hq, hq] using ih
    rw [range_succ, flatMap_append, lookup_append, Option.or_eq_some_iff, ih, hnone,
      flatMap_singleton, hlast]
    unfold IsDistance
    grind

/-- What holds of the seeds and passes along every hop holds on every level. -/
theorem level_induction {P : α → Prop} (hseeds : ∀ p ∈ seeds, P p)
    (hnext : ∀ p, P p → ∀ q ∈ next p, P q) (k : ℕ) : ∀ p ∈ level next seeds k, P p := by
  induction k with
  | zero => exact fun p hp => hseeds p (mem_dedup.mp hp)
  | succ k ih =>
    intro q hq
    obtain ⟨p, hp, hpq⟩ := mem_flatMap.mp (mem_dedup.mp hq)
    exact hnext p (ih p hp) q hpq

end NostrMash.HopLevels
