import Mathlib.Data.List.Nodup
import Mathlib.Data.List.DropRight
import Mathlib.Order.Nat

/-!
# Reading a listing page by page

A page is the beginning of what remains of a listing, and its cursor is the last row of it when
there are more. `Pages` says of a page function that it returns these pages.
-/

namespace NostrMash.PageScan
open List Nat

section
variable {α ρ γ : Type*}

def cut (limit : ℕ) (rows : List α) : List α × Option α :=
  (rows.take limit, if limit < rows.length then (rows.take limit).getLast? else none)

/-- The page function returns the pages of `L`, at least from the first `start` rows on. -/
def Pages (page : Option γ → List ρ × Option γ) (raw : α → ρ) (cursorOf : α → γ) (limit start : ℕ)
    (L : List α) : Prop :=
  ∀ U V, L = U ++ V → start ≤ U.length →
    page (U.getLast?.map cursorOf) = Prod.map (List.map raw) (Option.map cursorOf) (cut limit V)

variable {page : Option γ → List ρ × Option γ} {raw : α → ρ} {cursorOf : α → γ}
  {limit start : ℕ} {L U V : List α}

theorem cut_take (limit : ℕ) (rows : List α) :
    cut limit (rows.take (limit + 1)) = cut limit rows := by
  have hlen : limit < (rows.take (limit + 1)).length ↔ limit < rows.length := by
    rw [length_take]
    omega
  rw [cut, take_take, min_eq_left (le_succ limit), cut]
  simp only [hlen]

theorem cut_map {β : Type*} (f : α → β) (limit : ℕ) (rows : List α) :
    cut limit (rows.map f) = Prod.map (List.map f) (Option.map f) (cut limit rows) := by
  simp only [cut, length_map, ← map_take, List.getLast?_map, Prod.map]
  split_ifs <;> rfl

theorem cut_of_length_le (h : V.length ≤ limit) : cut limit V = (V, none) := by
  rw [cut, take_of_length_le h, if_neg (by omega)]

/-- A page that is not the last one ends in a row, and the next page starts behind it. -/
theorem cut_of_lt (hlimit : 0 < limit) (h : limit < V.length) :
    ∃ A a B, V = (A ++ [a]) ++ B ∧ cut limit V = (A ++ [a], some a) := by
  have hne : V.take limit ≠ [] := by
    intro h0
    have hlen := congrArg List.length h0
    rw [length_take, length_nil] at hlen
    omega
  obtain ⟨A, a, hA⟩ := (eq_nil_or_concat (V.take limit)).resolve_left hne
  rw [concat_eq_append] at hA
  refine ⟨A, a, V.drop limit, ?_, ?_⟩
  · rw [← hA, take_append_drop]
  · rw [cut, if_pos h, hA, List.getLast?_concat]

end

section
variable {α ρ γ μ σ β : Type*} [DecidableEq μ]

/-- The pages from a cursor on, if at most `n` remain. -/
def walk (page : Option γ → List ρ × Option γ) (visit : σ → List ρ → Except β σ) (mark : γ → μ) :
    ℕ → Option γ → List μ → σ → Option (Except β σ)
  | 0, _, _, _ => none
  | n + 1, cursor, seen, s =>
    match visit s (page cursor).1 with
    | .error result => some (.error result)
    | .ok s' =>
      match (page cursor).2 with
      | none => some (.ok s')
      | some next =>
        if (page cursor).1.isEmpty ∨ mark next ∈ seen then some (.ok s')
        else walk page visit mark n (some next) (mark next :: seen) s'

variable {page : Option γ → List ρ × Option γ} {visit : σ → List ρ → Except β σ} {mark : γ → μ}
  {raw : α → ρ} {cursorOf : α → γ} {limit start : ℕ} {L : List α}

/-- A walk takes all rows of the listing into the state, as if they were one page. -/
theorem walk_eq (hpages : Pages page raw cursorOf limit start L) (hlimit : 0 < limit)
    (hmark : (L.map fun a => mark (cursorOf a)).Nodup)
    (hvisit : ∀ s as bs, visit s (as ++ bs) = (visit s as).bind (visit · bs)) (n : ℕ) :
    ∀ U V seen s, V.length < n → L = U ++ V → start ≤ U.length →
      (∀ m ∈ seen, m ∈ U.map fun a => mark (cursorOf a)) →
      walk page visit mark n (U.getLast?.map cursorOf) seen s = some (visit s (V.map raw)) := by
  induction n with
  | zero => exact fun U V seen s hn => absurd hn (Nat.not_lt_zero _)
  | succ n ih =>
    intro U V seen s hn hL hstart hseen
    rw [walk, hpages U V hL hstart]
    by_cases hmore : limit < V.length
    · obtain ⟨A, a, B, rfl, hcut⟩ := cut_of_lt hlimit hmore
      have hsplit : (A ++ [a] ++ B).map raw = (A ++ [a]).map raw ++ B.map raw := map_append
      simp only [hcut, Prod.map, Option.map_some, hsplit, hvisit]
      cases hA : visit s ((A ++ [a]).map raw) with
      | error result => rfl
      | ok s' =>
        have hnew : mark (cursorOf a) ∉ seen := by
          intro hold
          rw [hL, map_append, nodup_append] at hmark
          exact hmark.2.2 _ (hseen _ hold) _ (mem_map_of_mem (by simp)) rfl
        have hne : ((A ++ [a]).map raw).isEmpty = false := by simp
        simp only [hne, hnew, or_self, Bool.false_eq_true, if_false]
        have hlast : (U ++ (A ++ [a])).getLast?.map cursorOf = some (cursorOf a) := by simp
        rw [← hlast]
        refine ih (U ++ (A ++ [a])) B _ s' ?_ ?_ ?_ ?_
        · simp only [length_append, length_singleton] at hn
          omega
        · rw [hL, append_assoc U]
        · rw [length_append]
          omega
        · intro m hm
          rw [map_append]
          rcases mem_cons.mp hm with rfl | hm
          · exact mem_append_right _ (mem_map_of_mem (by simp))
          · exact mem_append_left _ (hseen m hm)
    · rw [cut_of_length_le (Nat.le_of_not_lt hmore)]
      simp only [Prod.map, Option.map_none]
      cases visit s (V.map raw) with
      | error result => rfl
      | ok s' => rfl

end

section
variable {α ρ γ : Type*}

def follow (request : Option γ → Option (List ρ × Option γ)) : ℕ → Option γ → Option (List ρ)
  | 0, _ => none
  | n + 1, cursor => (request cursor).bind fun
    | (rows, none) => some rows
    | (rows, some next) => (follow request n (some next)).map (rows ++ ·)

variable {request : Option γ → Option (List ρ × Option γ)} {page : Option γ → List ρ × Option γ}
  {raw : α → ρ} {cursorOf : α → γ} {limit start : ℕ} {L : List α}

theorem follow_eq (hpages : Pages page raw cursorOf limit start L) (hlimit : 0 < limit)
    (hreturn : ∀ cursor, request cursor = some (page cursor)) (n : ℕ) :
    ∀ U V, V.length < n → L = U ++ V → start ≤ U.length →
      follow request n (U.getLast?.map cursorOf) = some (V.map raw) := by
  induction n with
  | zero => exact fun U V hn => absurd hn (Nat.not_lt_zero _)
  | succ n ih =>
    intro U V hn hL hstart
    rw [follow, hreturn, Option.bind_some, hpages U V hL hstart]
    by_cases hmore : limit < V.length
    · obtain ⟨A, a, B, rfl, hcut⟩ := cut_of_lt hlimit hmore
      have hlast : (U ++ (A ++ [a])).getLast?.map cursorOf = some (cursorOf a) := by simp
      simp only [hcut, Prod.map, Option.map_some]
      rw [← hlast, ih (U ++ (A ++ [a])) B]
      · exact congrArg some map_append.symm
      · simp only [length_append, length_singleton] at hn
        omega
      · rw [hL, append_assoc U]
      · rw [length_append]
        omega
    · rw [cut_of_length_le (Nat.le_of_not_lt hmore)]
      rfl

theorem follow_mono {n m : ℕ} (hnm : n ≤ m) {cursor : Option γ} {rows : List ρ}
    (h : follow request n cursor = some rows) : follow request m cursor = some rows := by
  induction n generalizing m cursor rows with
  | zero => cases h
  | succ n ih =>
    obtain ⟨m, rfl⟩ := exists_eq_succ_of_ne_zero (by omega : m ≠ 0)
    rw [follow, Option.bind_eq_some_iff] at h ⊢
    obtain ⟨⟨shown, next⟩, hp, h⟩ := h
    refine ⟨(shown, next), hp, ?_⟩
    cases next with
    | none => exact h
    | some c =>
      obtain ⟨rest, hrest, hrows⟩ := Option.map_eq_some_iff.mp h
      exact Option.map_eq_some_iff.mpr ⟨rest, ih (le_of_succ_le_succ hnm) hrest, hrows⟩

/-- Whatever the number of pages, the rows that are read are those of the listing. -/
theorem follow_iff (hpages : Pages page raw cursorOf limit 0 L) (hlimit : 0 < limit)
    (hreturn : ∀ cursor, request cursor = some (page cursor)) {P : List ρ → Prop} :
    (∃ n rows, follow request n none = some rows ∧ P rows) ↔ P (L.map raw) := by
  have hall : follow request (L.length + 1) none = some (L.map raw) :=
    follow_eq hpages hlimit hreturn _ [] L (lt_succ_self _) rfl le_rfl
  constructor
  · rintro ⟨n, rows, hn, hP⟩
    have hmax := follow_mono (le_max_left n (L.length + 1)) hn
    rw [follow_mono (le_max_right n (L.length + 1)) hall] at hmax
    exact Option.some.inj hmax ▸ hP
  · exact fun hP => ⟨_, _, hall, hP⟩

end

variable {α : Type*}

theorem rtake_append_rtake (l m : List α) (n : ℕ) :
    (l.rtake n ++ m).rtake n = (l ++ m).rtake n := by
  simp only [rtake_eq_reverse_take_reverse, reverse_append, reverse_reverse, take_append, take_take]
  rw [min_eq_left (sub_le _ _)]

theorem rtake_of_length_le {l : List α} {n : ℕ} (h : l.length ≤ n) : l.rtake n = l := by
  rw [List.rtake, Nat.sub_eq_zero_of_le h, drop_zero]

theorem length_rtake_le (l : List α) (n : ℕ) : (l.rtake n).length ≤ n := by
  rw [List.rtake, length_drop]
  omega

end NostrMash.PageScan
