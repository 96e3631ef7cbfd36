import Mathlib

/-!
# Counters with a ledger of applied deltas

A table has rows by key, and a row has counters by field. A delta is added to a row with its
counters clamped at zero, and makes the row if there is none, without a clamp. A ledger lists what
has been applied.
-/

namespace NostrMash.Counters
open List
variable {K F : Type*} [DecidableEq K]

abbrev Table (K F : Type*) := K → Option (F → ℤ)

abbrev Delta (K F : Type*) := K × (F → ℤ)

def total (t : Table K F) (k : K) (f : F) : ℤ := ((t k).map (· f)).getD 0

def upsert (t : Table K F) (d : Delta K F) : Table K F :=
  Function.update t d.1 (some fun f =>
    match t d.1 with
    | none => d.2 f
    | some row => max (row f + d.2 f) 0)

def upsertAll (t : Table K F) (ds : List (Delta K F)) : Table K F := ds.foldl upsert t

def amount (ds : List (Delta K F)) (k : K) (f : F) : ℤ :=
  (ds.map fun d => if d.1 = k then d.2 f else 0).sum

def negate (ds : List (Delta K F)) : List (Delta K F) := ds.map fun d => (d.1, fun f => -d.2 f)

def NonNeg (ds : List (Delta K F)) : Prop := ∀ d ∈ ds, ∀ f, 0 ≤ d.2 f

variable {ds : List (Delta K F)}

section
variable {t : Table K F}

@[simp] theorem amount_nil (k : K) (f : F) : amount ([] : List (Delta K F)) k f = 0 := rfl

theorem amount_cons (d : Delta K F) (ds : List (Delta K F)) (k : K) (f : F) :
    amount (d :: ds) k f = (if d.1 = k then d.2 f else 0) + amount ds k f := rfl

theorem NonNeg.amount_nonneg (h : NonNeg ds) (k : K) (f : F) :
    0 ≤ amount ds k f := by
  apply sum_nonneg
  intro x hx
  obtain ⟨d, hd, rfl⟩ := mem_map.mp hx
  split_ifs
  · exact h d hd f
  · exact le_rfl

theorem total_upsert (d : Delta K F) (k : K) (f : F) (h : d.1 = k → 0 ≤ total t k f + d.2 f) :
    total (upsert t d) k f = total t k f + if d.1 = k then d.2 f else 0 := by
  by_cases hk : d.1 = k
  · subst hk
    have hsum := h rfl
    cases hrow : t d.1 with
    | none => simp [total, upsert, hrow]
    | some row =>
      simp only [total, hrow, Option.map_some, Option.getD_some] at hsum
      simp [total, upsert, hrow, hsum]
  · simp [total, upsert, hk, Function.update_of_ne (Ne.symm hk)]

theorem total_upsertAll (hds : NonNeg ds) (ht : ∀ k f, 0 ≤ total t k f) (k : K) (f : F) :
    total (upsertAll t ds) k f = total t k f + amount ds k f := by
  induction ds generalizing t with
  | nil => simp [upsertAll]
  | cons d ds ih =>
    have hd : ∀ f, 0 ≤ d.2 f := hds d (.head _)
    have hstep : ∀ k f, total (upsert t d) k f = total t k f + if d.1 = k then d.2 f else 0 :=
      fun k f => total_upsert d k f fun _ => add_nonneg (ht k f) (hd f)
    have hnn : ∀ k f, 0 ≤ total (upsert t d) k f := fun k f => by
      rw [hstep]
      split_ifs
      · exact add_nonneg (ht k f) (hd f)
      · simpa using ht k f
    have hrest := ih (fun e he => hds e (.tail _ he)) hnn
    rw [amount_cons, ← add_assoc, ← hstep]
    exact hrest

theorem total_upsertAll_negate (hds : NonNeg ds) (ht : ∀ k f, amount ds k f ≤ total t k f) (k : K)
    (f : F) :
    total (upsertAll t (negate ds)) k f = total t k f - amount ds k f := by
  induction ds generalizing t with
  | nil => simp [upsertAll, negate]
  | cons d ds ih =>
    have hrest : NonNeg ds := fun e he => hds e (.tail _ he)
    have hstep : ∀ k f, total (upsert t (d.1, fun f => -d.2 f)) k f =
        total t k f - if d.1 = k then d.2 f else 0 := fun k f => by
      rw [total_upsert]
      · split_ifs
        · rfl
        · simp
      · rintro rfl
        have hle := ht d.1 f
        rw [amount_cons, if_pos rfl] at hle
        have := hrest.amount_nonneg d.1 f
        simp only
        omega
    have hle : ∀ k f, amount ds k f ≤ total (upsert t (d.1, fun f => -d.2 f)) k f := fun k f => by
      have h := ht k f
      rw [amount_cons] at h
      rw [hstep]
      omega
    have hind := ih hrest hle
    rw [amount_cons, sub_add_eq_sub_sub, ← hstep]
    exact hind

end

section
variable {ρ : Type*} (deltas : ρ → List (Delta K F))

def ledgerSum (ledger : List ρ) (k : K) (f : F) : ℤ :=
  (ledger.map fun r => amount (deltas r) k f).sum

def Balanced (t : Table K F) (ledger : List ρ) : Prop :=
  ∀ k f, total t k f = ledgerSum deltas ledger k f

variable {deltas} {t : Table K F} {ledger : List ρ} {r : ρ}

theorem ledgerSum_cons (k : K) (f : F) :
    ledgerSum deltas (r :: ledger) k f = amount (deltas r) k f + ledgerSum deltas ledger k f := rfl

theorem ledgerSum_nonneg (h : ∀ r ∈ ledger, NonNeg (deltas r)) (k : K) (f : F) :
    0 ≤ ledgerSum deltas ledger k f := by
  apply sum_nonneg
  intro x hx
  obtain ⟨r, hr, rfl⟩ := mem_map.mp hx
  exact (h r hr).amount_nonneg k f

theorem Balanced.claim (hb : Balanced deltas t ledger) (hl : ∀ r' ∈ ledger, NonNeg (deltas r'))
    (hr : NonNeg (deltas r)) :
    Balanced deltas (upsertAll t (deltas r)) (r :: ledger) := by
  intro k f
  rw [total_upsertAll hr (fun k f => (ledgerSum_nonneg hl k f).trans_eq (hb k f).symm),
    ledgerSum_cons, hb k f, add_comm]

theorem Balanced.unclaim {rest : List ρ} (hb : Balanced deltas t ledger)
    (hp : ledger.Perm (r :: rest)) (hl : ∀ r' ∈ ledger, NonNeg (deltas r')) :
    Balanced deltas (upsertAll t (negate (deltas r))) rest := by
  have hsum : ∀ k f, total t k f = amount (deltas r) k f + ledgerSum deltas rest k f :=
    fun k f => by
    rw [hb, ledgerSum, (hp.map _).sum_eq, ← ledgerSum, ledgerSum_cons]
  have hrest : ∀ r' ∈ rest, NonNeg (deltas r') := fun r' h =>
    hl r' (hp.mem_iff.mpr (.tail _ h))
  intro k f
  rw [total_upsertAll_negate (hl r (hp.mem_iff.mpr (.head _)))]
  · rw [hsum]
    omega
  · intro k f
    have := ledgerSum_nonneg hrest k f
    rw [hsum]
    omega

end

def upsertRows : List (Delta K F) → Delta K F → List (Delta K F)
  | [], d => [d]
  | row :: rows, d =>
    if row.1 = d.1 then (row.1, fun f => max (row.2 f + d.2 f) 0) :: rows
    else row :: upsertRows rows d

def rowSum (p : K → Bool) (f : F) (rows : List (Delta K F)) : ℤ :=
  (rows.map fun row => if p row.1 then row.2 f else 0).sum

omit [DecidableEq K] in
theorem rowSum_append (p : K → Bool) (f : F) (a b : List (Delta K F)) :
    rowSum p f (a ++ b) = rowSum p f a + rowSum p f b := by
  simp [rowSum]

omit [DecidableEq K] in
theorem rowSum_filter (q p : K → Bool) (f : F) (rows : List (Delta K F)) :
    rowSum p f (rows.filter fun row => q row.1) = rowSum (fun k => q k && p k) f rows := by
  induction rows with
  | nil => rfl
  | cons row rows ih =>
    cases hq : q row.1 with
    | true => simpa [rowSum, hq] using ih
    | false => simpa [rowSum, hq] using ih

omit [DecidableEq K] in
theorem rowSum_flatMap {α : Type*} (p : K → Bool) (f : F) (ds : α → List (Delta K F)) (l : List α) :
    rowSum p f (l.flatMap ds) = (l.map fun a => rowSum p f (ds a)).sum := by
  induction l with
  | nil => rfl
  | cons a l ih => rw [flatMap_cons, rowSum_append, ih, map_cons, sum_cons]

variable {d : Delta K F} {rows : List (Delta K F)}

theorem nonNeg_upsertRows (hrows : NonNeg rows) (hd : ∀ f, 0 ≤ d.2 f) :
    NonNeg (upsertRows rows d) := by
  induction rows with
  | nil =>
    intro r hr
    rw [mem_singleton.mp hr]
    exact hd
  | cons row rows ih =>
    have hrest : NonNeg rows := fun r hr => hrows r (.tail _ hr)
    intro r hr
    rw [upsertRows] at hr
    split_ifs at hr
    · rcases mem_cons.mp hr with rfl | hr
      · exact fun f => le_max_right _ _
      · exact hrest r hr
    · rcases mem_cons.mp hr with rfl | hr
      · exact hrows r (.head _)
      · exact ih hrest r hr

theorem rowSum_upsertRows (hrows : NonNeg rows) (hd : ∀ f, 0 ≤ d.2 f) (p : K → Bool) (f : F) :
    rowSum p f (upsertRows rows d) = rowSum p f rows + rowSum p f [d] := by
  induction rows with
  | nil => simp [upsertRows, rowSum]
  | cons row rows ih =>
    have hrest : NonNeg rows := fun r hr => hrows r (.tail _ hr)
    by_cases hk : row.1 = d.1
    · have hmax : max (row.2 f + d.2 f) 0 = row.2 f + d.2 f :=
        max_eq_left (add_nonneg (hrows row (.head _) f) (hd f))
      simp only [upsertRows, hk, if_true, rowSum, map_cons, sum_cons, map_nil, sum_nil, hmax]
      split_ifs <;> omega
    · have hind := ih hrest
      simp only [rowSum, map_cons, sum_cons, map_nil, sum_nil] at hind
      simp only [upsertRows, hk, if_false, rowSum, map_cons, sum_cons, map_nil, sum_nil]
      omega

theorem rowSum_foldl_upsertRows (hrows : NonNeg rows) (hds : NonNeg ds) :
    NonNeg (ds.foldl upsertRows rows) ∧
      ∀ p f, rowSum p f (ds.foldl upsertRows rows) = rowSum p f rows + rowSum p f ds := by
  induction ds generalizing rows with
  | nil => exact ⟨hrows, fun p f => by simp [rowSum]⟩
  | cons d ds ih =>
    have hd : ∀ f, 0 ≤ d.2 f := hds d (.head _)
    have hrest : NonNeg ds := fun e he => hds e (.tail _ he)
    obtain ⟨hnn, hsum⟩ := ih (nonNeg_upsertRows hrows hd) hrest
    refine ⟨hnn, fun p f => ?_⟩
    rw [foldl_cons, hsum, rowSum_upsertRows hrows hd, add_assoc, ← rowSum_append]
    rfl

omit [DecidableEq K] in
theorem rowSum_pos_iff (hrows : NonNeg rows) (p : K → Bool) (f : F) :
    0 < rowSum p f rows ↔ ∃ row ∈ rows, p row.1 = true ∧ 0 < row.2 f := by
  induction rows with
  | nil => simp [rowSum]
  | cons row rows ih =>
    have hrest : NonNeg rows := fun r hr => hrows r (.tail _ hr)
    have hind := ih hrest
    have hnn : 0 ≤ rowSum p f rows := by
      apply sum_nonneg
      intro x hx
      obtain ⟨r, hr, rfl⟩ := mem_map.mp hx
      split_ifs
      · exact hrest r hr f
      · exact le_rfl
    have hrow := hrows row (.head _) f
    have hcons : rowSum p f (row :: rows) = (if p row.1 then row.2 f else 0) + rowSum p f rows :=
      rfl
    rw [hcons, exists_mem_cons_iff, ← hind]
    split_ifs with hp
    · simp only [hp, true_and]
      omega
    · simp [hp]

end NostrMash.Counters
