import Mathlib.Data.List.Infix
import Mathlib.Data.Option.Basic

/-!
# Runs of a partial step function

A machine is a partial step function `step : σ → α → Option σ`. A run consumes a list of actions
and is undefined as soon as one action is refused.
-/

namespace NostrMash.Machine
open Option
variable {σ α : Type*} (step : σ → α → Option σ)

def run : σ → List α → Option σ
  | s, [] => some s
  | s, a :: as => (step s a).bind fun t => run t as

/-- Every action of the run meets `G` in the state it is taken in. -/
def Guarded (G : σ → α → Prop) : σ → List α → Prop
  | _, [] => True
  | s, a :: as => G s a ∧ ∀ t, step s a = some t → Guarded G t as

instance decidableGuarded (G : σ → α → Prop) [∀ s a, Decidable (G s a)] :
    (s : σ) → (as : List α) → Decidable (Guarded step G s as)
  | _, [] => isTrue trivial
  | s, a :: as =>
    match h : step s a with
    | none => decidable_of_iff (G s a) ⟨fun hg => ⟨hg, fun _ ht => by simp [h] at ht⟩, And.left⟩
    | some t =>
      have := decidableGuarded G t as
      decidable_of_iff (G s a ∧ Guarded step G t as)
        ⟨fun hg => ⟨hg.1, fun _ hu => some.inj (h.symm.trans hu) ▸ hg.2⟩,
          fun hg => ⟨hg.1, hg.2 t h⟩⟩

/-- Every state the run passes through has the property `P`, its first and last included. -/
def Always (P : σ → Prop) (s : σ) (as : List α) : Prop :=
  ∀ bs, bs <+: as → ∀ t, run step s bs = some t → P t

@[simp] theorem run_nil (s : σ) : run step s [] = some s := rfl

@[simp] theorem run_cons (s : σ) (a : α) (as : List α) :
    run step s (a :: as) = (step s a).bind fun t => run step t as := rfl

theorem run_append (s : σ) (as bs : List α) :
    run step s (as ++ bs) = (run step s as).bind fun t => run step t bs := by
  induction as generalizing s with
  | nil => rfl
  | cons a as ih =>
    cases h : step s a with
    | none => simp [h]
    | some t => simp [h, ih]

variable {step} {as : List α} {a : α} {s t : σ} {I J P : σ → Prop} {G : σ → α → Prop}

theorem guarded_cons (hG : G s a) (ht : step s a = some t) (hg : Guarded step G t as) :
    Guarded step G s (a :: as) :=
  ⟨hG, fun _ hu => some.inj (ht.symm.trans hu) ▸ hg⟩

theorem guarded_mono {G' : σ → α → Prop} (h : ∀ s a, G s a → G' s a) (hg : Guarded step G s as) :
    Guarded step G' s as := by
  induction as generalizing s with
  | nil => trivial
  | cons a as ih => exact ⟨h s a hg.1, fun t ht => ih (hg.2 t ht)⟩

theorem guarded_initial {bs : List α} (hp : bs <+: as) (hg : Guarded step G s as) :
    Guarded step G s bs := by
  induction bs generalizing s as with
  | nil => trivial
  | cons b bs ih =>
    obtain ⟨cs, rfl⟩ := hp
    exact ⟨hg.1, fun t ht => ih (List.prefix_append bs cs) (hg.2 t ht)⟩

theorem run_invariant (hstep : ∀ s a t, I s → G s a → step s a = some t → I t) (hs : I s)
    (hg : Guarded step G s as) (hr : run step s as = some t) : I t := by
  induction as generalizing s with
  | nil => exact some.inj hr ▸ hs
  | cons a as ih =>
    cases h : step s a with
    | none => simp [h] at hr
    | some u =>
      rw [run_cons, h] at hr
      exact ih (hstep s a u hs hg.1 h) (hg.2 u h) hr

/-- An invariant that no guard protects. -/
theorem run_invariant_of_step (hstep : ∀ s a t, I s → step s a = some t → I t) (hs : I s)
    (hr : run step s as = some t) : I t := by
  induction as generalizing s with
  | nil => exact some.inj hr ▸ hs
  | cons a as ih =>
    cases h : step s a with
    | none => simp [h] at hr
    | some u =>
      rw [run_cons, h] at hr
      exact ih (hstep s a u hs h) hr

theorem always_head (h : Always step P s as) : P s :=
  h [] (List.nil_prefix) s rfl

theorem always_tail (h : Always step P s (a :: as)) (ht : step s a = some t) :
    Always step P t as := by
  intro bs hp u hu
  apply h (a :: bs) (List.cons_prefix_cons.mpr ⟨rfl, hp⟩) u
  rw [run_cons, ht]
  exact hu

theorem always_nil (hs : P s) : Always step P s [] := by
  intro bs hp t ht
  obtain rfl := List.prefix_nil.mp hp
  exact some.inj ht ▸ hs

theorem always_cons (hs : P s) (ht : step s a = some t) (h : Always step P t as) :
    Always step P s (a :: as) := by
  intro bs hp u hu
  cases bs with
  | nil => exact some.inj hu ▸ hs
  | cons b bs =>
    obtain ⟨rfl, hrest⟩ := List.cons_prefix_cons.mp hp
    rw [run_cons, ht] at hu
    exact h bs hrest u hu

/-- A property of every state is a guard on what a step starts from and leads to. -/
theorem guarded_of_always (h : Always step P s as) :
    Guarded step (fun s a => P s ∧ ∀ t, step s a = some t → P t) s as := by
  induction as generalizing s with
  | nil => trivial
  | cons a as ih =>
    refine ⟨⟨always_head h, fun t ht => ?_⟩, fun t ht => ih (always_tail h ht)⟩
    exact always_head (always_tail h ht)

/-- A property that a step keeps and gains exactly under the guard. -/
theorem run_iff_guarded (hJ : ∀ s a t, J s → step s a = some t → J t)
    (hP : ∀ s a t, J s → step s a = some t → (P t ↔ P s ∧ G s a)) (hj : J s)
    (hr : run step s as = some t) :
    P t ↔ P s ∧ Guarded step G s as := by
  induction as generalizing s with
  | nil =>
    obtain rfl : s = t := some.inj hr
    exact (and_iff_left trivial).symm
  | cons a as ih =>
    cases h : step s a with
    | none => simp [h] at hr
    | some u =>
      rw [run_cons, h] at hr
      rw [ih (hJ s a u hj h) hr, hP s a u hj h, and_assoc]
      refine and_congr_right fun _ => and_congr_right fun _ => ?_
      exact ⟨fun hg v hv => some.inj (h.symm.trans hv) ▸ hg, fun hg => hg u h⟩

/-- When an auxiliary invariant `J` needs no guard, a property holds throughout a run exactly when
every step of the run is guarded, provided the guard is what each single step needs. -/
theorem always_iff_guarded (hJ : ∀ s a t, J s → step s a = some t → J t)
    (hG : ∀ s a t, J s → P s → step s a = some t → (P t ↔ G s a))
    (hnone : ∀ s a, J s → P s → step s a = none → G s a) (hj : J s) (hp : P s) :
    Always step P s as ↔ Guarded step G s as := by
  constructor
  · intro h
    induction as generalizing s with
    | nil => trivial
    | cons a as ih =>
      cases hs : step s a with
      | none => exact ⟨hnone s a hj hp hs, fun t ht => by simp [hs] at ht⟩
      | some t =>
        have htail := always_tail h hs
        have ht : P t := always_head htail
        refine ⟨(hG s a t hj hp hs).mp ht, fun u hu => ?_⟩
        obtain rfl : t = u := some.inj (hs.symm.trans hu)
        exact ih (hJ s a t hj hs) ht htail
  · intro hg bs hpre t hr
    have hinv : J t ∧ P t := run_invariant (I := fun u => J u ∧ P u)
      (fun u a v hu hga huv => ⟨hJ u a v hu.1 huv, (hG u a v hu.1 hu.2 huv).mpr hga⟩)
      ⟨hj, hp⟩ (guarded_initial hpre hg) hr
    exact hinv.2

end NostrMash.Machine
