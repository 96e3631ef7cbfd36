import Mathlib.Data.List.Basic

/-!
# Transactions under READ COMMITTED

A database value is changed by writes, and each write locks one row. The writes of the open
transactions wait in one log until their transaction commits.
-/

namespace NostrMash.ReadCommitted
open List Function

structure Schema (σ ω ρ : Type*) where
  apply : σ → ω → σ
  row : ω → ρ

structure Session (τ σ ω φ : Type*) where
  committed : σ
  pending : List (τ × ω)
  phase : τ → φ

namespace Session

variable {τ σ ω φ ρ : Type*} [DecidableEq τ]

def start (committed : σ) (phase : φ) : Session τ σ ω φ where
  committed := committed
  pending := []
  phase := fun _ => phase

def own (s : Session τ σ ω φ) (t : τ) : List ω := (s.pending.filter (·.1 = t)).map (·.2)

def view (M : Schema σ ω ρ) (s : Session τ σ ω φ) (t : τ) : σ :=
  (s.own t).foldl M.apply s.committed

def Blocked (M : Schema σ ω ρ) (s : Session τ σ ω φ) (t : τ) (w : ω) : Prop :=
  ∃ p ∈ s.pending, p.1 ≠ t ∧ M.row p.2 = M.row w

instance [DecidableEq ρ] (M : Schema σ ω ρ) (s : Session τ σ ω φ) (t : τ) (w : ω) :
    Decidable (s.Blocked M t w) :=
  inferInstanceAs (Decidable (∃ p ∈ s.pending, p.1 ≠ t ∧ M.row p.2 = M.row w))

def goto (s : Session τ σ ω φ) (t : τ) (p : φ) : Session τ σ ω φ :=
  { s with phase := Function.update s.phase t p }

def write [DecidableEq ρ] (M : Schema σ ω ρ) (s : Session τ σ ω φ) (t : τ) (ws : List ω) (p : φ) :
    Option (Session τ σ ω φ) :=
  if ∀ w ∈ ws, ¬ s.Blocked M t w then
    some { s.goto t p with pending := s.pending ++ ws.map (t, ·) }
  else none

def commit (M : Schema σ ω ρ) (s : Session τ σ ω φ) (t : τ) (p : φ) : Session τ σ ω φ :=
  { committed := s.view M t
    pending := s.pending.filter (·.1 ≠ t)
    phase := Function.update s.phase t p }

def rollback (s : Session τ σ ω φ) (t : τ) (p : φ) : Session τ σ ω φ :=
  { s.goto t p with pending := s.pending.filter (·.1 ≠ t) }

@[simp] theorem own_goto (s : Session τ σ ω φ) (t u : τ) (p : φ) :
    (s.goto t p).own u = s.own u := rfl

@[simp] theorem committed_goto (s : Session τ σ ω φ) (t : τ) (p : φ) :
    (s.goto t p).committed = s.committed := rfl

@[simp] theorem phase_goto (s : Session τ σ ω φ) (t : τ) (p : φ) :
    (s.goto t p).phase = Function.update s.phase t p := rfl

/-- What an accepted write does. -/
theorem write_eq_some [DecidableEq ρ] {M : Schema σ ω ρ} {s s' : Session τ σ ω φ} {t : τ}
    {ws : List ω} {p : φ} (h : s.write M t ws p = some s') :
    s'.committed = s.committed ∧ s'.phase = Function.update s.phase t p ∧
      s'.own t = s.own t ++ ws ∧ ∀ u, u ≠ t → s'.own u = s.own u := by
  unfold write at h
  split_ifs at h
  cases h
  refine ⟨rfl, rfl, ?_, fun u hu => ?_⟩
  · simp [own, List.filter_map, comp_def]
  · simp [own, List.filter_map, comp_def, hu.symm]

theorem row_ne_of_write [DecidableEq ρ] {M : Schema σ ω ρ} {s s' : Session τ σ ω φ} {t u : τ}
    {ws : List ω} {p : φ} {w w' : ω} (h : s.write M t ws p = some s') (hw : w ∈ ws) (hu : u ≠ t)
    (hw' : w' ∈ s.own u) : M.row w' ≠ M.row w := by
  unfold write at h
  split_ifs at h with hfree
  exact fun hrow => hfree w hw ⟨(u, w'), by simpa [own] using hw', hu, hrow⟩

theorem own_filter_self (l : List (τ × ω)) (t : τ) :
    ((l.filter (·.1 ≠ t)).filter (·.1 = t)).map (·.2) = [] := by
  simp [List.filter_filter]

theorem own_filter_ne (l : List (τ × ω)) {t u : τ} (h : u ≠ t) :
    ((l.filter (·.1 ≠ t)).filter (·.1 = u)).map (·.2) = (l.filter (·.1 = u)).map (·.2) := by
  rw [List.filter_filter]
  congr 1
  apply filter_congr
  intro p _
  by_cases hp : p.1 = u
  · simp [hp, h]
  · simp [hp]

@[simp] theorem own_commit_self (M : Schema σ ω ρ) (s : Session τ σ ω φ) (t : τ) (p : φ) :
    (s.commit M t p).own t = [] := own_filter_self s.pending t

theorem own_commit_ne (M : Schema σ ω ρ) (s : Session τ σ ω φ) {t u : τ} (p : φ) (h : u ≠ t) :
    (s.commit M t p).own u = s.own u := own_filter_ne s.pending h

@[simp] theorem own_rollback_self (s : Session τ σ ω φ) (t : τ) (p : φ) :
    (s.rollback t p).own t = [] := own_filter_self s.pending t

theorem own_rollback_ne (s : Session τ σ ω φ) {t u : τ} (p : φ) (h : u ≠ t) :
    (s.rollback t p).own u = s.own u := own_filter_ne s.pending h

section
variable {M : Schema σ ω ρ} {s s' : Session τ σ ω φ} {t : τ} {p : φ}

def Exclusive (M : Schema σ ω ρ) (s : Session τ σ ω φ) : Prop :=
  ∀ t u, t ≠ u → ∀ w ∈ s.own t, ∀ w' ∈ s.own u, M.row w ≠ M.row w'

theorem exclusive_start (c : σ) (p : φ) : (start c p : Session τ σ ω φ).Exclusive M :=
  fun _ _ _ _ hw => nomatch hw

section
variable (h : s.Exclusive M)
include h

theorem exclusive_goto : (s.goto t p).Exclusive M := h

theorem exclusive_write [DecidableEq ρ] {ws : List ω}
    (hw : s.write M t ws p = some s') : s'.Exclusive M := by
  obtain ⟨-, -, ho, hne⟩ := write_eq_some hw
  -- The new writes against those of another transaction.
  have hnew : ∀ u, u ≠ t → ∀ w ∈ s'.own t, ∀ w' ∈ s'.own u, M.row w ≠ M.row w' := by
    intro u hu w hmem w' hmem'
    rw [ho] at hmem
    rw [hne u hu] at hmem'
    rcases mem_append.mp hmem with hold | hws
    · exact h t u (Ne.symm hu) w hold w' hmem'
    · exact (row_ne_of_write hw hws hu hmem').symm
  intro u v huv w hmem w' hmem'
  by_cases hu : u = t
  · subst hu
    exact hnew v (Ne.symm huv) w hmem w' hmem'
  · by_cases hv : v = t
    · subst hv
      exact (hnew u hu w' hmem' w hmem).symm
    · rw [hne u hu] at hmem
      rw [hne v hv] at hmem'
      exact h u v huv w hmem w' hmem'

theorem exclusive_commit : (s.commit M t p).Exclusive M := by
  intro u v huv w hmem w' hmem'
  by_cases hu : u = t
  · subst hu
    simp at hmem
  · by_cases hv : v = t
    · subst hv
      simp at hmem'
    · rw [own_commit_ne M s p hu] at hmem
      rw [own_commit_ne M s p hv] at hmem'
      exact h u v huv w hmem w' hmem'

theorem exclusive_rollback : (s.rollback t p).Exclusive M := by
  intro u v huv w hmem w' hmem'
  by_cases hu : u = t
  · subst hu
    simp at hmem
  · by_cases hv : v = t
    · subst hv
      simp at hmem'
    · rw [own_rollback_ne s p hu] at hmem
      rw [own_rollback_ne s p hv] at hmem'
      exact h u v huv w hmem w' hmem'

end
end

/-- An invariant split into a committed part and one part for each transaction. -/
def Holds (C : σ → Prop) (X : τ → σ → List ω → φ → Prop) (s : Session τ σ ω φ) : Prop :=
  C s.committed ∧ ∀ t, X t s.committed (s.own t) (s.phase t)

variable {C : σ → Prop} {X : τ → σ → List ω → φ → Prop} {M : Schema σ ω ρ} {s s' : Session τ σ ω φ}

theorem holds_start {c : σ} {p : φ} (hc : C c) (hx : ∀ t, X t c [] p) :
    Holds C X (start c p : Session τ σ ω φ) := ⟨hc, hx⟩

theorem holds_goto {t : τ} {p : φ} (h : Holds C X s) (hx : X t s.committed (s.own t) p) :
    Holds C X (s.goto t p) := by
  refine ⟨h.1, fun u => ?_⟩
  by_cases hu : u = t
  · subst hu
    simpa using hx
  · simpa [hu] using h.2 u

theorem holds_write [DecidableEq ρ] {t : τ} {ws : List ω} {p : φ} (h : Holds C X s)
    (hw : s.write M t ws p = some s') (hx : X t s.committed (s.own t ++ ws) p) : Holds C X s' := by
  obtain ⟨hc, hp, ho, hne⟩ := write_eq_some hw
  refine ⟨hc ▸ h.1, fun u => ?_⟩
  rw [hc, hp]
  by_cases hu : u = t
  · subst hu
    rw [ho, update_self]
    exact hx
  · rw [hne u hu, update_of_ne hu]
    exact h.2 u

theorem holds_commit {t : τ} {p : φ} (hc : C (s.view M t)) (hx : X t (s.view M t) [] p)
    (hothers : ∀ u, u ≠ t → X u (s.view M t) (s.own u) (s.phase u)) :
    Holds C X (s.commit M t p) := by
  refine ⟨hc, fun u => ?_⟩
  by_cases hu : u = t
  · subst hu
    rw [own_commit_self]
    simpa [commit] using hx
  · rw [own_commit_ne M s p hu]
    simpa [commit, hu] using hothers u hu

theorem holds_rollback {t : τ} {p : φ} (h : Holds C X s) (hx : X t s.committed [] p) :
    Holds C X (s.rollback t p) := by
  refine ⟨h.1, fun u => ?_⟩
  by_cases hu : u = t
  · subst hu
    rw [own_rollback_self]
    simpa [rollback] using hx
  · rw [own_rollback_ne s p hu]
    simpa [rollback, hu] using h.2 u

def alone (c : σ) (t : τ) (ws : List ω) (phase : τ → φ) (p : φ) : Session τ σ ω φ where
  committed := c
  pending := ws.map (t, ·)
  phase := Function.update phase t p

variable (c : σ) (t : τ) (ws : List ω) (phase : τ → φ) (p q : φ)

@[simp] theorem phase_alone : (alone c t ws phase p).phase t = p := by simp [alone]

@[simp] theorem view_alone : (alone c t ws phase p).view M t = ws.foldl M.apply c := by
  simp [view, own, alone, List.filter_map, comp_def]

@[simp] theorem goto_alone : (alone c t ws phase p).goto t q = alone c t ws phase q := by
  simp [goto, alone]

/-- Nothing blocks a transaction that is alone. -/
@[simp] theorem write_alone [DecidableEq ρ] (vs : List ω) :
    (alone c t ws phase p).write M t vs q = some (alone c t (ws ++ vs) phase q) := by
  simp [write, Blocked, goto, alone]

@[simp] theorem commit_alone :
    (alone c t ws phase p).commit M t q = alone (ws.foldl M.apply c) t [] phase q := by
  rw [commit, view_alone]
  simp [alone, List.filter_map, comp_def]

end Session
end NostrMash.ReadCommitted
