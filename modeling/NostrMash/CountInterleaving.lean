import NostrMash.Machine
import NostrMash.ReadCommitted
import NostrMash.CountTables
import Mathlib.Data.Fintype.Defs

/-!
# Interleaved projections of counts

The statements of several `projectCounts` transactions interleave under READ COMMITTED.
-/

namespace NostrMash.CountInterleaving
open ReadCommitted CountTables List

inductive Write where
  | delete (source target : String)
  | insert (source target : String)
  | count (target : String) (n : ℕ)
  deriving DecidableEq

namespace Write

def target : Write → String
  | .delete _ target => target
  | .insert _ target => target
  | .count target _ => target

def OfSource (source : String) : Write → Prop
  | .delete s _ => s = source
  | .insert s _ => s = source
  | .count _ _ => True

def apply (T : CountTables) : Write → CountTables
  | .delete source target =>
    { contributions := T.contributions.filter (· ≠ (source, target))
      nodup := T.nodup.filter _
      counts := T.counts }
  | .insert source target => T.insertContribution source target
  | .count target n => T.writeCount target n

def row : Write → (String × String) ⊕ String
  | .delete source target => .inl (source, target)
  | .insert source target => .inl (source, target)
  | .count target _ => .inr target

end Write

def schema : Schema CountTables Write ((String × String) ⊕ String) where
  apply := Write.apply
  row := Write.row

inductive Phase where
  | idle
  | begun
  /-- The existing contributions have been read. -/
  | loaded (existing : List String)
  | inserting (existing todo : List String)
  | counting (done todo : List String)
  /-- `target` has been counted and its count not yet written. -/
  | writing (done : List String) (target : String) (count : ℕ) (todo : List String)
  | ended
  deriving DecidableEq

inductive Action (τ : Type*) where
  | begin (t : τ)
  | readExisting (t : τ)
  | deletePrior (t : τ)
  | insertNext (t : τ)
  /-- Go ranges over the map of affected targets in the given order. -/
  | range (t : τ) (order : List String)
  | countNext (t : τ)
  | writeCount (t : τ)
  | commit (t : τ)
  | rollback (t : τ)

abbrev State (τ : Type*) := Session τ CountTables Write Phase

def countWrites (V : CountTables) (target : String) (n : ℕ) : List Write :=
  if n = 0 then (if (V.counts target).isSome then [.count target 0] else [])
  else [.count target n]

section
variable {τ : Type*} [DecidableEq τ] (source : τ → String) (referenced : τ → List String)

def step (s : State τ) : Action τ → Option (State τ)
  | .begin t =>
    match s.phase t with
    | .idle => some (s.goto t .begun)
    | _ => none
  | .readExisting t =>
    match s.phase t with
    | .begun =>
      some (s.goto t (.loaded ((s.view schema t).readExistingContributions (source t))))
    | _ => none
  | .deletePrior t =>
    match s.phase t with
    | .loaded existing =>
      s.write schema t
        (((s.view schema t).readExistingContributions (source t)).map (.delete (source t)))
        (.inserting existing (referenced t))
    | _ => none
  | .insertNext t =>
    match s.phase t with
    | .inserting existing (target :: todo) =>
      s.write schema t [.insert (source t) target] (.inserting existing todo)
    | _ => none
  | .range t order =>
    match s.phase t with
    | .inserting existing [] =>
      if order.Perm (affectedTargets existing (referenced t)) then
        some (s.goto t (.counting [] order))
      else none
    | _ => none
  | .countNext t =>
    match s.phase t with
    | .counting done (target :: todo) =>
      some (s.goto t (.writing done target ((s.view schema t).countContributions target) todo))
    | _ => none
  | .writeCount t =>
    match s.phase t with
    | .writing done target n todo =>
      s.write schema t (countWrites (s.view schema t) target n) (.counting (done ++ [target]) todo)
    | _ => none
  | .commit t =>
    match s.phase t with
    | .counting _ [] => some (s.commit schema t .ended)
    | _ => none
  | .rollback t =>
    match s.phase t with
    | .idle => none
    | .ended => none
    | _ => some (s.rollback t .ended)

end

def counted : Phase → List String
  | .counting done _ => done
  | .writing done target _ _ => target :: done
  | _ => []

/-- The condition on a `COUNT(*)`: no other open transaction has counted the target already. -/
def NoOverlap {τ : Type*} (s : State τ) : Action τ → Prop
  | .countNext t =>
    match s.phase t with
    | .counting _ (target :: _) => ∀ u, u ≠ t → target ∉ counted (s.phase u)
    | _ => True
  | _ => True

instance {τ : Type*} [DecidableEq τ] [Fintype τ] (s : State τ) (a : Action τ) :
    Decidable (NoOverlap s a) := by
  unfold NoOverlap
  split
  · split <;> infer_instance
  · infer_instance

def MatchedAt (T : CountTables) (x : String) : Prop :=
  T.counts x = CountTables.row (T.countContributions x)

def Matched (T : CountTables) : Prop := ∀ x, MatchedAt T x

def AgreeAt (x : String) (T U : CountTables) : Prop :=
  (∀ s, (s, x) ∈ T.contributions ↔ (s, x) ∈ U.contributions) ∧ T.counts x = U.counts x

theorem agreeAt_refl (x : String) (T : CountTables) : AgreeAt x T T := ⟨fun _ => Iff.rfl, rfl⟩

variable {T U : CountTables} {x : String}

theorem agreeAt_trans {V : CountTables} (h : AgreeAt x T U) (h' : AgreeAt x U V) :
    AgreeAt x T V := ⟨fun s => (h.1 s).trans (h'.1 s), h.2.trans h'.2⟩

theorem agreeAt_count (h : AgreeAt x T U) :
    T.countContributions x = U.countContributions x := by
  apply List.Perm.length_eq
  rw [perm_ext_iff_of_nodup (T.nodup.filter _) (U.nodup.filter _)]
  rintro ⟨s, y⟩
  simp only [mem_filter, decide_eq_true_eq]
  constructor
  · rintro ⟨hm, rfl⟩
    exact ⟨(h.1 s).mp hm, rfl⟩
  · rintro ⟨hm, rfl⟩
    exact ⟨(h.1 s).mpr hm, rfl⟩

theorem matchedAt_congr (h : AgreeAt x T U) :
    MatchedAt T x ↔ MatchedAt U x := by
  unfold MatchedAt
  rw [h.2, agreeAt_count h]

theorem agreeAt_apply_of_ne (T : CountTables) {w : Write} (h : w.target ≠ x) :
    AgreeAt x (w.apply T) T := by
  cases w with
  | delete s t =>
    refine ⟨fun r => ?_, rfl⟩
    have hne : (r, x) ≠ (s, t) := fun he => h (Prod.mk.inj he).2.symm
    simp [Write.apply, hne]
  | insert s t =>
    refine ⟨fun r => ?_, rfl⟩
    have hne : (r, x) ≠ (s, t) := fun he => h (Prod.mk.inj he).2.symm
    simp only [Write.apply, insertContribution, mem_insert_iff, hne, false_or]
  | count t n =>
    refine ⟨fun r => by simp [Write.apply], ?_⟩
    simp only [Write.apply, writeCount_counts]
    exact Function.update_of_ne (Ne.symm h) _ _

theorem agreeAt_apply (w : Write) (h : AgreeAt x T U) :
    AgreeAt x (w.apply T) (w.apply U) := by
  cases w with
  | delete s t => exact ⟨fun r => by simp [Write.apply, h.1 r], h.2⟩
  | insert s t =>
    refine ⟨fun r => ?_, h.2⟩
    simp only [Write.apply, insertContribution, mem_insert_iff, h.1 r]
  | count t n =>
    refine ⟨fun r => by simp [Write.apply, h.1 r], ?_⟩
    simp only [Write.apply, writeCount_counts, Function.update_apply, h.2]

theorem agreeAt_foldl (ws : List Write) (h : AgreeAt x T U) :
    AgreeAt x (ws.foldl Write.apply T) (ws.foldl Write.apply U) := by
  induction ws generalizing T U with
  | nil => exact h
  | cons w ws ih => exact ih (agreeAt_apply w h)

theorem agreeAt_foldl_of_ne (ws : List Write) (T : CountTables) (h : ∀ w ∈ ws, w.target ≠ x) :
    AgreeAt x (ws.foldl Write.apply T) T := by
  induction ws generalizing T with
  | nil => exact agreeAt_refl x T
  | cons w ws ih =>
    exact agreeAt_trans (ih (w.apply T) fun v hv => h v (mem_cons_of_mem w hv))
      (agreeAt_apply_of_ne T (h w (.head _)))

theorem foldl_other_source (ws : List Write) (T : CountTables) {s r : String}
    (h : ∀ w ∈ ws, w.OfSource s) (hr : r ≠ s) (x : String) :
    (r, x) ∈ (ws.foldl Write.apply T).contributions ↔ (r, x) ∈ T.contributions := by
  induction ws generalizing T with
  | nil => rfl
  | cons w ws ih =>
    rw [foldl_cons, ih (w.apply T) fun v hv => h v (mem_cons_of_mem w hv)]
    have hw := h w (.head _)
    cases w with
    | delete s' t =>
      obtain rfl : s' = s := hw
      simp [Write.apply, hr]
    | insert s' t =>
      obtain rfl : s' = s := hw
      simp [Write.apply, insertContribution, hr]
    | count t n => simp [Write.apply]

end NostrMash.CountInterleaving
