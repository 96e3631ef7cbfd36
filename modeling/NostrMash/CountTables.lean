import NostrMash.References

/-!
# Contribution tables and count tables

Reply, reaction and repost counts are projected the same way. A contribution table holds one row
for each source event and target it counts for, keyed by the pair.
-/

namespace NostrMash

@[ext]
structure CountTables where
  contributions : List (String × String)
  nodup : contributions.Nodup
  counts : String → Option ℕ

namespace CountTables

def empty : CountTables where
  contributions := []
  nodup := List.nodup_nil
  counts := fun _ => none

def countContributions (T : CountTables) (target : String) : ℕ :=
  (T.contributions.filter (·.2 = target)).length

def readExistingContributions (T : CountTables) (source : String) : List String :=
  (T.contributions.filter (·.1 = source)).map (·.2)

def deletePriorContributions (T : CountTables) (source : String) : CountTables where
  contributions := T.contributions.filter (·.1 ≠ source)
  nodup := T.nodup.filter _
  counts := T.counts

def insertContribution (T : CountTables) (source target : String) : CountTables where
  contributions := T.contributions.insert (source, target)
  nodup := T.nodup.insert
  counts := T.counts

def deleteCount (T : CountTables) (target : String) : CountTables :=
  { T with counts := Function.update T.counts target none }

def upsertCount (T : CountTables) (target : String) (count : ℕ) : CountTables :=
  { T with counts := Function.update T.counts target (some count) }

def writeCount (T : CountTables) (target : String) (count : ℕ) : CountTables :=
  if count = 0 then T.deleteCount target else T.upsertCount target count

def recount (T : CountTables) (target : String) : CountTables :=
  T.writeCount target (T.countContributions target)

/-- The targets recounted, in one of the orders in which a Go map may be ranged over. -/
def affectedTargets (existing referenced : List String) : List String :=
  (existing ++ referenced).dedup

def projectContributions (T : CountTables) (source : String) (referenced : List String) :
    CountTables :=
  referenced.foldl (fun U target => U.insertContribution source target)
    (T.deletePriorContributions source)

def projectCounts (T : CountTables) (source : String) (referenced : List String) : CountTables :=
  (affectedTargets (T.readExistingContributions source) referenced).foldl recount
    (T.projectContributions source referenced)

def count (T : CountTables) (target : String) : ℕ := (T.counts target).getD 0

def row (n : ℕ) : Option ℕ := if n = 0 then none else some n

@[simp] theorem row_getD (n : ℕ) : (row n).getD 0 = n := by
  unfold row
  split_ifs with h <;> simp [h]

@[simp] theorem writeCount_contributions (T : CountTables) (t : String) (n : ℕ) :
    (T.writeCount t n).contributions = T.contributions := by
  unfold writeCount
  split_ifs <;> rfl

theorem writeCount_counts (T : CountTables) (t : String) (n : ℕ) :
    (T.writeCount t n).counts = Function.update T.counts t (row n) := by
  unfold writeCount row
  split_ifs <;> rfl

@[simp] theorem foldl_recount_contributions (T : CountTables) (ts : List String) :
    (ts.foldl recount T).contributions = T.contributions := by
  induction ts generalizing T with
  | nil => rfl
  | cons t ts ih => rw [List.foldl_cons, ih, recount, writeCount_contributions]

theorem countContributions_congr {T U : CountTables} (h : T.contributions = U.contributions)
    (t : String) : T.countContributions t = U.countContributions t := by
  unfold countContributions
  rw [h]

section
variable (T : CountTables)
include T

@[simp] theorem countContributions_writeCount (t : String) (n : ℕ) (x : String) :
    (T.writeCount t n).countContributions x = T.countContributions x :=
  countContributions_congr (writeCount_contributions T t n) x

theorem foldl_recount_counts (ts : List String) (t : String) :
    (ts.foldl recount T).counts t =
      if t ∈ ts then row (T.countContributions t) else T.counts t := by
  induction ts generalizing T with
  | nil => simp
  | cons u ts ih =>
    have hc : (T.recount u).contributions = T.contributions := writeCount_contributions T u _
    rw [List.foldl_cons, ih, countContributions_congr hc]
    by_cases ht : t ∈ ts
    · simp [ht]
    · by_cases hu : t = u
      · subst hu
        simp [ht, recount, writeCount_counts]
      · simp [ht, hu, recount, writeCount_counts]

theorem foldl_insertContribution (s : String) (ts : List String) :
    (ts.foldl (fun U t => U.insertContribution s t) T).counts = T.counts ∧
      ∀ p, p ∈ (ts.foldl (fun U t => U.insertContribution s t) T).contributions ↔
        p ∈ T.contributions ∨ (p.1 = s ∧ p.2 ∈ ts) := by
  induction ts generalizing T with
  | nil => simp
  | cons t ts ih =>
    obtain ⟨hcounts, hmem⟩ := ih (T.insertContribution s t)
    refine ⟨hcounts, fun p => ?_⟩
    rw [List.foldl_cons, hmem p]
    simp only [insertContribution, List.mem_insert_iff, List.mem_cons, Prod.ext_iff]
    tauto

@[simp] theorem projectContributions_counts (s : String) (R : List String) :
    (T.projectContributions s R).counts = T.counts :=
  (foldl_insertContribution (T.deletePriorContributions s) s R).1

theorem mem_projectContributions (s : String) (R : List String)
    (p : String × String) : p ∈ (T.projectContributions s R).contributions ↔
      (p ∈ T.contributions ∧ p.1 ≠ s) ∨ (p.1 = s ∧ p.2 ∈ R) := by
  rw [projectContributions, (foldl_insertContribution _ s R).2 p]
  simp [deletePriorContributions]

theorem mem_readExistingContributions (s t : String) :
    t ∈ T.readExistingContributions s ↔ (s, t) ∈ T.contributions := by
  simp [readExistingContributions]

end

theorem mem_affectedTargets (E R : List String) (t : String) :
    t ∈ affectedTargets E R ↔ t ∈ E ∨ t ∈ R := by
  simp [affectedTargets]

theorem projectCounts_contributions (T : CountTables) (s : String) (R : List String) :
    (T.projectCounts s R).contributions = (T.projectContributions s R).contributions :=
  foldl_recount_contributions _ _

theorem mem_projectCounts (T : CountTables) (s : String) (R : List String) (p : String × String) :
    p ∈ (T.projectCounts s R).contributions ↔
      (p ∈ T.contributions ∧ p.1 ≠ s) ∨ (p.1 = s ∧ p.2 ∈ R) := by
  rw [projectCounts_contributions, mem_projectContributions]

theorem projectCounts_counts (T : CountTables) (s : String) (R : List String) (t : String) :
    (T.projectCounts s R).counts t =
      if (s, t) ∈ T.contributions ∨ t ∈ R then row ((T.projectCounts s R).countContributions t)
      else T.counts t := by
  have hc := countContributions_congr (projectCounts_contributions T s R) t
  rw [projectCounts, foldl_recount_counts, ← projectCounts, hc]
  simp only [mem_affectedTargets, mem_readExistingContributions, projectContributions_counts]

end CountTables
end NostrMash
