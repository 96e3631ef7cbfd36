import Mathlib.Data.List.Pairwise
import Mathlib.Algebra.Order.Ring.Int

/-!
# The table of jobs

A row is pending, running under the lock of a worker, or in one of two terminal states; `attempts`
counts the runs that ended without success.
-/

namespace NostrMash.Queue
open List

inductive Status where
  | pending
  | running
  | succeeded
  | dead
  deriving DecidableEq

def Status.isTerminal : Status → Bool
  | pending => false
  | running => false
  | succeeded => true
  | dead => true

inductive Payload where
  | raw (json : String)
  /-- `EventJobPayload`. -/
  | event (eventID : String)
  deriving DecidableEq

structure Job where
  id : ℕ
  jobType : String
  workerPool : String
  payload : Payload
  idempotencyKey : Option String
  status : Status
  attempts : ℕ
  maxAttempts : ℕ
  runAfter : ℤ
  lockedAt : Option ℤ
  lockedBy : Option String
  lastError : Option String
  createdAt : ℤ
  updatedAt : ℤ
  finishedAt : Option ℤ

def Job.SameKeys (a b : Job) : Prop := a.id = b.id ∧ a.idempotencyKey = b.idempotencyKey

def Job.Spares (job : Job) (key : Option String) : Prop :=
  job.idempotencyKey = none ∨ job.idempotencyKey ≠ key

structure JobTable where
  rows : List Job
  nextID : ℕ
  ids_sorted : rows.Pairwise fun a b => a.id < b.id
  ids_below : ∀ job ∈ rows, job.id < nextID
  keys_unique : rows.Pairwise fun a b => a.Spares b.idempotencyKey

namespace JobTable

def empty : JobTable :=
  { rows := [], nextID := 1, ids_sorted := .nil, keys_unique := .nil
    ids_below := fun _ h => nomatch h }

def update (T : JobTable) (p : Job → Bool) (f : Job → Job) (hf : ∀ job, (f job).SameKeys job) :
    JobTable where
  rows := T.rows.map fun job => if p job then f job else job
  nextID := T.nextID
  ids_sorted := by
    refine pairwise_map.mpr (T.ids_sorted.imp fun {a b} h => ?_)
    have hid : ∀ job, (if p job then f job else job).id = job.id := by
      intro job
      split_ifs
      · exact (hf job).1
      · rfl
    rwa [hid, hid]
  ids_below := by
    intro job hjob
    obtain ⟨row, hrow, rfl⟩ := mem_map.mp hjob
    split_ifs
    · rw [(hf row).1]
      exact T.ids_below row hrow
    · exact T.ids_below row hrow
  keys_unique := by
    refine pairwise_map.mpr (T.keys_unique.imp fun {a b} h => ?_)
    have hkey : ∀ job, (if p job then f job else job).idempotencyKey = job.idempotencyKey := by
      intro job
      split_ifs
      · exact (hf job).2
      · rfl
    rwa [Job.Spares, hkey, hkey]

def delete (T : JobTable) (p : Job → Bool) : JobTable where
  rows := T.rows.filter fun job => !p job
  nextID := T.nextID
  ids_sorted := T.ids_sorted.filter _
  ids_below job hjob := T.ids_below job (mem_filter.mp hjob).1
  keys_unique := T.keys_unique.filter _

def insert (T : JobTable) (job : Job) (hfree : ∀ row ∈ T.rows, row.Spares job.idempotencyKey) :
    JobTable where
  rows := T.rows ++ [{ job with id := T.nextID }]
  nextID := T.nextID + 1
  ids_sorted := by
    refine pairwise_append.mpr ⟨T.ids_sorted, pairwise_singleton _ _, ?_⟩
    intro row hrow new hnew
    rw [mem_singleton.mp hnew]
    exact T.ids_below row hrow
  ids_below := by
    intro row hrow
    rcases mem_append.mp hrow with hrow | hrow
    · exact (T.ids_below row hrow).trans (Nat.lt_succ_self _)
    · rw [mem_singleton.mp hrow]
      exact Nat.lt_succ_self _
  keys_unique := by
    refine pairwise_append.mpr ⟨T.keys_unique, pairwise_singleton _ _, ?_⟩
    intro row hrow new hnew
    rw [mem_singleton.mp hnew]
    exact hfree row hrow

def advance (T : JobTable) : JobTable :=
  { T with
    nextID := T.nextID + 1
    ids_below := fun job hjob => (T.ids_below job hjob).trans (Nat.lt_succ_self _) }

def conflicting (T : JobTable) (key : Option String) : Option Job :=
  T.rows.find? fun row => row.idempotencyKey.isSome && row.idempotencyKey == key

theorem spares_of_conflicting {T : JobTable} {key : Option String} (h : T.conflicting key = none) :
    ∀ row ∈ T.rows, row.Spares key := by
  intro row hrow
  have hno := List.find?_eq_none.mp h row hrow
  cases hkey : row.idempotencyKey with
  | none => exact .inl hkey
  | some k =>
    refine .inr fun heq => hno ?_
    simp [← heq, hkey]

def insertJob (T : JobTable) (job : Job) : Job × JobTable :=
  match h : T.conflicting job.idempotencyKey with
  | some row => (row, T.advance)
  | none => ({ job with id := T.nextID }, T.insert job (spares_of_conflicting h))

end JobTable

variable {T : JobTable}

theorem JobTable.eq_of_id_eq {a b : Job} (ha : a ∈ T.rows) (hb : b ∈ T.rows) (h : a.id = b.id) :
    a = b := by
  have : Std.Symm fun a b : Job => a.id ≠ b.id := ⟨fun _ _ h => h.symm⟩
  have hne : T.rows.Pairwise fun a b => a.id ≠ b.id := T.ids_sorted.imp Nat.ne_of_lt
  by_contra hab
  exact hne.forall ha hb hab h

theorem JobTable.eq_of_key_eq {a b : Job} {key : String} (ha : a ∈ T.rows) (hb : b ∈ T.rows)
    (hkey : a.idempotencyKey = some key) (h : b.idempotencyKey = some key) : a = b := by
  have : Std.Symm fun a b : Job =>
      ¬ (a.idempotencyKey = some key ∧ b.idempotencyKey = some key) := ⟨fun _ _ h => h ∘ And.symm⟩
  have hne : T.rows.Pairwise fun a b =>
      ¬ (a.idempotencyKey = some key ∧ b.idempotencyKey = some key) := by
    refine T.keys_unique.imp fun {x y} hxy => ?_
    rintro ⟨hx, hy⟩
    rcases hxy with hxy | hxy
    · exact nomatch hxy.symm.trans hx
    · exact hxy (hx.trans hy.symm)
  by_contra hab
  exact hne.forall ha hb hab ⟨hkey, h⟩

theorem JobTable.rows_insertJob (T : JobTable) (job : Job) :
    ((T.insertJob job).2.rows = T.rows ∧ ∃ row ∈ T.rows,
        row.idempotencyKey.isSome = true ∧ row.idempotencyKey = job.idempotencyKey) ∨
      ((T.insertJob job).2.rows = T.rows ++ [{ job with id := T.nextID }] ∧
        ∀ row ∈ T.rows, row.Spares job.idempotencyKey) := by
  unfold JobTable.insertJob
  split
  · rename_i row h
    have hrow := List.find?_some h
    simp only [Bool.and_eq_true, beq_iff_eq] at hrow
    exact .inl ⟨rfl, row, List.mem_of_find?_eq_some h, hrow⟩
  · rename_i h
    exact .inr ⟨rfl, JobTable.spares_of_conflicting h⟩

theorem JobTable.nextID_insertJob (T : JobTable) (job : Job) :
    (T.insertJob job).2.nextID = T.nextID + 1 := by
  unfold JobTable.insertJob
  split <;> rfl

end NostrMash.Queue
