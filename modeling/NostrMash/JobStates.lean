import NostrMash.JobSteps

/-!
# Legal job rows

The columns of a row agree with its status after any calls, and a terminal row is final. Both follow
from the ways in which a call can change a row.
-/

namespace NostrMash.Queue

def Job.Legal (job : Job) : Prop :=
  job.attempts ≤ job.maxAttempts ∧
    match job.status with
    | .pending => job.attempts < job.maxAttempts ∧ job.lockedAt = none ∧ job.lockedBy = none ∧
      job.finishedAt = none
    | .running => job.attempts < job.maxAttempts ∧ job.lockedAt.isSome = true ∧
      job.lockedBy.isSome = true ∧ job.finishedAt = none
    | .succeeded => job.attempts < job.maxAttempts ∧ job.lockedAt = none ∧ job.lockedBy = none ∧
      job.finishedAt.isSome = true
    | .dead => job.attempts = job.maxAttempts ∧ job.lockedAt = none ∧ job.lockedBy = none ∧
      job.finishedAt.isSome = true

variable {T T' : JobTable} {job job' : Job}

theorem legal_of_isNew (h : job.IsNew) : job.Legal := by
  obtain ⟨hstatus, hattempts, hmax, hat, hby, hfinished⟩ := h
  refine ⟨by omega, ?_⟩
  rw [hstatus]
  exact ⟨by omega, hat, hby, hfinished⟩

theorem legal_rowStep (h : job.Legal) (hstep : RowStep job job') : job'.Legal := by
  obtain ⟨hle, hcolumns⟩ := h
  cases hstep with
  | keep => exact ⟨hle, hcolumns⟩
  | claim workerID now hpending =>
    rw [hpending] at hcolumns
    exact ⟨hle, hcolumns.1, rfl, rfl, hcolumns.2.2.2⟩
  | complete now hrunning =>
    rw [hrunning] at hcolumns
    exact ⟨hle, hcolumns.1, rfl, rfl, rfl⟩
  | fail lastError retryAt deadAt now hrunning =>
    rw [hrunning] at hcolumns
    obtain ⟨hlt, -, -, hfinished⟩ := hcolumns
    refine ⟨hlt, ?_⟩
    by_cases hlast : job.maxAttempts ≤ job.attempts + 1
    · simp only [Job.unsuccessful, if_pos hlast]
      exact ⟨le_antisymm hlt hlast, trivial, trivial, rfl⟩
    · simp only [Job.unsuccessful, if_neg hlast]
      exact ⟨not_le.mp hlast, trivial, trivial, hfinished⟩

theorem eq_of_terminal (h : job.status.isTerminal = true) (hstep : RowStep job job') :
    job' = job := by
  cases hstep with
  | keep => rfl
  | claim workerID now hpending => exact nomatch hpending ▸ h
  | complete now hrunning => exact nomatch hrunning ▸ h
  | fail lastError retryAt deadAt now hrunning => exact nomatch hrunning ▸ h

theorem legal_evolves (h : ∀ job ∈ T.rows, job.Legal) (he : Evolves T T') :
    ∀ job ∈ T'.rows, job.Legal := by
  intro job' hjob'
  rcases he.origin job' hjob' with ⟨job, hjob, hstep⟩ | ⟨-, hnew⟩
  · exact legal_rowStep (h job hjob) hstep
  · exact legal_of_isNew hnew

/-- The row is still there, or its identifier is gone for good. -/
def Stays (job : Job) (T : JobTable) : Prop :=
  job.id < T.nextID ∧ (job ∈ T.rows ∨ ∀ row ∈ T.rows, row.id ≠ job.id)

theorem stays_evolves (hterminal : job.status.isTerminal = true) (h : Stays job T)
    (he : Evolves T T') : Stays job T' := by
  refine ⟨h.1.trans_le he.nextID_le, ?_⟩
  rcases h.2 with hjob | hgone
  · rcases he.kept job hjob with ⟨job', hjob', hstep⟩ | ⟨-, hgone⟩
    · exact .inl (eq_of_terminal hterminal hstep ▸ hjob')
    · exact .inr hgone
  · refine .inr fun row hrow hid => ?_
    rcases he.origin row hrow with ⟨old, hold, hstep⟩ | ⟨hnew, -⟩
    · exact hgone old hold (hstep.sameKeys.1.symm.trans hid)
    · exact absurd h.1 (not_lt.mpr (hid ▸ hnew))

def execAll (T : JobTable) (calls : List Call) : JobTable := calls.foldl Call.exec T

theorem execAll_induction {P : JobTable → Prop} (hstep : ∀ T T', P T → Evolves T T' → P T')
    (calls : List Call) (T : JobTable) (h : P T) : P (execAll T calls) := by
  induction calls generalizing T with
  | nil => exact h
  | cons call calls ih => exact ih (call.exec T) (hstep T _ h (evolves_exec T call))

/-- After any calls every row is legal, and a terminal row is changed by no further calls: it stays
as it is until it is deleted, and its identifier does not come back. -/
theorem jobs_legal_and_terminal_final (earlier later : List Call) :
    (∀ job ∈ (execAll .empty earlier).rows, job.Legal) ∧
      ∀ job ∈ (execAll .empty earlier).rows, job.status.isTerminal = true →
        job ∈ (execAll (execAll .empty earlier) later).rows ∨
          ∀ row ∈ (execAll (execAll .empty earlier) later).rows, row.id ≠ job.id := by
  constructor
  · exact execAll_induction (P := fun T => ∀ job ∈ T.rows, job.Legal)
      (fun T T' h he => legal_evolves h he) earlier .empty fun _ h => nomatch h
  · intro job hjob hterminal
    have hstays : Stays job (execAll .empty earlier) := ⟨JobTable.ids_below _ job hjob, .inl hjob⟩
    exact (execAll_induction (P := Stays job) (fun T T' h he => stays_evolves hterminal h he)
      later _ hstays).2

end NostrMash.Queue
