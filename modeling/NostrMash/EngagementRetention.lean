import Mathlib
import NostrMash.Machine
import NostrMash.CountLedger

/-!
# Engagement retention and the lifetime counters

`PurgeExpiredEngagementEvents` deletes old raw engagement events in bounded batches. The event
delete cascades to the contribution rows of the deleted sources and leaves the counts tables alone.
-/

namespace NostrMash

structure EventRow where
  id : String
  kind : ℕ
  createdAt : ℤ
  tags : List Tag
  deriving DecidableEq

inductive JobStatus where
  | pending
  | running
  | succeeded
  | dead
  deriving DecidableEq

structure Job where
  status : JobStatus
  updatedAt : ℤ
  deriving DecidableEq

inductive CountFamily where
  | reply
  | reaction
  | repost
  deriving DecidableEq

namespace CountFamily

def derivationName : CountFamily → String
  | .reply => "reply_counts"
  | .reaction => "reaction_counts"
  | .repost => "repost_counts"

def projector : CountFamily → ℕ → List ETagRef → List String
  | .reply, kind, refs =>
    if kind ≠ 1 then []
    else if replyParentEventID refs = "" then [] else [replyParentEventID refs]
  | .reaction, kind, refs => if kind ≠ 7 then [] else refs.map (·.id)
  | .repost, kind, refs => if kind ≠ 6 ∧ kind ≠ 16 then [] else refs.map (·.id)

def referencedIDs (family : CountFamily) (e : EventRow) : List String :=
  normalizeUniqueIDs (family.projector e.kind (deriveETagReferences e.tags))

end CountFamily

structure EngagementStore where
  events : List EventRow
  /-- The `derive_event_bundle` job of an event id. -/
  jobs : String → Option Job
  tables : CountFamily → CountTables

namespace EngagementStore

def empty : EngagementStore where
  events := []
  jobs := fun _ => none
  tables := fun _ => CountTables.empty

def insertEvent (S : EngagementStore) (e : EventRow) : EngagementStore :=
  if S.events.any (·.id = e.id) then S else { S with events := S.events ++ [e] }

def setJob (S : EngagementStore) (eventID : String) (job : Option Job) : EngagementStore :=
  { S with jobs := Function.update S.jobs eventID job }

def loadReferencedIDs (S : EngagementStore) (family : CountFamily) (eventID : String) :
    Except String (List String) :=
  if trimSpace eventID = "" then .error "event id is required"
  else match S.events.find? (·.id = trimSpace eventID) with
    | none => .error ("load event kind for " ++ family.derivationName ++ ": no rows in result set")
    | some e => .ok (family.referencedIDs e)

def setTables (S : EngagementStore) (family : CountFamily) (T : CountTables) : EngagementStore :=
  { S with tables := Function.update S.tables family T }

def projectCounts (S : EngagementStore) (family : CountFamily) (eventID : String) :
    Except String EngagementStore := do
  let referenced ← S.loadReferencedIDs family eventID
  return S.setTables family ((S.tables family).projectCounts (trimSpace eventID) referenced)

def expiredEngagementKinds : List ℕ := [6, 7, 1018, 1059, 1311, 9321, 9735]

def protectsEvent (deadGraceBefore : ℤ) : Option Job → Bool
  | none => false
  | some job =>
    match job.status with
    | .pending => true
    | .running => true
    | .succeeded => false
    | .dead => deadGraceBefore < job.updatedAt

def selectExpiredEngagementEventCandidates (S : EngagementStore)
    (createdBefore deadGraceBefore : ℤ) (rowLimit : ℕ) : List String :=
  let candidates := S.events.filter fun e =>
    e.kind ∈ expiredEngagementKinds && decide (e.createdAt < createdBefore) &&
      !protectsEvent deadGraceBefore (S.jobs e.id)
  let ordered := candidates.insertionSort fun a b =>
    a.createdAt < b.createdAt ∨ (a.createdAt = b.createdAt ∧ a.id ≤ b.id)
  (ordered.take rowLimit).map (·.id)

def cascade (ids : List String) (T : CountTables) : CountTables where
  contributions := T.contributions.filter (·.1 ∉ ids)
  nodup := T.nodup.filter _
  counts := T.counts

def deleteEventsByID (S : EngagementStore) (ids : List String) : EngagementStore :=
  { S with
    events := S.events.filter (·.id ∉ ids)
    tables := fun family => cascade ids (S.tables family) }

def int32 (n : ℤ) : ℤ := (n + 2 ^ 31) % 2 ^ 32 - 2 ^ 31

/-- A purge batch. -/
def purgeExpiredEngagementEvents (S : EngagementStore) (createdBefore deadGraceBefore : Option ℤ)
    (limit : ℤ) : Except String EngagementStore :=
  if limit ≤ 0 then .error "limit must be > 0"
  else match createdBefore, deadGraceBefore with
    | none, _ => .error "createdBefore is required"
    | some _, none => .error "deadGraceBefore is required"
    | some before, some grace =>
      if int32 limit < 0 then
        .error "purge expired engagement events: select expired engagement event candidates: LIMIT must not be negative"
      else .ok (S.deleteEventsByID
        (S.selectExpiredEngagementEventCandidates before grace (int32 limit).toNat))

end EngagementStore

namespace EngagementRetention
open EngagementStore CountTables Machine Option

structure State where
  store : EngagementStore
  ledger : CountFamily → Ledger

def init : State where
  store := EngagementStore.empty
  ledger := fun _ => []

inductive Action where
  | insertEvent (e : EventRow)
  | setJob (eventID : String) (job : Option Job)
  | project (family : CountFamily) (eventID : String)
  | purge (createdBefore deadGraceBefore : Option ℤ) (limit : ℤ)

def step (σ : State) : Action → Option State
  | .insertEvent e => some { σ with store := σ.store.insertEvent e }
  | .setJob id job => some { σ with store := σ.store.setJob id job }
  | .project family id =>
    match σ.store.loadReferencedIDs family id, σ.store.projectCounts family id with
    | .ok referenced, .ok S => some
        { store := S
          ledger := Function.update σ.ledger family
            ((σ.ledger family).record (trimSpace id) referenced) }
    | _, _ => some σ
  | .purge before grace limit =>
    match σ.store.purgeExpiredEngagementEvents before grace limit with
    | .ok S => some { σ with store := S }
    | .error _ => some σ

def CountsExact (σ : State) : Prop :=
  ∀ family, (σ.store.tables family).Exact (σ.ledger family)

/-- The condition on a projection: none of the contribution rows it relies on has been purged. -/
def RowsPresent (σ : State) : Action → Prop
  | .project family id => ∀ referenced, σ.store.loadReferencedIDs family id = .ok referenced →
      (σ.store.tables family).Recountable (σ.ledger family) (trimSpace id) referenced
  | _ => True

/-- A projection of a source that was not counted before lowers no count. -/
def NeverLowered (as : List Action) : Prop :=
  ∀ bs family id, bs ++ [.project family id] <+: as → ∀ σ τ, run step init bs = some σ →
    step σ (.project family id) = some τ →
    (∀ t, ¬ (σ.ledger family).Counted (trimSpace id) t) →
    ∀ t, (σ.store.tables family).count t ≤ (τ.store.tables family).count t

def CountersSurvive (as : List Action) : Prop :=
  Always step CountsExact init as ∧ NeverLowered as

def AllBacked (σ : State) : Prop := ∀ family, (σ.store.tables family).Backed (σ.ledger family)

theorem step_project (σ : State) (family : CountFamily) (id : String) :
    (∃ referenced, σ.store.loadReferencedIDs family id = .ok referenced ∧
      step σ (.project family id) = some
        { store := σ.store.setTables family
            ((σ.store.tables family).projectCounts (trimSpace id) referenced)
          ledger := Function.update σ.ledger family
            ((σ.ledger family).record (trimSpace id) referenced) }) ∨
    (∃ e, σ.store.loadReferencedIDs family id = .error e ∧
      step σ (.project family id) = some σ) := by
  cases h : σ.store.loadReferencedIDs family id with
  | ok referenced =>
    refine .inl ⟨referenced, rfl, ?_⟩
    simp only [step, EngagementStore.projectCounts, h]
    rfl
  | error e => exact .inr ⟨e, rfl, by simp only [step, EngagementStore.projectCounts, h]⟩

variable {σ τ : State}

theorem step_purge {before grace : Option ℤ} {limit : ℤ}
    (h : step σ (.purge before grace limit) = some τ) : τ.ledger = σ.ledger ∧ ∀ family,
      (τ.store.tables family).counts = (σ.store.tables family).counts ∧
      (τ.store.tables family).contributions ⊆ (σ.store.tables family).contributions := by
  simp only [step] at h
  cases hp : σ.store.purgeExpiredEngagementEvents before grace limit with
  | error e =>
    rw [hp] at h
    cases h
    exact ⟨rfl, fun _ => ⟨rfl, fun _ hp => hp⟩⟩
  | ok S =>
    rw [hp] at h
    cases h
    refine ⟨rfl, fun family => ?_⟩
    simp only [purgeExpiredEngagementEvents] at hp
    split at hp
    · cases hp
    · rcases before with _ | before <;> rcases grace with _ | grace <;> try cases hp
      dsimp only at hp
      split at hp
      · cases hp
      · cases hp
        exact ⟨rfl, List.filter_subset_self _⟩

theorem insertEvent_tables (S : EngagementStore) (e : EventRow) :
    (S.insertEvent e).tables = S.tables := by
  unfold insertEvent
  split_ifs <;> rfl

variable {a : Action}

theorem backed_step (h : AllBacked σ) (hs : step σ a = some τ) :
    AllBacked τ := by
  intro family
  cases a with
  | insertEvent e =>
    cases hs
    simpa only [insertEvent_tables] using h family
  | setJob id job =>
    cases hs
    exact h family
  | project fam id =>
    rcases step_project σ fam id with ⟨R, _, he⟩ | ⟨_, _, he⟩
    · obtain rfl := some.inj (he.symm.trans hs)
      by_cases hf : family = fam
      · subst hf
        simpa [setTables] using backed_projectCounts (h family) (trimSpace id) R
      · simpa [setTables, hf] using h family
    · obtain rfl := some.inj (he.symm.trans hs)
      exact h family
  | purge before grace limit =>
    obtain ⟨hl, ht⟩ := step_purge hs
    rw [hl]
    exact ⟨(h family).functional, fun p hp => (h family).counted p ((ht family).2 hp)⟩

theorem countsExact_step_iff (hb : AllBacked σ) (hx : CountsExact σ) (hs : step σ a = some τ) :
    CountsExact τ ↔ RowsPresent σ a := by
  cases a with
  | insertEvent e =>
    cases hs
    exact iff_of_true (by simpa only [CountsExact, insertEvent_tables] using hx) trivial
  | setJob id job =>
    cases hs
    exact iff_of_true hx trivial
  | purge before grace limit =>
    obtain ⟨hl, ht⟩ := step_purge hs
    refine iff_of_true (fun family t => ?_) trivial
    rw [hl, ← hx family t, count, count, (ht family).1]
  | project fam id =>
    rcases step_project σ fam id with ⟨R, hR, he⟩ | ⟨e, herr, he⟩
    · obtain rfl := some.inj (he.symm.trans hs)
      have hiff := exact_projectCounts_iff (hb fam) (hx fam) (trimSpace id) R
      simp only [RowsPresent, hR, Except.ok.injEq, forall_eq']
      rw [← hiff]
      constructor
      · intro hall
        simpa [setTables] using hall fam
      · intro hone family
        by_cases hf : family = fam
        · subst hf
          simpa [setTables] using hone
        · simpa [setTables, hf] using hx family
    · obtain rfl := some.inj (he.symm.trans hs)
      refine iff_of_true hx fun R hR => ?_
      rw [herr] at hR
      cases hR

theorem step_total (σ : State) (a : Action) : ∃ τ, step σ a = some τ := by
  cases a with
  | insertEvent e => exact ⟨_, rfl⟩
  | setJob id job => exact ⟨_, rfl⟩
  | project fam id =>
    rcases step_project σ fam id with ⟨_, _, he⟩ | ⟨_, _, he⟩ <;> exact ⟨_, he⟩
  | purge before grace limit =>
    simp only [step]
    split <;> exact ⟨_, rfl⟩

theorem allBacked_init : AllBacked init :=
  fun _ => ⟨List.nodup_nil, fun _ hp => nomatch hp⟩

theorem neverLowered_of_exact {as : List Action} (h : Always step CountsExact init as) :
    NeverLowered as := by
  intro bs family id hpre σ τ hσ hτ hnew t
  have hσx : CountsExact σ := h bs ((List.prefix_append bs _).trans hpre) σ hσ
  have hτx : CountsExact τ := by
    apply h _ hpre τ
    rw [run_append, hσ]
    simp [hτ]
  have hback : AllBacked σ := run_invariant_of_step (fun _ _ _ => backed_step) allBacked_init hσ
  rw [hσx family t, hτx family t]
  rcases step_project σ family id with ⟨R, _, he⟩ | ⟨_, _, he⟩
  · obtain rfl := some.inj (he.symm.trans hτ)
    simpa using lifetime_le_record (hback family).functional hnew R t
  · obtain rfl := some.inj (he.symm.trans hτ)
    exact le_rfl

/-- The lifetime counters survive a run exactly when no projection of it recounts a target that
has lost a contribution row to an earlier purge. -/
theorem counters_survive_iff_rows_present (as : List Action) :
    CountersSurvive as ↔ Guarded step RowsPresent init as := by
  have hiff : Always step CountsExact init as ↔ Guarded step RowsPresent init as := by
    apply always_iff_guarded (J := AllBacked) (fun _ _ _ => backed_step)
      (fun _ _ _ => countsExact_step_iff) _ allBacked_init fun _ _ => rfl
    intro σ a _ _ hnone
    obtain ⟨τ, hτ⟩ := step_total σ a
    rw [hτ] at hnone
    cases hnone
  exact ⟨fun h => hiff.mp h.1, fun h => ⟨hiff.mpr h, neverLowered_of_exact (hiff.mpr h)⟩⟩

def reaction (id : String) (createdAt : ℤ) : EventRow :=
  { id := id, kind := 7, createdAt := createdAt, tags := [["e", "note"]] }

def purgeThenReact : List Action :=
  [.insertEvent (reaction "r1" 10), .project .reaction "r1",
   .insertEvent (reaction "r2" 20), .project .reaction "r2",
   .purge (some 100) (some 50) 1000,
   .insertEvent (reaction "r3" 200), .project .reaction "r3"]

/-- The stored count falls from two to one, while three reactions have been counted. -/
theorem purge_then_react_loses_counts : ¬ CountersSurvive purgeThenReact ∧
      ((run step init purgeThenReact).map fun σ =>
        ((σ.store.tables .reaction).count "note", (σ.ledger .reaction).lifetime "note")) =
          some (1, 3) ∧ ((run step init (purgeThenReact.take 6)).map fun σ =>
        (σ.store.tables .reaction).count "note") = some 2 := by
  have hend : ((run step init purgeThenReact).map fun σ =>
      ((σ.store.tables .reaction).count "note", (σ.ledger .reaction).lifetime "note")) =
        some (1, 3) := by decide
  refine ⟨fun h => ?_, hend, by decide⟩
  obtain ⟨σ, hσ, hpair⟩ := map_eq_some_iff.mp hend
  have hx := h.1 purgeThenReact (List.prefix_refl _) σ hσ .reaction "note"
  rw [Prod.mk.injEq] at hpair
  omega

end EngagementRetention
end NostrMash
