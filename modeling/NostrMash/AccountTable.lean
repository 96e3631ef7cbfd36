import NostrMash.AccountState
import NostrMash.OldestFirst

/-!
# The table of account states

Rows are keyed by a normalized public key. Every statement of the account store that writes a row
is a function on rows, and `put` stores the result.
-/

namespace NostrMash.Account
open List

/-- A key in the form the account store writes: trimmed, lowered and not empty. -/
structure Pubkey where
  text : String
  normal : toLower (trimSpace text) = text
  nonempty : text ≠ ""
  deriving DecidableEq

def normalizePubkey (s : String) : Except String Pubkey :=
  if h : toLower (trimSpace s) = "" then .error "pubkey is required"
  else .ok ⟨toLower (trimSpace s), toLower_trimSpace_idem s, h⟩

structure Row where
  pubkey : Pubkey
  state : State
  derivedState : State
  manualOverride : Option State
  firstTrackedAt : Option ℤ
  observedCount : ℤ
  updatedAt : ℤ
  deriving DecidableEq

variable {r : Row}

namespace Row

def tracked (r : Row) : Bool := r.firstTrackedAt.isSome

def applyAccountStateUpdate (now : ℤ) (derived effective : State) (r : Row) : Row :=
  { r with derivedState := derived, state := effective, updatedAt := now }

def applyAccountManualOverride (now : ℤ) (override : Option State) (effective : State)
    (r : Row) : Row :=
  { r with manualOverride := override, state := effective, updatedAt := now }

def promoteAccountToTracked (now : ℤ) (r : Row) : Row :=
  { r with
    firstTrackedAt := some (r.firstTrackedAt.getD now)
    state :=
      if r.manualOverride.isSome then r.state
      else if r.state = .tracked ∨ r.state = .strategic then r.state
      else .tracked
    updatedAt := now }

def unknownAccountState (now : ℤ) (p : Pubkey) : Row where
  pubkey := p
  state := .unknown
  derivedState := .unknown
  manualOverride := none
  firstTrackedAt := none
  observedCount := 0
  updatedAt := now

def trackedAccountState (now : ℤ) (p : Pubkey) : Row :=
  { unknownAccountState now p with state := .tracked, firstTrackedAt := some now }

def Effective (r : Row) : Prop :=
  r.state = effectiveState r.derivedState r.manualOverride r.tracked

instance (r : Row) : Decidable r.Effective :=
  inferInstanceAs (Decidable (r.state = effectiveState r.derivedState r.manualOverride r.tracked))

theorem effective_unknownAccountState (now : ℤ) (p : Pubkey) :
    (unknownAccountState now p).Effective := rfl

theorem effective_promote (now : ℤ) (h : r.Effective) :
    (r.promoteAccountToTracked now).Effective := by
  unfold Effective at h ⊢
  cases ho : r.manualOverride with
  | some st =>
    rw [ho] at h
    simpa [promoteAccountToTracked, ho] using h
  | none =>
    have hmark : (r.promoteAccountToTracked now).tracked = true := rfl
    rw [hmark]
    simp only [promoteAccountToTracked, ho, Option.isSome_none, Bool.false_eq_true, if_false, h]
    cases r.tracked <;> cases r.derivedState <;> decide

variable {effective : State}

theorem effective_manualOverride (now : ℤ) {override : Option State}
    (h : effective = effectiveState r.derivedState override r.tracked) :
    (r.applyAccountManualOverride now override effective).Effective := h

theorem effective_stateUpdate (now : ℤ) {derived : State}
    (h : effective = effectiveState derived r.manualOverride r.tracked) :
    (r.applyAccountStateUpdate now derived effective).Effective := h

end Row

structure Table where
  rows : List Row
  unique : (rows.map Row.pubkey).Nodup

namespace Table

def find (T : Table) (p : Pubkey) : Option Row := T.rows.find? (·.pubkey = p)

def replace (r : Row) (rows : List Row) : List Row :=
  rows.map fun q => if q.pubkey = r.pubkey then r else q

theorem replace_pubkeys (r : Row) (rows : List Row) :
    (replace r rows).map Row.pubkey = rows.map Row.pubkey := by
  simp only [replace, map_map, Function.comp_def]
  apply map_congr_left
  intro q _
  split_ifs with h
  · exact h.symm
  · rfl

def put (T : Table) (r : Row) : Table :=
  if h : r.pubkey ∈ T.rows.map Row.pubkey then
    { rows := replace r T.rows
      unique := by rw [replace_pubkeys]; exact T.unique }
  else
    { rows := T.rows ++ [r]
      unique := by
        rw [map_append, map_singleton]
        exact List.Nodup.append T.unique (nodup_singleton _) (by simpa using h) }

variable {T : Table}

theorem mem_put {q : Row} :
    q ∈ (T.put r).rows ↔ q = r ∨ (q ∈ T.rows ∧ q.pubkey ≠ r.pubkey) := by
  unfold put
  split_ifs with h
  · obtain ⟨o, ho, hk⟩ := mem_map.mp h
    simp only [replace, mem_map]
    constructor
    · rintro ⟨x, hx, rfl⟩
      split_ifs with hxk
      · exact .inl rfl
      · exact .inr ⟨hx, hxk⟩
    · rintro (rfl | ⟨hq, hne⟩)
      · exact ⟨o, ho, if_pos hk⟩
      · exact ⟨q, hq, if_neg hne⟩
  · simp only [mem_append, mem_singleton]
    constructor
    · rintro (hq | rfl)
      · exact .inr ⟨hq, fun hk => h (hk ▸ mem_map_of_mem hq)⟩
      · exact .inl rfl
    · rintro (rfl | ⟨hq, _⟩)
      · exact .inr rfl
      · exact .inl hq

theorem mem_of_find {p : Pubkey} (h : T.find p = some r) :
    r ∈ T.rows ∧ r.pubkey = p :=
  ⟨List.mem_of_find?_eq_some h, by simpa using List.find?_some h⟩

theorem find_of_mem (h : r ∈ T.rows) : T.find r.pubkey = some r := by
  cases hf : T.find r.pubkey with
  | none => exact absurd (List.find?_eq_none.mp hf r h) (by simp)
  | some q =>
    obtain ⟨hq, hk⟩ := mem_of_find hf
    rw [inj_on_of_nodup_map T.unique hq h hk]

def loadPubkeysByStates (T : Table) (states : List State) : List Pubkey :=
  (T.rows.filter (·.state ∈ states)).map Row.pubkey

end Table

structure Projections where
  trustHops : Pubkey → Option ℤ
  hasProfile : Pubkey → Bool
  noteCount : Pubkey → Option ℤ

structure SignalRow where
  pubkey : Pubkey
  trustHops : ℤ
  observedCount : ℤ
  hasProfile : Bool
  noteCount : ℤ
  currentState : State
  currentDerived : State
  manualOverride : Option State
  tracked : Bool
  deriving DecidableEq

namespace SignalRow

def ofRow (P : Projections) (r : Row) : SignalRow where
  pubkey := r.pubkey
  trustHops := (P.trustHops r.pubkey).getD (-1)
  observedCount := r.observedCount
  hasProfile := P.hasProfile r.pubkey
  noteCount := (P.noteCount r.pubkey).getD 0
  currentState := r.state
  currentDerived := r.derivedState
  manualOverride := r.manualOverride
  tracked := r.tracked

/-- The engagement signal is never filled in by the recompute loop. -/
def derived (row : SignalRow) : State :=
  resolve
    { trustHops := row.trustHops
      observedCount := row.observedCount
      engagedByTrustedCount := 0
      hasProfileMetadata := row.hasProfile
      noteCount := row.noteCount } defaultParams

def effective (row : SignalRow) : State :=
  effectiveState row.derived row.manualOverride row.tracked

def Unchanged (row : SignalRow) : Prop :=
  row.derived = row.currentDerived ∧ row.effective = row.currentState

instance (row : SignalRow) : Decidable row.Unchanged :=
  inferInstanceAs (Decidable (row.derived = row.currentDerived ∧ row.effective = row.currentState))

end SignalRow

structure RecomputeConfig where
  staleAfter : ℤ
  batchSize : ℤ

/-- The cutoff a cycle started at `now` passes to its query, or none for an unfiltered one. -/
def RecomputeConfig.staleBefore (cfg : RecomputeConfig) (now : ℤ) : Option ℤ :=
  if cfg.staleAfter > 0 then some (now - cfg.staleAfter) else none

/-- The default of `ListAccountSignalsForRecompute` for a limit that is not positive. -/
def batchLimit (limit : ℤ) : ℕ := if limit ≤ 0 then 500 else limit.toNat

/-- The rows a recompute cycle reads. -/
def listAccountSignalsForRecompute (P : Projections) (heap : List Row) (limit : ℤ)
    (staleBefore : Option ℤ) : List SignalRow :=
  (oldest Row.updatedAt (batchLimit limit)
    (heap.filter fun r => staleBefore.all (r.updatedAt < ·))).map (SignalRow.ofRow P)

end NostrMash.Account
