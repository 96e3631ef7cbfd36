import NostrMash.TopRows
import Mathlib.Data.Prod.Lex
import Mathlib.Data.String.Basic

/-!
# The relay registry

`relay_registry` has one row for each relay: where it came from, the override of the operator, its
state in the admission life cycle, its score and what the probes found.
-/

namespace NostrMash.RelayRegistry
open KeysetPaging List

inductive ManualPolicy where
  | none
  | pinned
  | blocked
  | drained
  deriving DecidableEq

inductive AdmissionState where
  | candidate
  | probation
  | active
  | inactive
  | blocked
  | draining
  | pinned
  deriving DecidableEq

inductive ProbeStatus where
  | ok
  | connectFailed
  | subscribeFailed
  | subscriptionClosed
  | eoseTimeout
  | protocolError
  | rateLimited
  | unknownError
  deriving DecidableEq

structure RelayRecord (K : Type*) where
  urlKey : String
  normalizedURL : String
  sourceSeed : Bool
  sourceUserList : Bool
  sourceManual : Bool
  manualPolicy : ManualPolicy
  admissionState : AdmissionState
  score : K
  distinctUserRefCount : ℤ
  weightedUserRefScore : K
  lastProbeStatus : Option ProbeStatus
  lastConnectOK : Option Bool
  avgConnectLatency : Option K
  probeFailRate : K
  yieldScore : K
  duplicateRatio : K
  firstSeenShare : K
  exclusiveShare : K
  blockedRefCount : ℤ

/-- The rows, with the primary key and the unique index on the URL. -/
structure Registry (K : Type*) where
  rows : List (RelayRecord K)
  urlKey_nodup : (rows.map RelayRecord.urlKey).Nodup
  normalizedURL_nodup : (rows.map RelayRecord.normalizedURL).Nodup

variable {K : Type*}

namespace Registry

section
variable {reg : Registry K} {r r' : RelayRecord K} {key : String}

def get (reg : Registry K) (urlKey : String) : Option (RelayRecord K) :=
  reg.rows.find? fun r => r.urlKey = urlKey

def stateOf (reg : Registry K) (urlKey : String) : Option AdmissionState :=
  (reg.get urlKey).map RelayRecord.admissionState

theorem nodup (reg : Registry K) : reg.rows.Nodup := reg.urlKey_nodup.of_map _

theorem eq_of_urlKey (hr : r ∈ reg.rows) (hr' : r' ∈ reg.rows) (h : r.urlKey = r'.urlKey) :
    r = r' :=
  inj_on_of_nodup_map reg.urlKey_nodup hr hr' h

theorem get_eq_some : reg.get key = some r ↔ r ∈ reg.rows ∧ r.urlKey = key := by
  constructor
  · intro h
    exact ⟨List.mem_of_find?_eq_some h, by simpa using List.find?_some h⟩
  · rintro ⟨hr, rfl⟩
    obtain ⟨r', hr'⟩ : ∃ r', reg.get r.urlKey = some r' :=
      Option.isSome_iff_exists.mp (List.find?_isSome.mpr ⟨r, hr, by simp⟩)
    have hmem := List.mem_of_find?_eq_some hr'
    have hkey : r'.urlKey = r.urlKey := by simpa using List.find?_some hr'
    rw [hr', eq_of_urlKey hmem hr hkey]

theorem get_of_mem (h : r ∈ reg.rows) : reg.get r.urlKey = some r := get_eq_some.mpr ⟨h, rfl⟩

theorem stateOf_of_mem (h : r ∈ reg.rows) : reg.stateOf r.urlKey = some r.admissionState := by
  rw [stateOf, get_of_mem h, Option.map_some]

end

def update (reg : Registry K) (p : RelayRecord K → Bool) (f : RelayRecord K → RelayRecord K)
    (hkey : ∀ r, (f r).urlKey = r.urlKey) (hurl : ∀ r, (f r).normalizedURL = r.normalizedURL) :
    Registry K where
  rows := reg.rows.map fun r => if p r then f r else r
  urlKey_nodup := by
    have hsame : (reg.rows.map fun r => if p r then f r else r).map RelayRecord.urlKey =
        reg.rows.map RelayRecord.urlKey := by
      rw [map_map]
      exact map_congr_left fun r _ => by dsimp only [Function.comp]; split_ifs <;> simp [hkey]
    exact hsame ▸ reg.urlKey_nodup
  normalizedURL_nodup := by
    have hsame : (reg.rows.map fun r => if p r then f r else r).map RelayRecord.normalizedURL =
        reg.rows.map RelayRecord.normalizedURL := by
      rw [map_map]
      exact map_congr_left fun r _ => by dsimp only [Function.comp]; split_ifs <;> simp [hurl]
    exact hsame ▸ reg.normalizedURL_nodup

def setAdmissionState (reg : Registry K) (urlKey : String) (state : AdmissionState) (score : K) :
    Registry K :=
  reg.update (fun r => r.urlKey = urlKey)
    (fun r => { r with admissionState := state, score := score }) (fun _ => rfl) fun _ => rfl

theorem rows_setAdmissionState (reg : Registry K) (urlKey : String) (state : AdmissionState)
    (score : K) : (reg.setAdmissionState urlKey state score).rows = reg.rows.map fun r =>
      if r.urlKey = urlKey then { r with admissionState := state, score := score } else r := by
  simp [setAdmissionState, update]

def setManualPolicy (reg : Registry K) (urlKey : String) (policy : ManualPolicy) :
    Except String (Registry K) :=
  if (reg.get urlKey).isSome then
    .ok (reg.update (fun r => r.urlKey = urlKey)
      (fun r => { r with manualPolicy := policy, sourceManual := policy ≠ .none })
      (fun _ => rfl) fun _ => rfl)
  else .error ("relay \"" ++ urlKey ++ "\" not found in registry")

end Registry

variable [LinearOrder K]

structure ListFilter where
  admissionStates : List AdmissionState := []
  manualPolicies : List ManualPolicy := []
  limit : ℤ

def ListFilter.accepts (filter : ListFilter) (r : RelayRecord K) : Bool :=
  (filter.admissionStates.isEmpty || filter.admissionStates.contains r.admissionState) &&
    (filter.manualPolicies.isEmpty || filter.manualPolicies.contains r.manualPolicy)

def ListFilter.size (filter : ListFilter) : ℕ :=
  if filter.limit ≤ 0 then 500 else filter.limit.toNat

/-- `score DESC, normalized_url ASC`. -/
def listingKey (r : RelayRecord K) : K ×ₗ Stringᵒᵈ :=
  toLex (r.score, OrderDual.toDual r.normalizedURL)

def Registry.listRelays (reg : Registry K) (filter : ListFilter) : List (RelayRecord K) :=
  (descending listingKey (reg.rows.filter filter.accepts)).take filter.size

variable {reg : Registry K} {filter : ListFilter} {r : RelayRecord K}

omit [LinearOrder K] in
theorem Registry.keyed (reg : Registry K) : Keyed listingKey reg.rows := by
  intro a ha b hb h
  have hurl : a.normalizedURL = b.normalizedURL := congrArg (fun k => (ofLex k).2) h
  exact inj_on_of_nodup_map reg.normalizedURL_nodup ha hb hurl

theorem listingKey_lt {a b : RelayRecord K} (h : a.score < b.score) : listingKey a < listingKey b :=
  Prod.Lex.toLex_lt_toLex.mpr (.inl h)

theorem Registry.mem_listRelays : r ∈ reg.listRelays filter ↔
    (r ∈ reg.rows ∧ filter.accepts r = true) ∧
      (above listingKey (reg.rows.filter filter.accepts) r).length < filter.size := by
  rw [listRelays, mem_take_descending (reg.keyed.mono fun _ h => (mem_filter.mp h).1), mem_filter]

theorem Registry.mem_rows_of_listed (h : r ∈ reg.listRelays filter) : r ∈ reg.rows :=
  (mem_listRelays.mp h).1.1

theorem Registry.nodup_listRelays : (reg.listRelays filter).Nodup :=
  (descending_nodup (reg.nodup.filter _)).sublist (take_sublist _ _)

theorem Registry.urlKey_nodup_listRelays : ((reg.listRelays filter).map RelayRecord.urlKey).Nodup :=
  nodup_listRelays.map_on fun _ ha _ hb h =>
    eq_of_urlKey (mem_rows_of_listed ha) (mem_rows_of_listed hb) h

theorem Registry.perm_listRelays (h : (reg.rows.filter filter.accepts).length ≤ filter.size) :
    (reg.listRelays filter).Perm (reg.rows.filter filter.accepts) := by
  rw [listRelays, take_of_length_le (by rwa [(perm_descending _).length_eq])]
  exact perm_descending _

end NostrMash.RelayRegistry
