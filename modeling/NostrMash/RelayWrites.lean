import NostrMash.ListingLimits
import NostrMash.Machine

/-!
# Writes to the relay registry

Operators set overrides, seeds are reconciled before each cycle, discovery adds candidates and probes
report what they found. A statement that would break the unique index on the URL fails, and a failed
statement changes nothing.
-/

namespace NostrMash.RelayAdmission
open RelayRegistry List
variable {K : Type*}

def insertRow (reg : Registry K) (r : RelayRecord K) : Option (Registry K) :=
  if h : r.urlKey ∉ reg.rows.map RelayRecord.urlKey ∧
      r.normalizedURL ∉ reg.rows.map RelayRecord.normalizedURL then
    some ⟨r :: reg.rows, nodup_cons.mpr ⟨h.1, reg.urlKey_nodup⟩,
      nodup_cons.mpr ⟨h.2, reg.normalizedURL_nodup⟩⟩
  else none

def updateRow (reg : Registry K) (urlKey : String) (f : RelayRecord K → RelayRecord K)
    (hkey : ∀ r, (f r).urlKey = r.urlKey) : Option (Registry K) :=
  if h : ((reg.rows.map fun r => if r.urlKey = urlKey then f r else r).map
      RelayRecord.normalizedURL).Nodup then
    some ⟨reg.rows.map fun r => if r.urlKey = urlKey then f r else r, by
      have hsame : (reg.rows.map fun r => if r.urlKey = urlKey then f r else r).map
          RelayRecord.urlKey = reg.rows.map RelayRecord.urlKey := by
        rw [map_map]
        exact map_congr_left fun r _ => by
          dsimp only [Function.comp]
          split_ifs
          · exact hkey r
          · rfl
      exact hsame ▸ reg.urlKey_nodup, h⟩
  else none

def upsertRow (reg : Registry K) (new : RelayRecord K) (f : RelayRecord K → RelayRecord K)
    (hkey : ∀ r, (f r).urlKey = r.urlKey) : Option (Registry K) :=
  if (reg.get new.urlKey).isSome then updateRow reg new.urlKey f hkey else insertRow reg new

section
variable [Zero K]

def newRow (urlKey normalizedURL : String) : RelayRecord K where
  urlKey := urlKey
  normalizedURL := normalizedURL
  sourceSeed := false
  sourceUserList := false
  sourceManual := false
  manualPolicy := .none
  admissionState := .candidate
  score := 0
  distinctUserRefCount := 0
  weightedUserRefScore := 0
  lastProbeStatus := some .unknownError
  lastConnectOK := none
  avgConnectLatency := none
  probeFailRate := 0
  yieldScore := 0
  duplicateRatio := 0
  firstSeenShare := 0
  exclusiveShare := 0
  blockedRefCount := 0

def operatorPinned (r : RelayRecord K) : Bool := r.sourceManual && decide (r.manualPolicy = .pinned)

def seedRow (normalizedURL : String) (r : RelayRecord K) : RelayRecord K :=
  { r with
    sourceSeed := true
    normalizedURL := normalizedURL
    manualPolicy :=
      if r.manualPolicy = .blocked ∨ r.manualPolicy = .drained then r.manualPolicy
      else if operatorPinned r then r.manualPolicy
      else .none
    admissionState :=
      if r.manualPolicy = .blocked ∨ r.manualPolicy = .drained then r.admissionState
      else if operatorPinned r then r.admissionState
      else if r.admissionState = .pinned then .active
      else r.admissionState }

def upsertSeedRelay (reg : Registry K) (urlKey normalizedURL : String) : Option (Registry K) :=
  upsertRow reg
    { newRow urlKey normalizedURL with sourceSeed := true, admissionState := .active }
    (seedRow normalizedURL) fun _ => rfl

def formerSeedRow (r : RelayRecord K) : RelayRecord K :=
  { r with
    sourceSeed := false
    manualPolicy :=
      if operatorPinned r then r.manualPolicy
      else if r.manualPolicy = .pinned then .none
      else r.manualPolicy
    admissionState :=
      if operatorPinned r then r.admissionState
      else if r.admissionState = .pinned then .inactive
      else r.admissionState }

def clearMissingSeedRelays (reg : Registry K) (keepURLKeys : List String) : Registry K :=
  reg.update (fun r => r.sourceSeed && decide (r.urlKey ∉ keepURLKeys)) formerSeedRow
    (fun _ => rfl) fun _ => rfl

def ensureRelayExists (reg : Registry K) (urlKey normalizedURL : String) : Option (Registry K) :=
  upsertRow reg (newRow urlKey normalizedURL)
    (fun r => { r with normalizedURL := normalizedURL }) fun _ => rfl

def upsertDiscoveredRelay (reg : Registry K) (urlKey normalizedURL : String)
    (distinctUserRefCount : ℤ) (weightedScore : K) : Option (Registry K) :=
  upsertRow reg
    { newRow urlKey normalizedURL with
      sourceUserList := true
      distinctUserRefCount := distinctUserRefCount
      weightedUserRefScore := weightedScore }
    (fun r => { r with
      sourceUserList := true
      distinctUserRefCount := distinctUserRefCount
      weightedUserRefScore := weightedScore }) fun _ => rfl

structure ProbeRollup (K : Type*) where
  status : ProbeStatus
  connectOK : Bool
  avgConnectLatency : Option K
  probeFailRate : K
  yieldScore : K
  duplicateRatio : K

def updateProbeRollup (reg : Registry K) (urlKey : String) (rollup : ProbeRollup K) : Registry K :=
  reg.update (fun r => r.urlKey = urlKey)
    (fun r => { r with
      lastProbeStatus := some rollup.status
      lastConnectOK := some rollup.connectOK
      avgConnectLatency := rollup.avgConnectLatency
      probeFailRate := rollup.probeFailRate
      yieldScore := rollup.yieldScore
      duplicateRatio := rollup.duplicateRatio }) (fun _ => rfl) fun _ => rfl

end

section
variable [LinearOrder K]

inductive Write (K : Type*) [LinearOrder K] where
  | run (c : Controller K)
  | setManualPolicy (urlKey : String) (policy : ManualPolicy)
  | upsertSeedRelay (urlKey normalizedURL : String)
  | clearMissingSeedRelays (keepURLKeys : List String)
  | ensureRelayExists (urlKey normalizedURL : String)
  | upsertDiscoveredRelay (urlKey normalizedURL : String) (distinctUserRefCount : ℤ)
      (weightedScore : K)
  | updateProbeRollup (urlKey : String) (rollup : ProbeRollup K)

variable [Zero K]

def step (reg : Registry K) : Write K → Option (Registry K)
  | .run c => some (c.run reg)
  | .setManualPolicy urlKey policy => (reg.setManualPolicy urlKey policy).toOption
  | .upsertSeedRelay urlKey url => upsertSeedRelay reg urlKey url
  | .clearMissingSeedRelays keep => some (clearMissingSeedRelays reg keep)
  | .ensureRelayExists urlKey url => ensureRelayExists reg urlKey url
  | .upsertDiscoveredRelay urlKey url refs weighted =>
    upsertDiscoveredRelay reg urlKey url refs weighted
  | .updateProbeRollup urlKey rollup => some (updateProbeRollup reg urlKey rollup)

end

variable {reg reg' : Registry K} {r new : RelayRecord K} {f : RelayRecord K → RelayRecord K}
  {hkey : ∀ r, (f r).urlKey = r.urlKey}

theorem mem_of_insertRow (h : insertRow reg new = some reg') (hr : r ∈ reg.rows) :
    r ∈ reg'.rows := by
  unfold insertRow at h
  split_ifs at h
  cases h
  exact mem_cons_of_mem new hr

theorem mem_of_updateRow {urlKey : String} {hkey : ∀ r, (f r).urlKey = r.urlKey}
    (h : updateRow reg urlKey f hkey = some reg') (hr : r ∈ reg.rows) :
    (if r.urlKey = urlKey then f r else r) ∈ reg'.rows := by
  unfold updateRow at h
  split_ifs at h
  cases h
  exact mem_map.mpr ⟨r, hr, rfl⟩

theorem mem_of_upsertRow (h : upsertRow reg new f hkey = some reg') (hr : r ∈ reg.rows) :
    (if r.urlKey = new.urlKey then f r else r) ∈ reg'.rows := by
  unfold upsertRow at h
  split_ifs at h with hsome
  · exact mem_of_updateRow h hr
  · have hne : r.urlKey ≠ new.urlKey := by
      intro heq
      rw [← heq, Registry.get_of_mem hr] at hsome
      exact hsome rfl
    rw [if_neg hne]
    exact mem_of_insertRow h hr

theorem mem_update {p : RelayRecord K → Bool} {hurl : ∀ r, (f r).normalizedURL = r.normalizedURL}
    (hr : r ∈ reg.rows) :
    (if p r then f r else r) ∈ (reg.update p f hkey hurl).rows :=
  mem_map.mpr ⟨r, hr, rfl⟩

end NostrMash.RelayAdmission
