import NostrMash.KeyedTable
import NostrMash.CursorScan
import NostrMash.Text
import Mathlib.Data.Finset.Max
import Mathlib.Data.Prod.Lex

/-!
# Relay sightings and the first of them

`event_relays` has one row for each event and relay. Triggers keep its flag `is_first_seen`, which
is to mark the earliest row of an event, and retention removes old rows without the flag. The
triggers are those of migration 000072.
-/

namespace NostrMash.EventRelays
open KeyedTable

structure EventRelay where
  seenAt : ℤ
  pubkey : String
  isFirstSeen : Bool
  deriving DecidableEq

abbrev Table := KeyedTable (String × String) EventRelay

abbrev Rank := ℤ ×ₗ String

section
variable (T : Table) (eventID relayURL : String)

def seenEarlier (seenAt : ℤ) : Bool :=
  T.rows.any fun row => row.1.1 = eventID ∧ row.1.2 ≠ relayURL ∧
    (row.2.seenAt < seenAt ∨ row.2.seenAt = seenAt ∧ row.1.2 < relayURL)

def demoteOthers : Table :=
  T.update (fun k row => k.1 = eventID ∧ k.2 ≠ relayURL ∧ row.isFirstSeen)
    fun row => { row with isFirstSeen := false }

def beforeInsertIsFirstSeen (new : EventRelay) : Table × EventRelay :=
  if seenEarlier T eventID relayURL new.seenAt then (T, { new with isFirstSeen := false })
  else (demoteOthers T eventID relayURL, { new with isFirstSeen := true })

def beforeUpdateIsFirstSeen (new : EventRelay) : EventRelay :=
  { new with isFirstSeen := !seenEarlier T eventID relayURL new.seenAt }

def afterUpdateDemoteOtherFirstSeen (new : EventRelay) : Table :=
  if new.isFirstSeen then demoteOthers T eventID relayURL else T

def conflictUpdate (old new : EventRelay) : Table :=
  let row := { old with seenAt := min old.seenAt new.seenAt, pubkey := new.pubkey }
  if row.seenAt = old.seenAt then T.upsert (eventID, relayURL) row fun _ => row
  else
    let row := beforeUpdateIsFirstSeen T eventID relayURL row
    afterUpdateDemoteOtherFirstSeen (T.upsert (eventID, relayURL) row fun _ => row)
      eventID relayURL row

def upsertEventRelay (seenAt : ℤ) (pubkey : String) : Table :=
  let (T', new) := beforeInsertIsFirstSeen T eventID relayURL ⟨seenAt, pubkey, true⟩
  match T'.get (eventID, relayURL) with
  | none => T'.upsert (eventID, relayURL) new fun _ => new
  | some old => conflictUpdate T' eventID relayURL old new

def purgeKey (row : (String × String) × EventRelay) : ℤ ×ₗ String ×ₗ String :=
  toLex (row.2.seenAt, toLex row.1)

def purgeCandidates (seenBefore : ℤ) (limit : ℕ) : List ((String × String) × EventRelay) :=
  scan purgeKey limit (T.rows.filter fun row => row.2.seenAt < seenBefore ∧ ¬row.2.isFirstSeen)

def purgeStaleEventRelays (seenBefore : Option ℤ) (limit : ℤ) : Except String Table :=
  match seenBefore with
  | none => .error "seenBefore is required"
  | some seenBefore =>
    if limit ≤ 0 then .error "limit must be > 0"
    else
      let candidates := (purgeCandidates T seenBefore limit.toNat).map Prod.fst
      .ok (T.delete fun k _ => k ∈ candidates)

def insertEventRelayProvenance (seenAt : Option ℤ) (pubkey : String) (now : ℤ) :
    Except String Table :=
  if trimSpace eventID = "" then .error "event id is required"
  else if trimSpace relayURL = "" then .error "relay url is required"
  else .ok (upsertEventRelay T eventID relayURL (seenAt.getD now) pubkey)

def insertCanonicalEvent (relaySeenAt firstSeenAt : Option ℤ) (pubkey : String) (now : ℤ) :
    Except String Table :=
  if trimSpace eventID = "" then .error "event id is required"
  else if trimSpace relayURL = "" then .error "relay url is required"
  else .ok (upsertEventRelay T eventID relayURL (relaySeenAt.getD (firstSeenAt.getD now)) pubkey)

end

inductive Call where
  | provenance (eventID relayURL : String) (seenAt : Option ℤ) (pubkey : String) (now : ℤ)
  | canonical (eventID relayURL : String) (relaySeenAt firstSeenAt : Option ℤ) (pubkey : String)
      (now : ℤ)
  | purge (seenBefore : Option ℤ) (limit : ℤ)
  deriving DecidableEq

def Call.result (T : Table) : Call → Except String Table
  | .provenance eventID relayURL seenAt pubkey now =>
    insertEventRelayProvenance T eventID relayURL seenAt pubkey now
  | .canonical eventID relayURL relaySeenAt firstSeenAt pubkey now =>
    insertCanonicalEvent T eventID relayURL relaySeenAt firstSeenAt pubkey now
  | .purge seenBefore limit => purgeStaleEventRelays T seenBefore limit

def exec (T : Table) (c : Call) : Table :=
  match c.result T with
  | .ok T' => T'
  | .error _ => T

def execAll (calls : List Call) : Table := calls.foldl exec KeyedTable.empty

def Call.sighting : Call → Option (String × Rank)
  | .provenance eventID relayURL seenAt _ now =>
    if trimSpace eventID = "" ∨ trimSpace relayURL = "" then none
    else some (eventID, toLex (seenAt.getD now, relayURL))
  | .canonical eventID relayURL relaySeenAt firstSeenAt _ now =>
    if trimSpace eventID = "" ∨ trimSpace relayURL = "" then none
    else some (eventID, toLex (relaySeenAt.getD (firstSeenAt.getD now), relayURL))
  | .purge _ _ => none

def recorded (calls : List Call) (eventID : String) : Set Rank :=
  { r | (eventID, r) ∈ calls.filterMap Call.sighting }

def EventRelay.rank (row : EventRelay) (relayURL : String) : Rank := toLex (row.seenAt, relayURL)

variable {T : Table} {eventID relayURL e other : String} {seenAt : ℤ} {pubkey : String}

theorem seenEarlier_iff : seenEarlier T eventID relayURL seenAt = true ↔
    ∃ other row, other ≠ relayURL ∧ T.get (eventID, other) = some row ∧
      row.rank other < toLex (seenAt, relayURL) := by
  simp only [seenEarlier, List.any_eq_true, decide_eq_true_eq, EventRelay.rank,
    Prod.Lex.toLex_lt_toLex, ← mem_rows]
  constructor
  · rintro ⟨⟨⟨e, u⟩, row⟩, hmem, rfl, hne, hlt⟩
    exact ⟨u, row, hne, hmem, hlt⟩
  · rintro ⟨u, row, hne, hmem, hlt⟩
    exact ⟨((eventID, u), row), hmem, rfl, hne, hlt⟩

theorem get_demoteOthers_self :
    (demoteOthers T eventID relayURL).get (eventID, relayURL) = T.get (eventID, relayURL) := by
  rw [demoteOthers, get_update]
  simp

theorem get_demoteOthers_peer (h : other ≠ relayURL) :
    (demoteOthers T eventID relayURL).get (eventID, other) =
      (T.get (eventID, other)).map fun row => { row with isFirstSeen := false } := by
  rw [demoteOthers, get_update]
  congr 1
  funext row
  cases hrow : row.isFirstSeen <;> simp [h, ← hrow]

theorem get_demoteOthers_of_ne (h : e ≠ eventID) :
    (demoteOthers T eventID relayURL).get (e, other) = T.get (e, other) := by
  rw [demoteOthers, get_update]
  simp [h]

theorem seenEarlier_demoteOthers :
    seenEarlier (demoteOthers T eventID relayURL) eventID relayURL seenAt =
      seenEarlier T eventID relayURL seenAt := by
  rw [Bool.eq_iff_iff, seenEarlier_iff, seenEarlier_iff]
  constructor
  · rintro ⟨other, row, hne, hget, hlt⟩
    rw [get_demoteOthers_peer hne, Option.map_eq_some_iff] at hget
    obtain ⟨old, hold, rfl⟩ := hget
    exact ⟨other, old, hne, hold, hlt⟩
  · rintro ⟨other, row, hne, hget, hlt⟩
    refine ⟨other, { row with isFirstSeen := false }, hne, ?_, hlt⟩
    rw [get_demoteOthers_peer hne, hget]
    rfl

theorem get_afterUpdate_self (new : EventRelay) :
    (afterUpdateDemoteOtherFirstSeen T eventID relayURL new).get (eventID, relayURL) =
      T.get (eventID, relayURL) := by
  unfold afterUpdateDemoteOtherFirstSeen
  split_ifs
  · exact get_demoteOthers_self
  · rfl

theorem get_afterUpdate_peer (h : other ≠ relayURL) (new : EventRelay) :
    (afterUpdateDemoteOtherFirstSeen T eventID relayURL new).get (eventID, other) =
      (T.get (eventID, other)).map fun row =>
        { row with isFirstSeen := row.isFirstSeen && !new.isFirstSeen } := by
  unfold afterUpdateDemoteOtherFirstSeen
  cases hnew : new.isFirstSeen with
  | true => simp [get_demoteOthers_peer h]
  | false => simp

theorem get_afterUpdate_of_ne (h : e ≠ eventID) (new : EventRelay) :
    (afterUpdateDemoteOtherFirstSeen T eventID relayURL new).get (e, other) = T.get (e, other) := by
  unfold afterUpdateDemoteOtherFirstSeen
  split_ifs
  · exact get_demoteOthers_of_ne h
  · rfl

theorem get_conflictUpdate_self (old new : EventRelay) :
    (conflictUpdate T eventID relayURL old new).get (eventID, relayURL) =
      some ⟨min old.seenAt new.seenAt, new.pubkey, if old.seenAt ≤ new.seenAt then old.isFirstSeen
        else !seenEarlier T eventID relayURL new.seenAt⟩ := by
  unfold conflictUpdate
  by_cases h : old.seenAt ≤ new.seenAt
  · simp only [min_eq_left h, if_true, if_pos h, get_upsert_self]
    cases T.get (eventID, relayURL) <;> rfl
  · have hne : new.seenAt ≠ old.seenAt := (not_le.mp h).ne
    simp only [min_eq_right (not_le.mp h).le, if_neg h, if_neg hne, get_afterUpdate_self,
      get_upsert_self, beforeUpdateIsFirstSeen]
    cases T.get (eventID, relayURL) <;> rfl

theorem get_conflictUpdate_peer (hne : other ≠ relayURL) (old new : EventRelay) :
    (conflictUpdate T eventID relayURL old new).get (eventID, other) =
      (T.get (eventID, other)).map fun row => { row with isFirstSeen := row.isFirstSeen &&
        (old.seenAt ≤ new.seenAt || seenEarlier T eventID relayURL new.seenAt) } := by
  have hkey : (eventID, other) ≠ (eventID, relayURL) := fun h => hne (Prod.mk.inj h).2
  unfold conflictUpdate
  by_cases h : old.seenAt ≤ new.seenAt
  · simp [h, get_upsert_ne hkey]
  · have hold : new.seenAt ≠ old.seenAt := (not_le.mp h).ne
    simp only [min_eq_right (not_le.mp h).le, if_neg hold, get_afterUpdate_peer hne,
      get_upsert_ne hkey, beforeUpdateIsFirstSeen]
    simp [h]

theorem get_conflictUpdate_of_ne (hne : e ≠ eventID) (old new : EventRelay) :
    (conflictUpdate T eventID relayURL old new).get (e, other) = T.get (e, other) := by
  have hkey : (e, other) ≠ (eventID, relayURL) := fun h => hne (Prod.mk.inj h).1
  simp only [conflictUpdate]
  split_ifs
  · exact get_upsert_ne hkey _ _
  · rw [get_afterUpdate_of_ne hne, get_upsert_ne hkey]

theorem upsertEventRelay_eq : upsertEventRelay T eventID relayURL seenAt pubkey =
    let early := seenEarlier T eventID relayURL seenAt
    let T' := if early then T else demoteOthers T eventID relayURL
    (T.get (eventID, relayURL)).elim
      (T'.upsert (eventID, relayURL) ⟨seenAt, pubkey, !early⟩ fun _ => ⟨seenAt, pubkey, !early⟩)
      fun old => conflictUpdate T' eventID relayURL old ⟨seenAt, pubkey, !early⟩ := by
  simp only [upsertEventRelay, beforeInsertIsFirstSeen]
  cases seenEarlier T eventID relayURL seenAt with
  | true => cases hold : T.get (eventID, relayURL) <;> simp [hold]
  | false =>
    simp only [Bool.false_eq_true, if_false, get_demoteOthers_self]
    cases hold : T.get (eventID, relayURL) <;> simp

theorem get_upsertEventRelay_self :
    (upsertEventRelay T eventID relayURL seenAt pubkey).get (eventID, relayURL) =
      some ((T.get (eventID, relayURL)).elim
        ⟨seenAt, pubkey, !seenEarlier T eventID relayURL seenAt⟩
        fun old => ⟨min old.seenAt seenAt, pubkey, if old.seenAt ≤ seenAt then old.isFirstSeen
          else !seenEarlier T eventID relayURL seenAt⟩) := by
  rw [upsertEventRelay_eq]
  cases hold : T.get (eventID, relayURL) with
  | none =>
    simp only [Option.elim_none, get_upsert_self]
    split_ifs
    · rw [hold]
      rfl
    · rw [get_demoteOthers_self, hold]
      rfl
  | some old =>
    simp only [Option.elim_some, get_conflictUpdate_self]
    split_ifs <;> simp [seenEarlier_demoteOthers]

theorem get_upsertEventRelay_peer (hne : other ≠ relayURL) :
    (upsertEventRelay T eventID relayURL seenAt pubkey).get (eventID, other) =
      (T.get (eventID, other)).map fun row =>
        { row with isFirstSeen := row.isFirstSeen && seenEarlier T eventID relayURL seenAt } := by
  have hkey : (eventID, other) ≠ (eventID, relayURL) := fun h => hne (Prod.mk.inj h).2
  rw [upsertEventRelay_eq]
  cases hearly : seenEarlier T eventID relayURL seenAt with
  | true =>
    cases T.get (eventID, relayURL) with
    | none => simp [get_upsert_ne hkey]
    | some old => simp [get_conflictUpdate_peer hne, hearly]
  | false =>
    cases T.get (eventID, relayURL) with
    | none => simp [get_upsert_ne hkey, get_demoteOthers_peer hne]
    | some old => simp [get_conflictUpdate_peer hne, get_demoteOthers_peer hne, Function.comp_def]

theorem get_upsertEventRelay_of_ne (hne : e ≠ eventID) :
    (upsertEventRelay T eventID relayURL seenAt pubkey).get (e, other) = T.get (e, other) := by
  have hkey : (e, other) ≠ (eventID, relayURL) := fun h => hne (Prod.mk.inj h).1
  have hdemote : (if seenEarlier T eventID relayURL seenAt then T
      else demoteOthers T eventID relayURL).get (e, other) = T.get (e, other) := by
    split_ifs
    · rfl
    · exact get_demoteOthers_of_ne hne
  rw [upsertEventRelay_eq]
  cases T.get (eventID, relayURL) with
  | none => exact (get_upsert_ne hkey _ _).trans hdemote
  | some old => exact (get_conflictUpdate_of_ne hne _ _).trans hdemote

end NostrMash.EventRelays
