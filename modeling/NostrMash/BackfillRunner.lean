import NostrMash.Backfill
import NostrMash.Json

/-!
# The backfill runner with its surroundings

`runRelay` as the code computes it, with the bytes of the messages, the cursor as the text that is
stored, and the errors of the fetcher, the handler and the store.
-/

namespace NostrMash.Backfill
open Option

section

/-- The bytes of a message, as the document they hold if they hold one. -/
structure Payload where
  json : Option Json

def Payload.extractCreatedAt (payload : Payload) : Option ℤ := do
  let doc ← payload.json
  let fields ← doc.decodeObject
  let createdAt ← fields.foldlM
    (fun t field =>
      if Json.foldName field.1 = "created_at" then field.2.decodeInt64Into t else some t) 0
  if createdAt < 0 then none else some createdAt

structure Page where
  events : List Payload
  eoseSeen : Bool

def newest (events : List Payload) : Option ℤ :=
  events.foldl (fun best payload => advance best payload.extractCreatedAt) none

def parseCursorInt64 (cursor : Option String) : Option ℤ :=
  cursor.bind fun text => parseInt64 (trimSpace text)

def formatCursor (cursor : Option ℤ) : Option String := cursor.map toString

structure CheckpointRow where
  since : Option ℤ
  untilTime : Option ℤ
  cursor : Option String
  eoseSeenAt : Option ℤ
  status : CheckpointStatus
  updatedAt : ℤ
  deriving DecidableEq

def CheckpointRow.mark (row : CheckpointRow) (now : ℤ) (cursor : Option ℤ)
    (status : CheckpointStatus) : CheckpointRow :=
  { row with cursor := formatCursor cursor, status := status, updatedAt := now }

/-- What a turn of the loop is answered. -/
structure Turn where
  now : ℤ
  fetched : Except String Page
  messageFault : Option (ℕ × String)
  runningFault : Option String
  lastFault : Option String

structure World where
  stored : Option CheckpointRow
  requests : List RelayFilter
  handed : List Payload

structure Loop extends World where
  checkpoint : CheckpointRow
  cursor : Option ℤ
  emptyPages : ℕ

variable (cfg : Config) (relayURL : String)

def markCompleted (a : Turn) (s : Loop) : Loop × Option (Except String Unit) :=
  let row := s.checkpoint.mark a.now s.cursor .completed
  match a.lastFault with
  | some err => ({ s with checkpoint := row },
      some (.error ("persist completed checkpoint relay " ++ relayURL ++ ": " ++ err)))
  | none => ({ s with checkpoint := row, stored := some row }, some (.ok ()))

/-- The error of the store is dropped here. -/
def markFailed (a : Turn) (s : Loop) : Loop :=
  let row := s.checkpoint.mark a.now s.cursor .failed
  { s with checkpoint := row, stored := if a.lastFault.isNone then some row else s.stored }

def finishPage (a : Turn) (page : Page) (s : Loop) : Loop × Option (Except String Unit) :=
  let cursor := advance s.cursor (newest page.events)
  let seen := if page.eoseSeen then { s.checkpoint with eoseSeenAt := some a.now } else s.checkpoint
  let row := seen.mark a.now cursor .running
  let s := { s with checkpoint := row, cursor := cursor }
  match a.runningFault with
  | some err =>
    (s, some (.error ("persist running checkpoint relay " ++ relayURL ++ ": " ++ err)))
  | none =>
    let s := { s with stored := some row }
    if cfg.untilReached cursor then markCompleted relayURL a s
    else if page.eoseSeen then
      if page.events.isEmpty then markCompleted relayURL a s
      else ({ s with emptyPages := 0 }, none)
    else if page.events.isEmpty then
      let s := { s with emptyPages := s.emptyPages + 1 }
      if cfg.emptyPageMax ≤ s.emptyPages then markCompleted relayURL a s else (s, none)
    else ({ s with emptyPages := 0 }, none)

/-- One turn of the loop, with the result of `runRelay` if it returns. -/
def turn (a : Turn) (s : Loop) : Loop × Option (Except String Unit) :=
  if cfg.windowPassed s.cursor then markCompleted relayURL a s
  else
    let s := { s with requests := s.requests ++ [cfg.request s.cursor] }
    match a.fetched with
    | .error err =>
      (markFailed a s, some (.error ("fetch page relay " ++ relayURL ++ ": " ++ err)))
    | .ok page =>
      match a.messageFault.filter fun fault => fault.1 < page.events.length with
      | some (k, err) =>
        (markFailed a { s with handed := s.handed ++ page.events.take (k + 1) },
          some (.error ("persist page event relay " ++ relayURL ++ ": " ++ err)))
      | none => finishPage cfg relayURL a page { s with handed := s.handed ++ page.events }

def loop (turns : ℕ → Turn) : ℕ → ℕ → Loop → Loop × Option (Except String Unit)
  | 0, _, s => (s, none)
  | n + 1, i, s =>
    match turn cfg relayURL (turns i) s with
    | (s', some result) => (s', some result)
    | (s', none) => loop turns n (i + 1) s'

structure Start where
  now : ℤ
  ctxErr : Option String
  getFault : Option String
  setFault : Option String

def ensureRunningRow (a : Start) (stored : Option CheckpointRow) : Except String CheckpointRow :=
  match a.getFault, stored, a.setFault with
  | some err, _, _ => .error ("load checkpoint relay " ++ relayURL ++ ": " ++ err)
  | none, some _, some err => .error ("set running checkpoint relay " ++ relayURL ++ ": " ++ err)
  | none, some row, none => .ok { row with status := .running, updatedAt := a.now }
  | none, none, some err => .error ("create checkpoint relay " ++ relayURL ++ ": " ++ err)
  | none, none, none => .ok
      { since := cfg.since, untilTime := cfg.untilTime, cursor := none, eoseSeenAt := none,
        status := .running, updatedAt := a.now }

def Loop.start (row : CheckpointRow) : Loop :=
  { stored := some row, requests := [], handed := [], checkpoint := row,
    cursor := parseCursorInt64 row.cursor, emptyPages := 0 }

def runRelay (a : Start) (turns : ℕ → Turn) (n : ℕ) (stored : Option CheckpointRow) :
    World × Option (Except String Unit) :=
  match ensureRunningRow cfg relayURL a stored with
  | .error err => ({ stored := stored, requests := [], handed := [] }, some (.error err))
  | .ok row =>
    if row.status = .completed then ((Loop.start row).toWorld, some (.ok ()))
    else
      let (s, result) := loop cfg relayURL turns n 0 (Loop.start row)
      (s.toWorld, result)

def runAt (a : Start) (turns : ℕ → Turn) (n : ℕ) (stored : Option CheckpointRow) :
    World × Option (Except String Unit) :=
  match a.ctxErr with
  | some err => ({ stored := stored, requests := [], handed := [] }, some (.error err))
  | none => runRelay cfg relayURL a turns n stored

end

variable {a b : Option ℤ} {x c : ℤ} {events : List Payload}

theorem forall_advance_le : (∀ d ∈ advance a b, d ≤ x) ↔ (∀ d ∈ a, d ≤ x) ∧ ∀ d ∈ b, d ≤ x := by
  cases a with
  | none => cases b <;> simp [advance]
  | some c =>
    cases b with
    | none => simp [advance]
    | some m =>
      simp only [advance, gt_iff_lt]
      split_ifs with h <;> simp <;> omega

theorem mem_advance (h : c ∈ advance a b) : c ∈ a ∨ c ∈ b := by
  cases a with
  | none =>
    cases b with
    | none => exact .inl h
    | some m => exact .inr h
  | some d =>
    cases b with
    | none => exact .inl h
    | some m =>
      simp only [advance] at h
      split_ifs at h
      · exact .inr h
      · exact .inl h

theorem newest_concat (events : List Payload) (p : Payload) :
    newest (events ++ [p]) = advance (newest events) p.extractCreatedAt := by
  rw [newest, List.foldl_append]
  rfl

theorem forall_newest_le :
    (∀ d ∈ newest events, d ≤ x) ↔ ∀ p ∈ events, ∀ d ∈ p.extractCreatedAt, d ≤ x := by
  induction events using List.reverseRecOn with
  | nil => simp [newest]
  | append_singleton events p ih =>
    rw [newest_concat, forall_advance_le, ih]
    simp [or_imp, forall_and]

theorem exists_of_mem_newest (h : c ∈ newest events) : ∃ p ∈ events, c ∈ p.extractCreatedAt := by
  induction events using List.reverseRecOn with
  | nil => simp [newest] at h
  | append_singleton events p ih =>
    rw [newest_concat] at h
    rcases mem_advance h with h | h
    · obtain ⟨q, hq, hc⟩ := ih h
      exact ⟨q, List.mem_append_left _ hq, hc⟩
    · exact ⟨p, List.mem_append_right _ (.head _), h⟩

theorem inInt64_of_decodeInt64Into {json : Json} {old n : ℤ} (hold : inInt64 old = true)
    (h : json.decodeInt64Into old = some n) : inInt64 n = true := by
  cases json <;> simp only [Json.decodeInt64Into, reduceCtorEq] at h
  · exact some.inj h ▸ hold
  · split_ifs at h with hn
    exact some.inj h ▸ hn

theorem extractCreatedAt_bounds {p : Payload} (h : p.extractCreatedAt = some c) :
    0 ≤ c ∧ c ≤ maxInt64 := by
  simp only [Payload.extractCreatedAt, bind_eq_bind, bind_eq_some_iff] at h
  obtain ⟨doc, -, fields, -, t, hfold, hc⟩ := h
  have hint : ∀ (fields : List (String × Json)) (old n : ℤ), inInt64 old = true →
      fields.foldlM (fun t field => if Json.foldName field.1 = "created_at"
        then field.2.decodeInt64Into t else some t) old = some n → inInt64 n = true := by
    intro fields
    induction fields with
    | nil => exact fun old n hold hn => some.inj hn ▸ hold
    | cons field fields ih =>
      intro old n hold hn
      simp only [List.foldlM_cons, bind_eq_bind, bind_eq_some_iff] at hn
      obtain ⟨t, ht, hn⟩ := hn
      refine ih t n ?_ hn
      split_ifs at ht
      · exact inInt64_of_decodeInt64Into hold ht
      · exact some.inj ht ▸ hold
  split_ifs at hc with hneg
  obtain rfl := some.inj hc
  have hin := hint fields 0 t (by decide) hfold
  simp only [inInt64, Bool.and_eq_true, decide_eq_true_eq] at hin
  exact ⟨not_lt.mp hneg, by rw [maxInt64]; omega⟩

end NostrMash.Backfill
