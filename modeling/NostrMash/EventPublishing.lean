import NostrMash.EventStore
import NostrMash.JobSteps
import NostrMash.Machine

/-!
# Publishing of stored events

`InsertCanonicalEventWithResult` stores an event and, if it is new, enqueues its derivation in the
same transaction. The idempotency key of the job is made from the identifier of the event, so the
row of an earlier job drops the enqueue.
-/

namespace NostrMash.Publishing
open Nostr Live Queue

def bundleType : String := "derive_event_bundle"

def publishCanonicalEventJobsTx (T : JobTable) (fault contextPool : Option String)
    (maxAttempts : ℤ) (eventID : String) (now : ℤ) : Except String JobTable :=
  if trimSpace eventID = "" then .error "event id is required"
  else enqueueEventJobTx T fault contextPool bundleType (trimSpace eventID) "" maxAttempts now

structure Tables where
  store : EventStore
  jobs : JobTable

structure InsertRequest where
  event : Event
  rawJSON : Option Json
  relayURL : String
  seenAt : ℤ
  now : ℤ
  /-- The attempts that the publisher grants, if one is configured. -/
  publisher : Option ℤ
  contextPool : Option String
  fault : Option String
  publishFault : Option String

def insertCanonicalEventWithResult (S : Tables) (r : InsertRequest) :
    Except String (Bool × Tables) :=
  match S.store.insertCanonicalEventWithResult r.fault r.event r.rawJSON r.relayURL r.seenAt,
    r.publisher with
  | .error err, _ => .error err
  | .ok (false, store), _ => .ok (false, { S with store := store })
  | .ok (true, _), none => .error "canonical event job publisher is not configured"
  | .ok (true, store), some maxAttempts =>
    match publishCanonicalEventJobsTx S.jobs r.publishFault r.contextPool maxAttempts r.event.id
      r.now with
    | .error err => .error err
    | .ok jobs => .ok (true, ⟨store, jobs⟩)

inductive Action where
  | insert (request : InsertRequest)
  /-- A call of the queue that enqueues nothing. -/
  | call (call : Call)
  /-- `reverseAndDeleteTx` of a retention batch. -/
  | delete (ids : List String)

structure State where
  tables : Tables
  inserted : Option String

def init : State := { tables := ⟨.empty, .empty⟩, inserted := none }

def step (s : State) : Action → Option State
  | .insert r =>
    match insertCanonicalEventWithResult s.tables r with
    | .ok (true, tables) => some ⟨tables, some r.event.id⟩
    | .ok (false, tables) => some ⟨tables, none⟩
    | .error _ => some ⟨s.tables, none⟩
  | .call call =>
    if call.enqueues then none
    else some ⟨{ s.tables with jobs := call.exec s.tables.jobs }, none⟩
  | .delete ids =>
    some ⟨{ s.tables with store := s.tables.store.delete fun id => decide (id ∈ ids) }, none⟩

def Derives (T : JobTable) (id : String) : Prop :=
  ∃ job ∈ T.rows, job.jobType = bundleType ∧ job.payload = .event id ∧
    (job.status = .pending ∨ job.status = .running)

def Published (s : State) : Prop := ∀ id, s.inserted = some id → Derives s.tables.jobs id

def Stores (S : Tables) (r : InsertRequest) : Prop :=
  trimSpace r.event.id ≠ "" ∧ trimSpace r.relayURL ≠ "" ∧ r.fault = none ∧
    S.store.events r.event.id = none ∧
    ∃ maxAttempts, r.publisher = some maxAttempts ∧ r.publishFault = none ∧
      int4Fault (defaultMaxAttempts maxAttempts) = none

/-- An event is stored only when no finished job of an earlier copy is left, and under a trimmed
identifier. -/
def NoFinishedJob (s : State) : Action → Prop
  | .insert r => Stores s.tables r → trimSpace r.event.id = r.event.id ∧
    ∀ job ∈ s.tables.jobs.rows,
      job.idempotencyKey = some (eventJobKey bundleType r.event.id "") →
        job.status.isTerminal = false
  | _ => True

theorem eventJobKey_eq (id : String) : eventJobKey bundleType id "" = bundleType ++ ":" ++ id :=
  if_pos (by decide)

theorem eventJobKey_inj {id id' : String}
    (h : eventJobKey bundleType id "" = eventJobKey bundleType id' "") : id = id' := by
  rw [eventJobKey_eq, eventJobKey_eq] at h
  exact String.append_right_inj _ |>.mp h

def IsBundle (job : Queue.Job) : Prop :=
  ∃ id, trimSpace id = id ∧ job.jobType = bundleType ∧ job.payload = .event id ∧
    job.idempotencyKey = some (eventJobKey bundleType id "")

def BundlesOnly (T : JobTable) : Prop := ∀ job ∈ T.rows, IsBundle job

variable {T T' : JobTable}

theorem bundlesOnly_evolves (h : BundlesOnly T) (he : Evolves T T') (hnext : T'.nextID = T.nextID) :
    BundlesOnly T' := by
  intro job' hjob'
  rcases he.origin job' hjob' with ⟨job, hjob, hstep⟩ | ⟨hle, -⟩
  · have hb := h _ hjob
    cases hstep <;> exact hb
  · have hlt := T'.ids_below job' hjob'
    omega

variable {contextPool fault : Option String} {eventID : String} {maxAttempts now : ℤ}

theorem publish_eq_ok
    (h : publishCanonicalEventJobsTx T fault contextPool maxAttempts eventID now = .ok T') :
    T' = (T.insertJob
      (eventJob contextPool bundleType (trimSpace eventID) "" maxAttempts now)).2 := by
  unfold publishCanonicalEventJobsTx at h
  split_ifs at h
  exact enqueueEventJobTx_eq_ok h

theorem bundlesOnly_publish (h : BundlesOnly T)
    (hp : publishCanonicalEventJobsTx T fault contextPool maxAttempts eventID now = .ok T') :
    BundlesOnly T' := by
  rw [publish_eq_ok hp]
  intro job hjob
  rcases T.rows_insertJob
    (eventJob contextPool bundleType (trimSpace eventID) "" maxAttempts now)
    with ⟨hrows, -⟩ | ⟨hrows, -⟩
  · exact h job (hrows ▸ hjob)
  · rw [hrows] at hjob
    rcases List.mem_append.mp hjob with hjob | hjob
    · exact h job hjob
    · rw [List.mem_singleton.mp hjob]
      exact ⟨trimSpace eventID, trimSpace_trimSpace eventID, rfl, rfl, rfl⟩

theorem derives_publish_iff (h : BundlesOnly T)
    (hp : publishCanonicalEventJobsTx T fault contextPool maxAttempts eventID now = .ok T') :
    Derives T' eventID ↔ trimSpace eventID = eventID ∧
      ∀ job ∈ T.rows, job.idempotencyKey = some (eventJobKey bundleType eventID "") →
        job.status.isTerminal = false := by
  have hrows := T.rows_insertJob
    (eventJob contextPool bundleType (trimSpace eventID) "" maxAttempts now)
  rw [← publish_eq_ok hp] at hrows
  constructor
  · rintro ⟨job, hjob, -, hpayload, hstatus⟩
    obtain ⟨id, htrim, -, hid, hkey⟩ := bundlesOnly_publish h hp job hjob
    obtain rfl : id = eventID := Payload.event.inj (hid.symm.trans hpayload)
    refine ⟨htrim, fun row hrow hrowkey => ?_⟩
    rcases hrows with ⟨hsame, -⟩ | ⟨-, hspares⟩
    · rw [JobTable.eq_of_key_eq hrow (hsame ▸ hjob) hrowkey hkey]
      rcases hstatus with hstatus | hstatus <;> rw [hstatus] <;> rfl
    · rw [htrim] at hspares
      rcases hspares row hrow with hnone | hne
      · exact nomatch hnone.symm.trans hrowkey
      · exact absurd hrowkey hne
  · rintro ⟨htrim, hfree⟩
    rw [htrim] at hrows
    rcases hrows with ⟨hsame, row, hrow, -, hkey⟩ | ⟨hnew, -⟩
    · obtain ⟨id, -, htype, hpayload, hid⟩ := h row hrow
      obtain rfl : id = eventID := eventJobKey_inj (Option.some.inj (hid.symm.trans hkey))
      refine ⟨row, hsame ▸ hrow, htype, hpayload, ?_⟩
      have hrunning := hfree row hrow hkey
      cases hstatus : row.status with
      | pending => exact .inl rfl
      | running => exact .inr rfl
      | succeeded => exact nomatch (hstatus ▸ hrunning : Status.isTerminal .succeeded = false)
      | dead => exact nomatch (hstatus ▸ hrunning : Status.isTerminal .dead = false)
    · rw [Derives, hnew]
      exact ⟨_, List.mem_append_right _ (.head _), rfl, rfl, .inl rfl⟩

end NostrMash.Publishing
