import NostrMash.LiveResume

/-!
# What a call leaves in the event tables

The tables after a call and its success, by route. In every reachable state each row is dated at
most at the clock, as a call dates its rows when it starts.
-/

namespace NostrMash.Live
open Machine Nostr Function

section
variable (w : Wiring) (a : Answers) (clock : ℕ) (relayURL : String)

def Route.storeAfter (rawJSON : Option Json) (store : EventStore) : Route → EventStore
  | .cached probe pubkey _ =>
    match store.insertEventRelayProvenance a.provenanceFault probe.id relayURL (a.seenAt clock)
        pubkey with
    | .ok next => next
    | .error _ => store
  | .insert e =>
    match store.insertCanonicalEventWithResult a.insertFault e rawJSON relayURL
      (a.seenAt clock) with
    | .ok (_, next) => next
    | .error _ => store
  | _ => store

theorem store_onSuccess {f : Ingest → Ingest} (hf : ∀ s, (f s).store = s.store)
    (r : Except String Unit × Ingest) : (onSuccess f r).2.store = r.2.store := by
  obtain ⟨e | u, s⟩ := r
  · rfl
  · exact hf s

theorem store_handle (payload : Payload) (s : Ingest) :
    (handle w a clock relayURL payload s).2.store =
      (route w a clock relayURL payload s.dedup).storeAfter a clock relayURL
        (parseAndValidate w.crypto w.validateOpts payload).rawJSON s.store := by
  unfold handle
  cases route w a clock relayURL payload s.dedup with
  | cached probe pubkey refreshed =>
    simp only [handleCached, Route.storeAfter, Ingest.observe]
    cases s.store.insertEventRelayProvenance a.provenanceFault probe.id relayURL (a.seenAt clock)
        pubkey with
    | error err => rfl
    | ok next => rw [store_onSuccess (f := Ingest.countDuplicate) fun _ => rfl, store_mark]
  | invalid err =>
    simp only [handleInvalid, Route.storeAfter]
    cases a.invalidFault with
    | none => rfl
    | some e => rfl
  | blocked e => exact store_mark ..
  | census e =>
    simp only [Route.storeAfter]
    cases a.censusFault with
    | none => exact store_mark ..
    | some err => rfl
  | gated e => exact store_mark ..
  | expired e => exact store_mark ..
  | insert e =>
    simp only [handleInsert, Route.storeAfter, Ingest.observe]
    cases s.store.insertCanonicalEventWithResult a.insertFault e _ relayURL (a.seenAt clock) with
    | error err => rfl
    | ok r => rw [store_onSuccess (fun _ => by cases r.1 <;> rfl), store_mark]

def marks : Bool := !w.checkpointWriter || trimSpace relayURL ≠ ""

def Route.succeeds (store : EventStore) : Route → Bool
  | .cached probe pubkey _ =>
    (store.insertEventRelayProvenance a.provenanceFault probe.id relayURL (a.seenAt clock)
      pubkey).isOk && marks w relayURL
  | .invalid _ => a.invalidFault.isNone
  | .census _ => a.censusFault.isNone && marks w relayURL
  | .insert e => insertSucceeds a relayURL e && marks w relayURL
  | _ => marks w relayURL

theorem isOk_onSuccess (f : Ingest → Ingest) (r : Except String Unit × Ingest) :
    (onSuccess f r).1.isOk = r.1.isOk := by
  obtain ⟨e | u, s⟩ := r
  · rfl
  · rfl

variable {a}

section
variable (hu : a.checkpoint.upsert = .ok ())
include hu

theorem isOk_markEventProcessed {flushEvery now flushedAt createdAt : ℤ} {eventID : String}
    {c : Checkpoints} :
    (c.markEventProcessed flushEvery a.checkpoint now flushedAt relayURL eventID createdAt).1.isOk =
      decide (trimSpace relayURL ≠ "") := by
  by_cases hb : trimSpace relayURL = ""
  · simp [Checkpoints.markEventProcessed, hb, Except.isOk, Except.toBool]
  · simp only [Checkpoints.markEventProcessed, Checkpoints.flushRelay, trimSpace_trimSpace, hb, hu,
      if_false]
    split_ifs
    all_goals simp [Except.isOk, Except.toBool, hb]

theorem isOk_mark (s : Ingest) (context eventID : String)
    (createdAt : ℤ) :
    (s.mark w a clock relayURL context eventID createdAt).1.isOk = marks w relayURL := by
  unfold Ingest.mark marks
  cases hw : w.checkpointWriter with
  | false => rfl
  | true =>
    simp only [if_true, Bool.not_true, Bool.false_or]
    rw [← isOk_markEventProcessed relayURL hu]
    split
    · next h =>
      rw [h]
      rfl
    · next h => rw [h]

theorem isOk_handle (payload : Payload) (s : Ingest) :
    (handle w a clock relayURL payload s).1.isOk =
      (route w a clock relayURL payload s.dedup).succeeds w a clock relayURL s.store := by
  unfold handle
  cases route w a clock relayURL payload s.dedup with
  | cached probe pubkey refreshed =>
    simp only [handleCached, Route.succeeds, Ingest.observe]
    cases s.store.insertEventRelayProvenance a.provenanceFault probe.id relayURL (a.seenAt clock)
        pubkey with
    | error err => rfl
    | ok next =>
      rw [isOk_onSuccess, isOk_mark w clock relayURL hu]
      rfl
  | invalid err =>
    simp only [handleInvalid, Route.succeeds]
    cases a.invalidFault with
    | none => rfl
    | some e => rfl
  | blocked e => exact isOk_mark w clock relayURL hu ..
  | census e =>
    simp only [Route.succeeds]
    cases a.censusFault with
    | none => exact isOk_mark w clock relayURL hu ..
    | some err => rfl
  | gated e => exact isOk_mark w clock relayURL hu ..
  | expired e => exact isOk_mark w clock relayURL hu ..
  | insert e =>
    simp only [handleInsert, Route.succeeds, Ingest.observe]
    rw [← insertCanonicalEventWithResult_isOk a clock relayURL s.store e
      (parseAndValidate w.crypto w.validateOpts payload).rawJSON]
    cases s.store.insertCanonicalEventWithResult a.insertFault e _ relayURL (a.seenAt clock) with
    | error err => rfl
    | ok r =>
      rw [isOk_onSuccess, isOk_mark w clock relayURL hu]
      rfl

end
end

structure EventStore.SeenBy (store : EventStore) (t : ℤ) : Prop where
  stored : ∀ id row, store.events id = some row → trimSpace id ≠ "" ∧ row.firstSeenAt ≤ t
  sighted : ∀ id relay row, store.eventRelays id relay = some row → row.seenAt ≤ t

namespace EventStore.SeenBy

variable {store : EventStore} {t u : ℤ}

section
variable (h : store.SeenBy t)
include h

theorem mono (htu : t ≤ u) : store.SeenBy u where
  stored id row hr := ⟨(h.stored id row hr).1, (h.stored id row hr).2.trans htu⟩
  sighted id relay row hr := (h.sighted id relay row hr).trans htu

theorem upsertRelay {id relay pubkey : String}
    (hs : (store.events id).isSome) : (store.upsertRelay id relay t pubkey hs).SeenBy t where
  stored := h.stored
  sighted i r row hr := by
    by_cases hi : i = id
    · subst hi
      by_cases hrelay : r = relay
      · subst hrelay
        simp only [EventStore.upsertRelay, update_self, Option.some.injEq] at hr
        subst hr
        cases hold : store.eventRelays i r with
        | none => exact le_rfl
        | some old => exact min_le_right _ _
      · simp only [EventStore.upsertRelay, update_self, update_of_ne hrelay] at hr
        exact h.sighted i r row hr
    · simp only [EventStore.upsertRelay, update_of_ne hi] at hr
      exact h.sighted i r row hr

theorem upsertEvent {id : String} {row : EventRow} (hid : trimSpace id ≠ "")
    (ht : row.firstSeenAt ≤ t) : (store.upsertEvent id row).SeenBy t where
  stored i r hr := by
    by_cases hi : i = id
    · subst hi
      simp only [EventStore.upsertEvent, update_self, Option.some.injEq] at hr
      subst hr
      cases hold : store.events i with
      | none => exact ⟨hid, ht⟩
      | some old => exact ⟨hid, (min_le_right _ _).trans ht⟩
    · simp only [EventStore.upsertEvent, update_of_ne hi] at hr
      exact h.stored i r hr
  sighted := h.sighted

theorem delete (purged : String → Bool) : (store.delete purged).SeenBy t where
  stored id row hr := by
    cases hp : purged id with
    | true => simp [EventStore.delete, hp] at hr
    | false => exact h.stored id row (by simpa [EventStore.delete, hp] using hr)
  sighted id relay row hr := by
    cases hp : purged id with
    | true => simp [EventStore.delete, hp] at hr
    | false => exact h.sighted id relay row (by simpa [EventStore.delete, hp] using hr)

end

theorem storeAfter {a : Answers} {clock : ℕ} {relayURL : String} (h : store.SeenBy (a.seenAt clock))
    (rawJSON : Option Json) (r : Route) :
    (r.storeAfter a clock relayURL rawJSON store).SeenBy (a.seenAt clock) := by
  cases r with
  | cached probe pubkey refreshed =>
    simp only [Route.storeAfter, insertEventRelayProvenance]
    cases a.provenanceFault with
    | some err =>
      split_ifs
      all_goals exact h
    | none =>
      split_ifs with hid hb hs
      · exact h
      · exact h
      · exact h.upsertRelay hs
      · exact h
  | insert e =>
    simp only [Route.storeAfter, insertCanonicalEventWithResult]
    split_ifs with hid hb
    · exact h
    · exact h
    · cases a.insertFault with
      | some err => exact h
      | none => exact (h.upsertEvent hid le_rfl).upsertRelay _
  | invalid err => exact h
  | blocked e => exact h
  | census e => exact h
  | gated e => exact h
  | expired e => exact h

end EventStore.SeenBy

variable {w : Wiring} {s : LiveState}

theorem seenBy_next (h : s.ingest.store.SeenBy s.clock) (action : LiveAction) :
    (liveNext w s action).ingest.store.SeenBy (liveNext w s action).clock := by
  have hle : ∀ after : ℕ, (s.clock : ℤ) ≤ (s.clock + after : ℕ) := fun after => by omega
  cases action with
  | handle relayURL payload a =>
    have hseen : s.ingest.store.SeenBy (a.seenAt s.clock) := h.mono (hle a.seenAfter)
    simp only [liveNext, store_handle]
    refine (hseen.storeAfter _ _).mono ?_
    simp only [LiveAction.endsAt, Answers.flushedAt, Answers.markedAt]
    omega
  | setRelayStatus relayURL state lastError after flushedAfter a =>
    exact h.mono ((hle (after + flushedAfter)).trans_eq (by rw [← Nat.add_assoc]; rfl))
  | flushAll after upserts => exact h.mono (hle after)
  | restart after => exact h.mono (hle after)
  | purge after purged => exact (h.delete purged).mono (hle after)

theorem seenBy_run {clock : ℕ} {actions : List LiveAction}
    (hr : run (liveStep w) (LiveState.init w clock) actions = some s) :
    s.ingest.store.SeenBy s.clock := by
  refine run_invariant_of_step (I := fun s => s.ingest.store.SeenBy s.clock) ?_ ?_ hr
  · intro s action t hs ht
    obtain rfl : liveNext w s action = t := Option.some.inj ht
    exact seenBy_next hs action
  · exact ⟨fun _ _ h => (Option.some_ne_none _ h.symm).elim,
      fun _ _ _ h => (Option.some_ne_none _ h.symm).elim⟩

end NostrMash.Live
