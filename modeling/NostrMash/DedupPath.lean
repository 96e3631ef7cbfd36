import NostrMash.HandleTables

/-!
# The path of cached duplicates and the full path

`Handle` answers a cached identifier from the cache alone.
-/

namespace NostrMash.Live
open Machine Nostr Function

set_option maxRecDepth 1000

section
variable (w : Wiring) (a : Answers) (clock : ℕ) (relayURL : String) (payload : Payload)

structure Answers.StoreWorks (a : Answers) : Prop where
  provenance : a.provenanceFault = none
  census : a.censusFault = none
  insert : a.insertFault = none
  upsert : a.checkpoint.upsert = .ok ()

/-- The call with the cache and the call without it leave the same tables and fail together. -/
def AgreesWithoutCache (s : Ingest) : Prop :=
  let fast := handle w a clock relayURL payload s
  let slow := handle w a clock relayURL payload { s with dedup := none }
  fast.2.store.events = slow.2.store.events ∧
    fast.2.store.eventRelays = slow.2.store.eventRelays ∧ fast.1.isOk = slow.1.isOk

/-- The full path would insert the event: its author is not blocked, its kind is not only counted,
the gate accepts it and it has not expired. -/
def Reinserts (e : Event) : Prop := eventRoute w a clock relayURL e = .insert e

def EventStore.Stored (store : EventStore) (id : String) : Prop := (store.events id).isSome

def EventStore.Sighted (store : EventStore) (id relay pubkey : String) : Prop :=
  ∃ row, store.eventRelays id relay = some row ∧ row.pubkey = pubkey

/-- A cached identifier still stands for the event of the payload. -/
def StillDuplicate (s : Ingest) (e : Event) : Prop :=
  ∀ probe pubkey refreshed, cachedDuplicate s.dedup payload = some (probe, pubkey, refreshed) →
    if trimSpace relayURL = "" then Reinserts w a clock relayURL e ∨ w.checkpointWriter = true
    else s.store.Stored probe.id ∧
      (Reinserts w a clock relayURL e ∧ probe.id = e.id ∧ pubkey = e.pubkey ∨
        s.store.Sighted probe.id relayURL pubkey ∧
          (Reinserts w a clock relayURL e → s.store.Sighted e.id relayURL e.pubkey))

end

section
variable {w : Wiring} {a : Answers} {clock : ℕ} {relayURL i id p relay : String} {payload : Payload}
  {s : Ingest} {e : Event} {probe : DedupProbe} {pubkey : String} {refreshed : DedupCache}
  {store : EventStore} {t : ℤ}

theorem eventRoute_cases (w : Wiring) (clock : ℕ) (relayURL : String) (e : Event)
    (hw : a.StoreWorks) : Reinserts w a clock relayURL e ∨ ¬ Reinserts w a clock relayURL e ∧
      ∀ rawJSON store,
        (eventRoute w a clock relayURL e).storeAfter a clock relayURL rawJSON store = store ∧
          (eventRoute w a clock relayURL e).succeeds w a clock relayURL store =
            marks w relayURL := by
  unfold Reinserts eventRoute
  split_ifs
  · exact .inr ⟨not_false, fun _ _ => ⟨rfl, rfl⟩⟩
  · exact .inr ⟨not_false, fun _ _ => ⟨rfl, by simp [Route.succeeds, hw.census]⟩⟩
  · exact .inr ⟨not_false, fun _ _ => ⟨rfl, rfl⟩⟩
  · exact .inr ⟨not_false, fun _ _ => ⟨rfl, rfl⟩⟩
  · exact .inl rfl

section
variable (h : store.SeenBy t)
include h

theorem seen_eq_iff :
    some (EventStore.seen (store.eventRelays id relay) t pubkey) = store.eventRelays id relay ↔
      store.Sighted id relay pubkey := by
  unfold EventStore.Sighted
  cases hold : store.eventRelays id relay with
  | none => simp
  | some row =>
    have hle : min row.seenAt t = row.seenAt := min_eq_left (h.sighted id relay row hold)
    obtain ⟨seenAt, author⟩ := row
    simp only [EventStore.seen, Option.elim, hle, Option.some.injEq, RelaySighting.mk.injEq,
      true_and, exists_eq_left']
    exact eq_comm

theorem events_upsertEvent_iff {row : EventRow} (ht : row.firstSeenAt = t) :
    store.events = (store.upsertEvent id row).events ↔ store.Stored id := by
  constructor
  · intro heq
    unfold EventStore.Stored
    rw [heq]
    exact store.isSome_upsertEvent id row
  · intro hs
    obtain ⟨old, hold⟩ := Option.isSome_iff_exists.mp hs
    have hle : min old.firstSeenAt row.firstSeenAt = old.firstSeenAt :=
      min_eq_left (ht ▸ (h.stored id old hold).2)
    simp only [EventStore.upsertEvent, hold, Option.elim, hle]
    rw [← hold, update_eq_self]

theorem update_update_iff {j q : String} :
    Function.update store.eventRelays i (Function.update (store.eventRelays i) relay
          (some (EventStore.seen (store.eventRelays i relay) t p))) =
        Function.update store.eventRelays j (Function.update (store.eventRelays j) relay
          (some (EventStore.seen (store.eventRelays j relay) t q))) ↔
      i = j ∧ p = q ∨ store.Sighted i relay p ∧ store.Sighted j relay q := by
  constructor
  · intro heq
    by_cases hij : i = j
    · subst hij
      have hrow := congrFun (congrFun heq i) relay
      simp only [update_self, Option.some.injEq, EventStore.seen,
        RelaySighting.mk.injEq, true_and] at hrow
      exact .inl ⟨rfl, hrow⟩
    · have hi := congrFun (congrFun heq i) relay
      have hj := congrFun (congrFun heq j) relay
      rw [update_self, update_self, update_of_ne hij] at hi
      rw [update_self, update_self, update_of_ne (Ne.symm hij)] at hj
      exact .inr ⟨(seen_eq_iff h).mp hi, (seen_eq_iff h).mp hj.symm⟩
  · rintro (⟨rfl, rfl⟩ | ⟨hi, hj⟩)
    · rfl
    · rw [(seen_eq_iff h).mpr hi, (seen_eq_iff h).mpr hj, update_eq_self,
        update_eq_self, update_eq_self, update_eq_self]

theorem update_eq_iff :
    Function.update store.eventRelays i (Function.update (store.eventRelays i) relay
          (some (EventStore.seen (store.eventRelays i relay) t p))) = store.eventRelays ↔
      store.Sighted i relay p := by
  constructor
  · intro heq
    have hi := congrFun (congrFun heq i) relay
    rw [update_self, update_self] at hi
    exact (seen_eq_iff h).mp hi
  · intro hi
    rw [(seen_eq_iff h).mpr hi, update_eq_self, update_eq_self]

end

theorem route_of_outcome (hv : (parseAndValidate w.crypto w.validateOpts payload).outcome = .ok e) :
    route w a clock relayURL payload none = eventRoute w a clock relayURL e := by
  simp [route, cachedDuplicate, hv]

/-- Two routes from one store leave the same tables and fail together. -/
def SameEffect (w : Wiring) (a : Answers) (clock : ℕ) (relayURL : String) (rawJSON : Option Json)
    (store : EventStore) (fast slow : Route) : Prop :=
  (fast.storeAfter a clock relayURL rawJSON store).events =
      (slow.storeAfter a clock relayURL rawJSON store).events ∧
    (fast.storeAfter a clock relayURL rawJSON store).eventRelays =
      (slow.storeAfter a clock relayURL rawJSON store).eventRelays ∧
    fast.succeeds w a clock relayURL store = slow.succeeds w a clock relayURL store

theorem agreesWithoutCache_iff_sameEffect (hw : a.StoreWorks) :
    AgreesWithoutCache w a clock relayURL payload s ↔
      SameEffect w a clock relayURL (parseAndValidate w.crypto w.validateOpts payload).rawJSON
        s.store (route w a clock relayURL payload s.dedup)
        (route w a clock relayURL payload none) := by
  simp only [AgreesWithoutCache, store_handle, isOk_handle w clock relayURL hw.upsert, SameEffect]

variable {rawJSON : Option Json}

theorem cached_fails (w : Wiring) (a : Answers) (clock : ℕ) (rawJSON : Option Json)
    (pubkey : String) (refreshed : DedupCache)
    (h : trimSpace relayURL = "" ∨ ¬ store.Stored probe.id) :
    (Route.cached probe pubkey refreshed).storeAfter a clock relayURL rawJSON store = store ∧
      (Route.cached probe pubkey refreshed).succeeds w a clock relayURL store = false := by
  unfold Route.storeAfter Route.succeeds EventStore.insertEventRelayProvenance
  by_cases hid : trimSpace probe.id = ""
  · simp [hid, Except.isOk, Except.toBool]
  · rcases h with hb | hs
    · simp [hid, hb, Except.isOk, Except.toBool]
    · by_cases hb : trimSpace relayURL = ""
      · simp [hid, hb, Except.isOk, Except.toBool]
      · unfold EventStore.Stored at hs
        cases a.provenanceFault with
        | none => simp [hid, hb, hs, Except.isOk, Except.toBool]
        | some err => simp [hid, hb, Except.isOk, Except.toBool]

theorem cached_succeeds (w : Wiring) (clock : ℕ) (rawJSON : Option Json) (pubkey : String)
    (refreshed : DedupCache) (hw : a.StoreWorks) (hb : trimSpace relayURL ≠ "")
    (hid : trimSpace probe.id ≠ "") (hs : store.Stored probe.id) :
    (Route.cached probe pubkey refreshed).storeAfter a clock relayURL rawJSON store =
        store.upsertRelay probe.id relayURL (a.seenAt clock) pubkey hs ∧
      (Route.cached probe pubkey refreshed).succeeds w a clock relayURL store = true := by
  unfold EventStore.Stored at hs
  unfold Route.storeAfter Route.succeeds EventStore.insertEventRelayProvenance
  simp [hw.provenance, hb, hid, hs, marks, Except.isOk, Except.toBool]

theorem sameEffect_iff_of_blank (hw : a.StoreWorks) (hb : trimSpace relayURL = "") :
    SameEffect w a clock relayURL rawJSON store (.cached probe pubkey refreshed)
        (eventRoute w a clock relayURL e) ↔
      Reinserts w a clock relayURL e ∨ w.checkpointWriter = true := by
  obtain ⟨hfast, hfails⟩ := cached_fails w a clock rawJSON pubkey refreshed
    (.inl hb : trimSpace relayURL = "" ∨ ¬ store.Stored probe.id)
  simp only [SameEffect, hfast, hfails]
  rcases eventRoute_cases w clock relayURL e hw with hre | ⟨hre, heff⟩
  · have hroute : eventRoute w a clock relayURL e = .insert e := hre
    have hslow : (Route.insert e).storeAfter a clock relayURL rawJSON store = store := by
      unfold Route.storeAfter EventStore.insertCanonicalEventWithResult
      by_cases hid : trimSpace e.id = ""
      · simp [hid]
      · simp [hid, hb]
    simp [hroute, hslow, hre, Route.succeeds, insertSucceeds, hb]
  · obtain ⟨hstore, hsucceeds⟩ := heff rawJSON store
    simp [hre, hstore, hsucceeds, marks, hb]

theorem eventRoute_succeeds (hw : a.StoreWorks) (hb : trimSpace relayURL ≠ "")
    (hid : trimSpace e.id ≠ "") :
    (eventRoute w a clock relayURL e).succeeds w a clock relayURL store = true := by
  have hmarks : marks w relayURL = true := by simp [marks, hb]
  rcases eventRoute_cases w clock relayURL e hw with hre | ⟨-, heff⟩
  · have hroute : eventRoute w a clock relayURL e = .insert e := hre
    simp [hroute, Route.succeeds, insertSucceeds, hid, hb, hw.insert, hmarks]
  · exact (heff none store).2.trans hmarks

theorem sameEffect_iff_of_relay (hw : a.StoreWorks) (hb : trimSpace relayURL ≠ "")
    (hid : trimSpace e.id ≠ "") (h : store.SeenBy (a.seenAt clock)) :
    SameEffect w a clock relayURL rawJSON store (.cached probe pubkey refreshed)
        (eventRoute w a clock relayURL e) ↔ store.Stored probe.id ∧
        (Reinserts w a clock relayURL e ∧ probe.id = e.id ∧ pubkey = e.pubkey ∨
          store.Sighted probe.id relayURL pubkey ∧
            (Reinserts w a clock relayURL e → store.Sighted e.id relayURL e.pubkey)) := by
  by_cases hs : store.Stored probe.id
  · obtain ⟨old, hold⟩ := Option.isSome_iff_exists.mp hs
    obtain ⟨hfast, hok⟩ := cached_succeeds w clock rawJSON pubkey refreshed hw hb
      (h.stored _ old hold).1 hs
    simp only [SameEffect, hfast, hok, hs, true_and]
    rcases eventRoute_cases w clock relayURL e hw with hre | ⟨hre, heff⟩
    · have hroute : eventRoute w a clock relayURL e = .insert e := hre
      simp only [eventRoute_succeeds hw hb hid, hre, true_and, true_implies, and_true]
      simp only [hroute, Route.storeAfter, EventStore.insertCanonicalEventWithResult, if_neg hid,
        if_neg hb, hw.insert, EventStore.upsertRelay]
      rw [events_upsertEvent_iff h rfl]
      refine (and_congr_right' (update_update_iff h)).trans ⟨And.right, fun hor => ⟨?_, hor⟩⟩
      rcases hor with ⟨hid, -⟩ | ⟨-, row, hrow, -⟩
      · exact hid ▸ hs
      · exact store.foreign_key e.id relayURL (hrow ▸ rfl)
    · obtain ⟨hstore, -⟩ := heff rawJSON store
      simp only [hstore, eventRoute_succeeds hw hb hid, hre, false_and, false_or, false_implies,
        and_true]
      simp only [EventStore.upsertRelay, true_and]
      exact update_eq_iff h
  · obtain ⟨hfast, hfails⟩ := cached_fails w a clock rawJSON pubkey refreshed
      (.inr hs : trimSpace relayURL = "" ∨ ¬ store.Stored probe.id)
    simp [SameEffect, hfails, eventRoute_succeeds hw hb hid, hs]

end

section
variable {w : Wiring} {clock : ℕ} {actions : List LiveAction} {s : LiveState} {payload : Payload}
  {e : Event}

/-- In every reachable state a valid payload has the same effect with the cache and without it
exactly when a cached identifier still stands for its event. -/
theorem agreesWithoutCache_iff_stillDuplicate
    (hr : run (liveStep w) (LiveState.init w clock) actions = some s)
    (hv : (parseAndValidate w.crypto w.validateOpts payload).outcome = .ok e)
    (relayURL : String) (a : Answers) (hw : a.StoreWorks) :
    AgreesWithoutCache w a s.clock relayURL payload s.ingest ↔
      StillDuplicate w a s.clock relayURL payload s.ingest e := by
  have hseen : s.ingest.store.SeenBy (a.seenAt s.clock) :=
    (seenBy_run hr).mono (by unfold Answers.seenAt; omega)
  have hid : trimSpace e.id ≠ "" := by
    have hhex := (wellFormed_of_parseAndValidate hv).id_hex
    rw [trimSpace_of_isLowerHex hhex]
    rintro h
    rw [h] at hhex
    exact nomatch hhex
  rw [agreesWithoutCache_iff_sameEffect hw, route_of_outcome hv]
  cases hc : cachedDuplicate s.ingest.dedup payload with
  | none =>
    have hroute : route w a s.clock relayURL payload s.ingest.dedup =
        eventRoute w a s.clock relayURL e := by simp [route, hc, hv]
    rw [hroute]
    simp [StillDuplicate, hc, SameEffect]
  | some hit =>
    obtain ⟨probe, pubkey, refreshed⟩ := hit
    have hroute : route w a s.clock relayURL payload s.ingest.dedup =
        .cached probe pubkey refreshed := by simp [route, hc]
    rw [hroute]
    by_cases hb : trimSpace relayURL = ""
    · rw [sameEffect_iff_of_blank hw hb]
      simp [StillDuplicate, hc, hb]
    · rw [sameEffect_iff_of_relay hw hb hid hseen]
      simp [StillDuplicate, hc, hb]

end

def cachingWiring : Wiring := { plainWiring with dedupSize := 10 }

def firstEvent : Event :=
  { id := firstNote.id, pubkey := notePubkey, createdAt := firstNote.createdAt, kind := 1
    tags := [], content := "gm", sig := firstNote.sig }

theorem firstNote_accepted : (parseAndValidate cachingWiring.crypto cachingWiring.validateOpts
    firstNote.payload).outcome = .ok firstEvent :=
  accepted_of_toOption (by decide)

theorem calmAnswers_storeWorks : calmAnswers.StoreWorks := ⟨rfl, rfl, rfl, rfl⟩

def afterFirstNote : LiveState :=
  liveNext cachingWiring (LiveState.init cachingWiring 1700000000000000000)
    (.handle relayExample firstNote.payload calmAnswers)

theorem run_afterFirstNote :
    run (liveStep cachingWiring) (LiveState.init cachingWiring 1700000000000000000)
      [.handle relayExample firstNote.payload calmAnswers] = some afterFirstNote := rfl

theorem stillDuplicate_firstNote : StillDuplicate cachingWiring calmAnswers afterFirstNote.clock
    relayExample firstNote.payload afterFirstNote.ingest firstEvent := by
  intro probe pubkey refreshed hc
  obtain ⟨hit, hs⟩ : (cachedDuplicate afterFirstNote.ingest.dedup firstNote.payload).map
        (fun hit => (hit.1.id, hit.2.1)) = some (firstEvent.id, firstEvent.pubkey) ∧
      afterFirstNote.ingest.store.Stored firstEvent.id := by
    unfold EventStore.Stored
    decide
  rw [hc] at hit
  obtain ⟨hid, hpubkey⟩ := Prod.mk.inj (Option.some.inj hit)
  have hre : Reinserts cachingWiring calmAnswers afterFirstNote.clock relayExample firstEvent := by
    unfold Reinserts eventRoute
    rw [if_neg (by decide), if_neg (by decide), if_neg (by decide), if_neg (by decide)]
  rw [if_neg (by decide)]
  exact ⟨hid ▸ hs, .inl ⟨hre, hid, hpubkey⟩⟩

/-- A second delivery of the note has the same effect with the cache and without it. -/
theorem agrees_on_second_delivery : AgreesWithoutCache cachingWiring calmAnswers
    afterFirstNote.clock relayExample firstNote.payload afterFirstNote.ingest :=
  (agreesWithoutCache_iff_stillDuplicate run_afterFirstNote firstNote_accepted relayExample
    calmAnswers calmAnswers_storeWorks).mpr stillDuplicate_firstNote

def afterPurge : LiveState := liveNext cachingWiring afterFirstNote (.purge 0 fun _ => true)

/-- A delivery of the deleted note fails with the cache and stores the note without it. -/
theorem purged_note_fails_when_cached :
    ∃ s, run (liveStep cachingWiring) (LiveState.init cachingWiring 1700000000000000000)
        [.handle relayExample firstNote.payload calmAnswers, .purge 0 fun _ => true] = some s ∧
      (parseAndValidate cachingWiring.crypto cachingWiring.validateOpts firstNote.payload).outcome =
        .ok firstEvent ∧ calmAnswers.StoreWorks ∧
      ¬ AgreesWithoutCache cachingWiring calmAnswers s.clock relayExample firstNote.payload
        s.ingest := by
  refine ⟨afterPurge, rfl, firstNote_accepted, calmAnswers_storeWorks, fun h => ?_⟩
  obtain ⟨hfast, hslow⟩ : (handle cachingWiring calmAnswers afterPurge.clock relayExample
        firstNote.payload afterPurge.ingest).1.isOk = false ∧
      (handle cachingWiring calmAnswers afterPurge.clock relayExample firstNote.payload
        { afterPurge.ingest with dedup := none }).1.isOk = true := by
    decide
  have hagree := h.2.2
  rw [hfast, hslow] at hagree
  cases hagree

end NostrMash.Live
