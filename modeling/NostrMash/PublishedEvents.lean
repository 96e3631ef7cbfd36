import NostrMash.EventPublishing

/-!
# Derivation of stored events

Whether a newly stored event will be derived is decided by the job row that its insertion finds. A
finished job of an earlier copy of the event drops the enqueue and derives nothing.
-/

namespace NostrMash.Publishing
open Live Queue Machine Option
variable {s s' : State} {r : InsertRequest} {action : Action} {S S' : Tables}

theorem insert_store_eq_ok {store store' : EventStore} {new : Bool}
    (h : store.insertCanonicalEventWithResult r.fault r.event r.rawJSON r.relayURL r.seenAt =
      .ok (new, store')) : trimSpace r.event.id ≠ "" ∧ trimSpace r.relayURL ≠ "" ∧ r.fault = none ∧
      new = (store.events r.event.id).isNone := by
  unfold EventStore.insertCanonicalEventWithResult at h
  split at h
  · exact nomatch h
  · rename_i hid
    split at h
    · exact nomatch h
    · rename_i hrelay
      cases hfault : r.fault with
      | some err => rw [hfault] at h; exact nomatch h
      | none =>
        rw [hfault] at h
        exact ⟨hid, hrelay, rfl, (congrArg Prod.fst (Except.ok.inj h)).symm⟩

theorem insert_eq_ok_true (h : insertCanonicalEventWithResult S r = .ok (true, S')) :
    Stores S r ∧ ∃ maxAttempts, publishCanonicalEventJobsTx S.jobs r.publishFault r.contextPool
      maxAttempts r.event.id r.now = .ok S'.jobs := by
  unfold insertCanonicalEventWithResult at h
  split at h
  · exact nomatch h
  · exact nomatch h
  · exact nomatch h
  · rename_i store maxAttempts hstore hpublisher
    obtain ⟨hid, hrelay, hfault, hnew⟩ := insert_store_eq_ok hstore
    cases hpublish : publishCanonicalEventJobsTx S.jobs r.publishFault r.contextPool maxAttempts
        r.event.id r.now with
    | error err => rw [hpublish] at h; exact nomatch h
    | ok jobs =>
      rw [hpublish] at h
      obtain rfl := (Prod.ext_iff.mp (Except.ok.inj h)).2
      refine ⟨⟨hid, hrelay, hfault, isNone_iff_eq_none.mp hnew.symm, maxAttempts,
        hpublisher, ?_⟩, maxAttempts, hpublish⟩
      rw [publishCanonicalEventJobsTx, if_neg hid, enqueueEventJobTx] at hpublish
      cases hf : r.publishFault <|> int4Fault (defaultMaxAttempts maxAttempts) with
      | some err => rw [hf] at hpublish; exact nomatch hpublish
      | none => simpa using hf

theorem exists_insert_of_stores (h : Stores S r) :
    ∃ S', insertCanonicalEventWithResult S r = .ok (true, S') := by
  obtain ⟨hid, hrelay, hfault, hnew, maxAttempts, hpublisher, hpublish, hint⟩ := h
  unfold insertCanonicalEventWithResult EventStore.insertCanonicalEventWithResult
  unfold publishCanonicalEventJobsTx enqueueEventJobTx
  simp [hid, hrelay, hfault, hnew, hpublisher, hpublish, hint]

theorem jobs_of_not_inserted (h : insertCanonicalEventWithResult S r = .ok (false, S')) :
    S'.jobs = S.jobs := by
  unfold insertCanonicalEventWithResult at h
  split at h
  · exact nomatch h
  · exact (congrArg (fun p => p.2.jobs) (Except.ok.inj h)).symm
  · exact nomatch h
  · split at h
    · exact nomatch h
    · exact nomatch h

theorem bundlesOnly_step (h : BundlesOnly s.tables.jobs) (hs : step s action = some s') :
    BundlesOnly s'.tables.jobs := by
  cases action with
  | insert r =>
    simp only [step] at hs
    split at hs
    · rename_i tables hinsert
      obtain ⟨-, maxAttempts, hpublish⟩ := insert_eq_ok_true hinsert
      cases hs
      exact bundlesOnly_publish h hpublish
    · rename_i tables hinsert
      cases hs
      exact (jobs_of_not_inserted hinsert).symm ▸ h
    · cases hs
      exact h
  | call call =>
    simp only [step, ite_none_left_eq_some, Option.some.injEq, Bool.not_eq_true] at hs
    rw [← hs.2]
    exact bundlesOnly_evolves h (evolves_exec _ call) (nextID_exec _ hs.1)
  | delete ids =>
    cases hs
    exact h

theorem published_step_iff (h : BundlesOnly s.tables.jobs) (hs : step s action = some s') :
    Published s' ↔ NoFinishedJob s action := by
  have hvacuous : s'.inserted = none → Published s' := fun hnone id hid =>
    nomatch hnone.symm.trans hid
  cases action with
  | insert r =>
    simp only [step] at hs
    split at hs
    · rename_i tables hinsert
      obtain ⟨hstores, maxAttempts, hpublish⟩ := insert_eq_ok_true hinsert
      have hderives := derives_publish_iff h hpublish
      cases hs
      constructor
      · exact fun hpublished _ => hderives.mp (hpublished r.event.id rfl)
      · intro hfree id hid
        obtain rfl : r.event.id = id := some.inj hid
        exact hderives.mpr (hfree hstores)
    · rename_i tables hinsert
      refine iff_of_true (hvacuous (some.inj hs ▸ rfl)) fun hstores => ?_
      obtain ⟨S', hS'⟩ := exists_insert_of_stores hstores
      exact nomatch hinsert.symm.trans hS'
    · rename_i err hinsert
      refine iff_of_true (hvacuous (some.inj hs ▸ rfl)) fun hstores => ?_
      obtain ⟨S', hS'⟩ := exists_insert_of_stores hstores
      exact nomatch hinsert.symm.trans hS'
  | call call =>
    simp only [step, ite_none_left_eq_some, Option.some.injEq] at hs
    exact iff_of_true (hvacuous (hs.2 ▸ rfl)) trivial
  | delete ids => exact iff_of_true (hvacuous (some.inj hs ▸ rfl)) trivial

theorem noFinishedJob_of_none (hs : step s action = none) : NoFinishedJob s action := by
  cases action with
  | insert r =>
    simp only [step] at hs
    split at hs <;> exact nomatch hs
  | call call => trivial
  | delete ids => trivial

/-- Every newly stored event has a job that will derive it exactly if no event is stored again
while a finished job of its earlier copy is left. -/
theorem always_published_iff_noFinishedJob (actions : List Action) :
    Always step Published init actions ↔ Guarded step NoFinishedJob init actions := by
  refine always_iff_guarded (J := fun s => BundlesOnly s.tables.jobs)
    (fun s action s' h hs => bundlesOnly_step h hs)
    (fun s action s' h _ hs => published_step_iff h hs)
    (fun s action _ _ hs => noFinishedJob_of_none hs) ?_ ?_
  · exact fun job hjob => nomatch hjob
  · exact fun id hid => nomatch hid

def noteRequest (now : ℤ) : InsertRequest :=
  { event := { id := "e1", pubkey := "a", createdAt := 0, kind := 1, tags := [], content := ""
               sig := "" }
    rawJSON := none, relayURL := "wss://relay", seenAt := now, now := now, publisher := some 5
    contextPool := none, fault := none, publishFault := none }

def receivedAgain : List Action :=
  [.insert (noteRequest 0),
    .call (.claimAvailableForPool none "host:1" "default" 1 (fun _ => false) 1),
    .call (.completeJob none 1 "host:1" 2), .delete ["e1"], .insert (noteRequest 3)]

theorem receivedAgain_not_published : ∃ s, run step init receivedAgain = some s ∧
    s.inserted = some "e1" ∧ ¬ Derives s.tables.jobs "e1" := by
  have hrun : (run step init receivedAgain).any (fun s => decide (s.inserted = some "e1" ∧
      s.tables.jobs.rows.map (·.status) = [.succeeded])) = true := by decide
  obtain ⟨s, hs, hfacts⟩ := any_eq_true _ _ |>.mp hrun
  obtain ⟨hinserted, hrows⟩ := of_decide_eq_true hfacts
  refine ⟨s, hs, hinserted, ?_⟩
  rintro ⟨job, hjob, -, -, hstatus⟩
  have hsucceeded : job.status ∈ [Status.succeeded] := hrows ▸ List.mem_map_of_mem hjob
  rw [List.mem_singleton.mp hsucceeded] at hstatus
  exact hstatus.elim nofun nofun

end NostrMash.Publishing
