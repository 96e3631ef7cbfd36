import NostrMash.PurgeCoverage
import NostrMash.Machine

/-!
# Completeness of the candidate index

The mirror is refreshed only when a sync starts, and a queued author keeps the cursor of an earlier
resync.
-/

namespace NostrMash.UntrustedPurge
open KeyedTable Machine Option

/-- What a statement of the sync needs. -/
def SettledAt (T : Tables) (ix : Index) (olderThan : ℤ) : Position → Prop
  | .enter .diff => ∀ p ∈ ix.trustedPubkeys, p ∉ T.snapshot →
      ∀ c, ix.authorResync.get p = some c → c = resyncStart
  | .resyncTrust pubkey _ => pubkey ∈ T.snapshot → pubkey ∈ ix.trustedPubkeys
  | .resyncPage pubkey _ => pubkey ∈ T.snapshot → pubkey ∈ ix.trustedPubkeys
  | .enter .promote => ∀ d ∈ ix.deferred.rows, d.2.eligibleAt ≤ olderThan →
      d.2.pubkey ∈ T.snapshot → d.2.pubkey ∈ ix.trustedPubkeys
  | .enter (.backfill (kind :: _)) => T.snapshot ≠ [] ∧
      ∀ e ∈ T.events.rows, e.2.kind = kind → ix.kindCursor kind < seenKey e →
        e.2.firstSeenAt < olderThan → e.2.pubkey ∈ T.snapshot → e.2.pubkey ∈ ix.trustedPubkeys
  | _ => True

def Position.pending : Position → Option Index
  | .commit pending _ => some pending
  | _ => none

/-- A new event stands behind the cursor of its kind, and a stored one is not moved back. -/
def SettledInsert (s : State) (id : String) (row : EventRow) : Prop :=
  match s.tables.events.get id with
  | some old => old.firstSeenAt ≤ row.firstSeenAt
  | none => 0 ≤ row.createdAt ∧ s.index.kindCursor row.kind < seenKey (id, row) ∧
      ∀ y, s.sync = some y → ∀ pending, y.position.pending = some pending →
        pending.kindCursor row.kind < seenKey (id, row)

def Settled (s : State) : Action → Prop
  | .insertEvent id row => SettledInsert s id row
  | .advance => ∀ y, s.sync = some y → SettledAt s.tables s.index y.olderThan y.position
  | _ => True

def Holds (T : Tables) (ix : Index) : Position → Prop
  | .resyncTrust pubkey cursor => ix.authorResync.get pubkey = some cursor
  | .resyncPage pubkey cursor => ix.authorResync.get pubkey = some cursor
  | .commit pending _ => Sound T pending
  | _ => True

structure Inv (s : State) : Prop where
  created : ∀ id row, s.tables.events.get id = some row → 0 ≤ row.createdAt
  sound : Sound s.tables s.index
  sync : ∀ y, s.sync = some y → Holds s.tables s.index y.position

section
variable {T T' : Tables} {ix : Index}

theorem Sound.of_tables (h : Sound T ix)
    (hstored : ∀ id row, T.events.get id = some row → Stored T' id row)
    (hpurgeable : ∀ id row, Purgeable T' id row → seenKey (id, row) ≤ ix.kindCursor row.kind →
      Purgeable T id row) : Sound T' ix where
  candidates := by
    intro id c hc
    obtain ⟨row, hrow, hpub, hkind⟩ := h.candidates id c hc
    obtain ⟨row', hrow', hpub', hkind'⟩ := hstored id row hrow
    exact ⟨row', hrow', hpub'.trans hpub, hkind'.trans hkind⟩
  deferred := by
    intro id d hd
    obtain ⟨row, hrow, hpub, hkind⟩ := h.deferred id d hd
    obtain ⟨row', hrow', hpub', hkind'⟩ := hstored id row hrow
    exact ⟨row', hrow', hpub'.trans hpub, hkind'.trans hkind⟩
  located := fun id row hp hseen => h.located id row (hpurgeable id row hp hseen) hseen

theorem Sound.replaceSnapshot (h : Sound T ix) (pubkeys : List String) :
    Sound { T with snapshot := pubkeys } ix :=
  h.of_tables (fun _ row hrow => ⟨row, hrow, rfl, rfl⟩)
    fun _ _ hp _ => ⟨hp.stored, hp.kind, hp.noReply⟩

theorem Sound.linkReply (h : Sound T ix) (id : String) :
    Sound { T with threadEdges := id :: T.threadEdges } ix :=
  h.of_tables (fun _ row hrow => ⟨row, hrow, rfl, rfl⟩) fun _ _ hp _ =>
    ⟨hp.stored, hp.kind, fun hr => hp.noReply ⟨hr.1, List.mem_cons_of_mem id hr.2⟩⟩

variable {id id' : String} {row old : EventRow}

theorem get_insertEvent_self : (T.insertEvent id row).events.get id =
    some ((T.events.get id).elim row fun old =>
      { old with firstSeenAt := min old.firstSeenAt row.firstSeenAt }) :=
  get_upsert_self _ _

theorem get_insertEvent_ne (h : id' ≠ id) :
    (T.insertEvent id row).events.get id' = T.events.get id' :=
  get_upsert_ne h _ _

theorem stored_insertEvent (h : T.events.get id' = some old) :
    Stored (T.insertEvent id row) id' old := by
  by_cases hne : id' = id
  · subst hne
    exact ⟨_, get_insertEvent_self, by rw [h]; rfl, by rw [h]; rfl⟩
  · exact ⟨old, (get_insertEvent_ne hne).trans h, rfl, rfl⟩

theorem get_insertEvent_again (hold : T.events.get id = some old)
    (hle : old.firstSeenAt ≤ row.firstSeenAt) (id' : String) :
    (T.insertEvent id row).events.get id' = T.events.get id' := by
  by_cases hne : id' = id
  · subst hne
    rw [get_insertEvent_self, hold, elim_some, min_eq_left hle]
  · exact get_insertEvent_ne hne

theorem Sound.insertEvent (h : Sound T ix)
    (hsettled : match T.events.get id with
      | some old => old.firstSeenAt ≤ row.firstSeenAt
      | none => ix.kindCursor row.kind < seenKey (id, row)) :
    Sound (T.insertEvent id row) ix := by
  refine h.of_tables (fun _ _ hrow => stored_insertEvent hrow) fun id' row' hp hseen => ?_
  refine ⟨?_, hp.kind, hp.noReply⟩
  have hstored := hp.stored
  by_cases hne : id' = id
  · subst hne
    cases hold : T.events.get id' with
    | some old =>
      rw [hold] at hsettled
      rw [get_insertEvent_again hold hsettled, hold] at hstored
      exact hstored
    | none =>
      rw [hold] at hsettled
      rw [get_insertEvent_self, hold] at hstored
      cases hstored
      exact absurd hseen (not_le.mpr hsettled)
  · rw [get_insertEvent_ne hne] at hstored
    exact hstored

end

section
variable {T : Tables} {ix : Index} {s : State} {olderThan : ℤ}

theorem holds_loop (stage : Stage) {y : Sync} (h : Sync.loop olderThan stage = some y) :
    Holds T ix y.position := by
  unfold Sync.loop at h
  split at h
  · cases h
  · cases h
    trivial

theorem sound_syncUntrustedPurgeCandidates {position : Position} (h : Sound T ix)
    (hcreated : ∀ id row, T.events.get id = some row → 0 ≤ row.createdAt)
    (hpos : Holds T ix position) (hg : SettledAt T ix olderThan position) :
    Sound T (syncUntrustedPurgeCandidates T ix olderThan position).1 ∧
      ∀ y, (syncUntrustedPurgeCandidates T ix olderThan position).2 = some y →
        Holds T (syncUntrustedPurgeCandidates T ix olderThan position).1 y.position := by
  cases position with
  | check stage =>
    refine ⟨h, fun y hy => ?_⟩
    rw [syncUntrustedPurgeCandidates] at hy
    split_ifs at hy
    cases hy
    cases stage <;> trivial
  | enter stage =>
    cases stage with
    | diff =>
      exact ⟨sound_diffUntrustedTrustMirror h hcreated hg, fun y hy => holds_loop .resync hy⟩
    | resync =>
      refine ⟨h, fun y hy => ?_⟩
      rw [syncUntrustedPurgeCandidates] at hy
      cases hnext : ix.nextResync with
      | none =>
        rw [hnext] at hy
        exact holds_loop .promote hy
      | some next =>
        rw [hnext] at hy
        cases hy
        exact mem_rows.mp (mem_of_mem_scan (List.mem_of_mem_head? hnext))
    | promote => exact ⟨sound_promoteDeferredUntrusted h hg, fun y hy => holds_loop _ hy⟩
    | backfill kinds =>
      cases kinds with
      | nil => exact ⟨h, fun y hy => nomatch hy⟩
      | cons kind kinds =>
        refine ⟨h, fun y hy => ?_⟩
        rw [syncUntrustedPurgeCandidates] at hy
        cases hpage : backfillUntrustedKindPage T ix olderThan kind with
        | none =>
          rw [hpage] at hy
          exact holds_loop (.backfill kinds) hy
        | some result =>
          rw [hpage] at hy
          cases hy
          exact sound_backfillUntrustedKindPage h hg.1 hg.2 hpage
  | resyncTrust pubkey cursor =>
    refine ⟨h, fun y hy => ?_⟩
    cases hy
    by_cases htrust : pubkey ∈ T.snapshot
    · rw [if_pos htrust]
      refine h.dropResync fun id row _ hpub _ => ?_
      exact .inr (.inr (hpub ▸ hg htrust))
    · rw [if_neg htrust]
      exact hpos
  | resyncPage pubkey cursor =>
    refine ⟨h, fun y hy => ?_⟩
    cases hy
    exact sound_resyncUntrustedAuthor h hpos hg
  | commit pending next => exact ⟨hpos, fun y hy => holds_loop _ hy⟩

theorem Inv.withTables (h : Inv s) {T' : Tables}
    (hcreated : ∀ id row, T'.events.get id = some row → 0 ≤ row.createdAt)
    (hindex : Sound T' s.index)
    (hpending : ∀ y pending, s.sync = some y → y.position.pending = some pending →
      Sound s.tables pending → Sound T' pending) : Inv { s with tables := T' } where
  created := hcreated
  sound := hindex
  sync := by
    intro y hy
    have hpos := h.sync y hy
    have hpend := hpending y
    cases hp : y.position with
    | check stage => trivial
    | enter stage => cases stage <;> trivial
    | resyncTrust pubkey cursor => rwa [hp] at hpos
    | resyncPage pubkey cursor => rwa [hp] at hpos
    | commit pending next =>
      rw [hp] at hpos hpend
      exact hpend pending hy rfl hpos

theorem created_insertEvent {id : String} {row : EventRow}
    (h : ∀ id row, T.events.get id = some row → 0 ≤ row.createdAt)
    (hnew : T.events.get id = none → 0 ≤ row.createdAt) (id' : String) (row' : EventRow)
    (hrow : (T.insertEvent id row).events.get id' = some row') : 0 ≤ row'.createdAt := by
  by_cases hne : id' = id
  · subst hne
    rw [get_insertEvent_self] at hrow
    cases hold : T.events.get id' with
    | none =>
      rw [hold] at hrow
      exact some.inj hrow ▸ hnew hold
    | some old =>
      rw [hold] at hrow
      exact some.inj hrow ▸ h id' old hold
  · rw [get_insertEvent_ne hne] at hrow
    exact h id' row' hrow

theorem inv_insertEvent (h : Inv s) {id : String} {row : EventRow} (hg : SettledInsert s id row) :
    Inv { s with tables := s.tables.insertEvent id row } := by
  unfold SettledInsert at hg
  cases hold : s.tables.events.get id with
  | none =>
    rw [hold] at hg
    obtain ⟨hcreated, hindex, hpending⟩ := hg
    refine h.withTables (created_insertEvent h.created fun _ => hcreated)
      (h.sound.insertEvent (by rwa [hold])) fun y pending hy hp hsound => ?_
    refine hsound.insertEvent ?_
    rw [hold]
    exact hpending y hy pending hp
  | some old =>
    rw [hold] at hg
    have hnew : s.tables.events.get id = none → 0 ≤ row.createdAt := fun hnone => by
      rw [hold] at hnone
      cases hnone
    exact h.withTables (created_insertEvent h.created hnew)
      (h.sound.insertEvent (by rwa [hold])) fun y pending _ _ hsound =>
        hsound.insertEvent (by rwa [hold])

theorem inv_step {t : State} (h : Inv s) (a : Action) (hg : Settled s a)
    (hstep : step s a = some t) : Inv t := by
  cases a with
  | replaceSnapshot pubkeys =>
    cases hstep
    exact h.withTables h.created (h.sound.replaceSnapshot pubkeys)
      fun _ _ _ _ hsound => hsound.replaceSnapshot pubkeys
  | insertEvent id row =>
    cases hstep
    exact inv_insertEvent h hg
  | linkReply id =>
    cases hstep
    exact h.withTables h.created (h.sound.linkReply id) fun _ _ _ _ hsound => hsound.linkReply id
  | startSync olderThan =>
    cases hstep
    refine ⟨h.created, h.sound, fun y hy => ?_⟩
    rcases or_eq_some_iff.mp hy with hy | ⟨-, hy⟩
    · exact h.sync y hy
    · cases hy
      trivial
  | advance =>
    obtain ⟨y, hy, rfl⟩ := map_eq_some_iff.mp hstep
    obtain ⟨hsound, hsync⟩ := sound_syncUntrustedPurgeCandidates h.sound h.created (h.sync y hy)
      (hg y hy)
    exact ⟨h.created, hsound, hsync⟩
  | stop =>
    cases hstep
    exact ⟨h.created, h.sound, fun y hy => nomatch hy⟩

theorem inv_init : Inv init where
  created := fun _ _ h => nomatch h
  sound := ⟨fun _ _ h => (nomatch h), fun _ _ h => (nomatch h), fun _ _ hp _ => (nomatch hp.stored)⟩
  sync := fun _ h => nomatch h

theorem Inv.complete (h : Inv s) : Complete s := by
  intro id row hstored hkind _ _ hreply hseen
  rcases h.sound.located id row ⟨hstored, hkind, hreply⟩ hseen with (hc | hd | hm) | ⟨c, hc, hlt⟩
  · exact .inl hc
  · exact .inr (.inl hd)
  · exact .inr (.inr (.inr hm))
  · exact .inr (.inr (.inl ⟨c, hc, hlt.le⟩))

end

/-- In every run whose steps are settled the index is complete in every state. -/
theorem always_complete_of_settled (as : List Action)
    (h : Machine.Guarded step Settled init as) : Machine.Always step Complete init as := by
  intro bs hpre s hrun
  have hinv : Inv s := run_invariant (I := Inv)
    (fun s a t hs hg hstep => inv_step hs a hg hstep) inv_init (guarded_initial hpre h) hrun
  exact hinv.complete

/-- A sync up to the backfill of the first kind, with the snapshot `trusted` at its diff and the
author trusted from then on. -/
def sweepAndDrop (trusted : List String) : List Action :=
  [.replaceSnapshot trusted, .insertEvent "note" ⟨"author", 1, 10, 10000000⟩, .startSync 20000000,
    .advance, .advance, .replaceSnapshot ["author", "seed"], .advance, .advance, .advance,
    .advance, .advance, .advance, .advance, .replaceSnapshot ["seed"]]

theorem settled_sweepAndDrop :
    Machine.Guarded step Settled init (sweepAndDrop ["author", "seed"]) := by
  refine guarded_cons trivial rfl ?_
  refine guarded_cons ⟨by decide, by decide, fun _ hy => nomatch hy⟩ rfl ?_
  refine guarded_cons trivial rfl ?_
  refine guarded_cons (fun _ hy => some.inj hy ▸ trivial) rfl ?_
  refine guarded_cons (fun _ hy => ?_) rfl ?_
  · cases hy
    exact fun p hp => nomatch hp
  refine guarded_cons trivial rfl ?_
  refine guarded_cons (fun _ hy => some.inj hy ▸ trivial) rfl ?_
  refine guarded_cons (fun _ hy => some.inj hy ▸ trivial) rfl ?_
  refine guarded_cons (fun _ hy => some.inj hy ▸ trivial) rfl ?_
  refine guarded_cons (fun _ hy => ?_) rfl ?_
  · cases hy
    exact fun d hd => nomatch hd
  refine guarded_cons (fun _ hy => some.inj hy ▸ trivial) rfl ?_
  refine guarded_cons (fun _ hy => ?_) rfl ?_
  · cases hy
    exact ⟨by decide, by decide⟩
  refine guarded_cons (fun _ hy => some.inj hy ▸ trivial) rfl ?_
  exact guarded_cons trivial rfl trivial

theorem always_complete_sweepAndDrop :
    Machine.Always step Complete init (sweepAndDrop ["author", "seed"]) :=
  always_complete_of_settled _ settled_sweepAndDrop

/-- The author enters the snapshot after the diff, so the backfill passes over the note and nothing
remembers the author when they are dropped. -/
theorem dropped_author_forgotten : ¬ Machine.Always step Complete init (sweepAndDrop ["seed"]) := by
  intro h
  have hfound := h _ (List.prefix_refl _) _ rfl "note" ⟨"author", 1, 10, 10000000⟩ rfl (by decide)
    (by decide) (by decide) (by decide) (by decide)
  rcases hfound with hc | hd | ⟨c, hc, -⟩ | hm
  · revert hc
    decide
  · revert hd
    decide
  · cases hc
  · revert hm
    decide

end NostrMash.UntrustedPurge
