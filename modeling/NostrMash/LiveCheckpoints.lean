import NostrMash.CheckpointSync

/-!
# Live checkpoints of all relays and the resume point

Calls of the checkpoint tracker made one after the other, for every relay at once. `resumeFrom` is
the `since` that a flush leaves in the row of a relay.
-/

namespace NostrMash.Live
open Function

structure RelayCheckpointState where
  checkpoint : IngestCheckpoint
  /-- `none` is the zero time. -/
  lastFlush : Option ℤ
  dirty : Bool
  deriving DecidableEq

structure Checkpoints where
  byRelay : String → Option RelayCheckpointState
  rows : String → Option IngestCheckpoint

structure CheckpointAnswers where
  loads : Bool
  upsert : Except String Unit

namespace Checkpoints

def ensureRelayStateLocked (c : Checkpoints) (a : CheckpointAnswers) (now : ℤ) (relay : String) :
    RelayCheckpointState :=
  (c.byRelay relay).getD
    { checkpoint := ensureRelayState (c.rows relay) a.loads now, lastFlush := none, dirty := false }

def put (c : Checkpoints) (relay : String) (state : RelayCheckpointState) : Checkpoints :=
  { c with byRelay := Function.update c.byRelay relay (some state) }

def upsertRow (c : Checkpoints) (relay : String) (row : IngestCheckpoint) : Checkpoints :=
  { c with rows := Function.update c.rows relay (some row) }

def flushRelay (a : CheckpointAnswers) (now flushedAt : ℤ) (relayURL : String) (c : Checkpoints) :
    Except String Unit × Checkpoints :=
  let relay := trimSpace relayURL
  if relay = "" then (.error "relay url is required", c)
  else
    let state := c.ensureRelayStateLocked a now relay
    if state.dirty then
      match a.upsert with
      | .error e =>
        (.error ("upsert live checkpoint relay " ++ relay ++ ": " ++ e), c.put relay state)
      | .ok _ =>
        (.ok (), (c.upsertRow relay state.checkpoint).put relay
          { state with lastFlush := some flushedAt, dirty := false })
    else (.ok (), c.put relay state)

def update (c : Checkpoints) (a : CheckpointAnswers) (now : ℤ) (relay : String)
    (f : IngestCheckpoint → IngestCheckpoint) : Checkpoints :=
  let state := c.ensureRelayStateLocked a now relay
  c.put relay { state with checkpoint := f state.checkpoint, dirty := true }

def markEventProcessed (flushEvery : ℤ) (a : CheckpointAnswers) (now flushedAt : ℤ)
    (relayURL eventID : String) (createdAt : ℤ) (c : Checkpoints) :
    Except String Unit × Checkpoints :=
  let relay := trimSpace relayURL
  if relay = "" then (.error "relay url is required", c)
  else
    let lastFlush := (c.ensureRelayStateLocked a now relay).lastFlush
    let marked := c.update a now relay (IngestCheckpoint.markEventProcessed now eventID createdAt)
    if lastFlush.all fun last => now - last ≥ flushEvery then
      flushRelay a now flushedAt relay marked
    else (.ok (), marked)

def setRelayStatus (a : CheckpointAnswers) (now flushedAt : ℤ) (relayURL : String)
    (state : RelayState) (lastError : String) (c : Checkpoints) :
    Except String Unit × Checkpoints :=
  let relay := trimSpace relayURL
  if relay = "" then (.error "relay url is required", c)
  else
    flushRelay a now flushedAt relay
      (c.update a now relay (IngestCheckpoint.setRelayStatus now state lastError))

def flushAll (upserts : String → Except String Unit) (flushedAt : ℤ) (c : Checkpoints) :
    Checkpoints :=
  let written (relay : String) : Option IngestCheckpoint :=
    match c.byRelay relay, upserts relay with
    | some state, .ok _ => if state.dirty then some state.checkpoint else none
    | _, _ => none
  { rows := fun relay => (written relay).or (c.rows relay)
    byRelay := fun relay => (c.byRelay relay).map fun state =>
      if (written relay).isSome then { state with lastFlush := some flushedAt, dirty := false }
      else state }

def restart (c : Checkpoints) : Checkpoints := { c with byRelay := fun _ => none }

def getIngestCheckpoint (c : Checkpoints) (relayURL : String) :
    Except String (Option IngestCheckpoint) :=
  if trimSpace relayURL = "" then .error "relay url, mode, and filter group are required"
  else .ok (c.rows (trimSpace relayURL))

def storedSince (c : Checkpoints) (relay : String) : Option ℤ := (c.rows relay).bind (·.since)

def resumeFrom (c : Checkpoints) (relay : String) : Option ℤ :=
  match c.byRelay relay with
  | some state => if state.dirty then state.checkpoint.since else c.storedSince relay
  | none => c.storedSince relay

def workingSince (c : Checkpoints) (a : CheckpointAnswers) (relay : String) : Option ℤ :=
  match c.byRelay relay with
  | some state => state.checkpoint.since
  | none => if a.loads then c.storedSince relay else none

/-- A checkpoint that is not dirty has the stored `since`, or none when its row could not be
loaded. -/
def Mirrored (c : Checkpoints) : Prop :=
  ∀ relay state, c.byRelay relay = some state → state.dirty = false →
    state.checkpoint.since = none ∨ state.checkpoint.since = c.storedSince relay

structure Flushed (c d : Checkpoints) : Prop where
  resumeFrom_eq : ∀ relay, d.resumeFrom relay = c.resumeFrom relay
  stored_cases : ∀ relay,
    d.storedSince relay = c.storedSince relay ∨ d.storedSince relay = c.resumeFrom relay
  mirrored : c.Mirrored → d.Mirrored

variable {c d : Checkpoints} {a : CheckpointAnswers} {now flushedAt : ℤ} {relay relayURL ρ : String}

@[simp] theorem byRelay_put_self (state : RelayCheckpointState) :
    (c.put relay state).byRelay relay = some state := update_self ..

theorem since_ensureRelayStateLocked (now : ℤ) :
    (c.ensureRelayStateLocked a now relay).checkpoint.since = c.workingSince a relay := by
  unfold ensureRelayStateLocked workingSince storedSince
  cases c.byRelay relay with
  | some state => rfl
  | none =>
    simp only [Option.getD_none, ensureRelayState]
    split_ifs
    · cases c.rows relay with
      | none => rfl
      | some row => rfl
    · rfl

theorem workingSince_cases (h : c.Mirrored) (a : CheckpointAnswers) (relay : String) :
    c.workingSince a relay = none ∨ c.workingSince a relay = c.resumeFrom relay := by
  unfold workingSince resumeFrom
  cases hm : c.byRelay relay with
  | none =>
    cases a.loads with
    | true => exact .inr rfl
    | false => exact .inl rfl
  | some state =>
    cases hd : state.dirty with
    | true => simp [hd]
    | false => simpa [hd] using h relay state hm hd

theorem flushed_refl (c : Checkpoints) : Flushed c c :=
  ⟨fun _ => rfl, fun _ => .inl rfl, id⟩

/-- `Flushed` at one relay. -/
def FlushedAt (c d : Checkpoints) (ρ : String) : Prop :=
  d.resumeFrom ρ = c.resumeFrom ρ ∧
    (d.storedSince ρ = c.storedSince ρ ∨ d.storedSince ρ = c.resumeFrom ρ) ∧
    ((∀ state, c.byRelay ρ = some state → state.dirty = false →
        state.checkpoint.since = none ∨ state.checkpoint.since = c.storedSince ρ) →
      ∀ state, d.byRelay ρ = some state → state.dirty = false →
        state.checkpoint.since = none ∨ state.checkpoint.since = d.storedSince ρ)

theorem flushed_of_forall (h : ∀ ρ, FlushedAt c d ρ) : Flushed c d :=
  ⟨fun ρ => (h ρ).1, fun ρ => (h ρ).2.1, fun hm ρ => (h ρ).2.2 (hm ρ)⟩

theorem flushedAt_of_eq (hb : d.byRelay ρ = c.byRelay ρ) (hr : d.rows ρ = c.rows ρ) :
    FlushedAt c d ρ := by
  simp only [FlushedAt, resumeFrom, storedSince, hb, hr, true_or, imp_self, and_self]

theorem flushed_put_ensure (c : Checkpoints) (a : CheckpointAnswers) (now : ℤ) (relay : String) :
    Flushed c (c.put relay (c.ensureRelayStateLocked a now relay)) := by
  refine flushed_of_forall fun ρ => ?_
  by_cases he : ρ = relay
  · subst he
    cases hb : c.byRelay ρ with
    | none =>
      have hsince : (c.ensureRelayStateLocked a now ρ).checkpoint.since = _ :=
        since_ensureRelayStateLocked now
      simp only [workingSince, hb] at hsince
      refine ⟨by simp [resumeFrom, ensureRelayStateLocked, hb, storedSince, put], .inl rfl, ?_⟩
      simp only [byRelay_put_self, Option.some.injEq, forall_eq', hsince]
      intro _ _
      split_ifs
      · exact .inr rfl
      · exact .inl rfl
    | some state => exact flushedAt_of_eq (by simp [ensureRelayStateLocked, hb]) rfl
  · exact flushedAt_of_eq (update_of_ne he ..) rfl

theorem flushed_write {state : RelayCheckpointState} (hs : c.byRelay relay = some state)
    (hd : state.dirty = true) (flushedAt : ℤ) :
    Flushed c ((c.upsertRow relay state.checkpoint).put relay
      { state with lastFlush := some flushedAt, dirty := false }) := by
  refine flushed_of_forall fun ρ => ?_
  by_cases he : ρ = relay
  · subst he
    simp [FlushedAt, resumeFrom, put, upsertRow, storedSince, hs, hd]
  · exact flushedAt_of_eq (update_of_ne he ..) (update_of_ne he ..)

theorem Flushed.trans {e : Checkpoints} (h : Flushed c d) (h' : Flushed d e) : Flushed c e := by
  refine ⟨fun ρ => (h'.resumeFrom_eq ρ).trans (h.resumeFrom_eq ρ), fun ρ => ?_,
    fun hm => h'.mirrored (h.mirrored hm)⟩
  rcases h'.stored_cases ρ with he | he
  · rw [he]
    exact h.stored_cases ρ
  · exact .inr (he.trans (h.resumeFrom_eq ρ))

theorem flushed_flushRelay : Flushed c (flushRelay a now flushedAt relayURL c).2 := by
  unfold flushRelay
  dsimp only
  split_ifs with hblank hd
  · exact flushed_refl c
  · cases a.upsert with
    | error e => exact flushed_put_ensure c a now _
    | ok u =>
      have hopen := flushed_put_ensure c a now (trimSpace relayURL)
      have h := hopen.trans (flushed_write (byRelay_put_self _) hd flushedAt)
      simpa [put, upsertRow] using h
  · exact flushed_put_ensure c a now _

theorem resumeFrom_update_self (f : IngestCheckpoint → IngestCheckpoint) :
    (c.update a now relay f).resumeFrom relay =
      (f (c.ensureRelayStateLocked a now relay).checkpoint).since := by
  simp [resumeFrom, update, put]

theorem resumeFrom_update_of_ne (h : ρ ≠ relay) (f : IngestCheckpoint → IngestCheckpoint) :
    (c.update a now relay f).resumeFrom ρ = c.resumeFrom ρ := by
  simp only [resumeFrom, update, put, storedSince, update_of_ne h]

theorem mirrored_update (h : c.Mirrored) (f : IngestCheckpoint → IngestCheckpoint) :
    (c.update a now relay f).Mirrored := by
  intro ρ state hs hd
  by_cases he : ρ = relay
  · subst he
    simp only [update, put, update_self, Option.some.injEq] at hs
    subst hs
    cases hd
  · simp only [update, put, update_of_ne he] at hs
    exact h ρ state hs hd

theorem storedSince_update (ρ : String) (f : IngestCheckpoint → IngestCheckpoint) :
    (c.update a now relay f).storedSince ρ = c.storedSince ρ := rfl

theorem flushed_markEventProcessed (c : Checkpoints) (flushEvery : ℤ) (a : CheckpointAnswers)
    (now flushedAt : ℤ) (eventID : String) (createdAt : ℤ) (h : trimSpace relayURL ≠ "") :
    Flushed (c.update a now (trimSpace relayURL)
        (IngestCheckpoint.markEventProcessed now eventID createdAt))
      (markEventProcessed flushEvery a now flushedAt relayURL eventID createdAt c).2 := by
  simp only [markEventProcessed, if_neg h]
  split_ifs
  · exact flushed_flushRelay
  · exact flushed_refl _

theorem resumeFrom_markEventProcessed (c : Checkpoints) (flushEvery : ℤ) (a : CheckpointAnswers)
    (now flushedAt : ℤ) (eventID : String) (createdAt : ℤ) (h : trimSpace relayURL ≠ "")
    (relay : String) :
    (markEventProcessed flushEvery a now flushedAt relayURL eventID createdAt c).2.resumeFrom
        relay =
      if relay = trimSpace relayURL then some (raiseSince (c.workingSince a relay) createdAt)
      else c.resumeFrom relay := by
  rw [(c.flushed_markEventProcessed flushEvery a now flushedAt eventID createdAt h).resumeFrom_eq]
  split_ifs with he
  · rw [he, resumeFrom_update_self, ← since_ensureRelayStateLocked now]
    rfl
  · exact resumeFrom_update_of_ne he _

theorem setRelayStatus_blank (state : RelayState) (lastError : String)
    (h : trimSpace relayURL = "") :
    (setRelayStatus a now flushedAt relayURL state lastError c).2 = c := by
  simp [setRelayStatus, h]

theorem flushed_setRelayStatus (c : Checkpoints) (a : CheckpointAnswers) (now flushedAt : ℤ)
    (state : RelayState) (lastError : String) (h : trimSpace relayURL ≠ "") :
    Flushed (c.update a now (trimSpace relayURL)
        (IngestCheckpoint.setRelayStatus now state lastError))
      (setRelayStatus a now flushedAt relayURL state lastError c).2 := by
  simp only [setRelayStatus, if_neg h]
  exact flushed_flushRelay

theorem resumeFrom_setRelayStatus (c : Checkpoints) (a : CheckpointAnswers) (now flushedAt : ℤ)
    (state : RelayState) (lastError : String) (h : trimSpace relayURL ≠ "") (relay : String) :
    (setRelayStatus a now flushedAt relayURL state lastError c).2.resumeFrom relay =
      if relay = trimSpace relayURL then c.workingSince a relay else c.resumeFrom relay := by
  rw [(c.flushed_setRelayStatus a now flushedAt state lastError h).resumeFrom_eq]
  split_ifs with he
  · rw [he, resumeFrom_update_self, ← since_ensureRelayStateLocked now]
    rfl
  · exact resumeFrom_update_of_ne he _

theorem flushed_flushAll (upserts : String → Except String Unit) (flushedAt : ℤ) (c : Checkpoints) :
    Flushed c (c.flushAll upserts flushedAt) := by
  refine flushed_of_forall fun ρ => ?_
  cases hb : c.byRelay ρ with
  | none => exact flushedAt_of_eq (by simp [flushAll, hb]) (by simp [flushAll, hb])
  | some state =>
    cases hu : upserts ρ with
    | error e => exact flushedAt_of_eq (by simp [flushAll, hb, hu]) (by simp [flushAll, hb, hu])
    | ok u =>
      cases hd : state.dirty with
      | true => simp [FlushedAt, resumeFrom, flushAll, storedSince, hb, hu, hd]
      | false =>
        exact flushedAt_of_eq (by simp [flushAll, hb, hu, hd]) (by simp [flushAll, hb, hu, hd])

theorem storedSince_flushAll (flushedAt : ℤ) (c : Checkpoints) (relay : String) :
    (c.flushAll (fun _ => .ok ()) flushedAt).storedSince relay = c.resumeFrom relay := by
  cases hb : c.byRelay relay with
  | none => simp [resumeFrom, flushAll, storedSince, hb]
  | some state =>
    cases hd : state.dirty with
    | true => simp [resumeFrom, flushAll, storedSince, hb, hd]
    | false => simp [resumeFrom, flushAll, storedSince, hb, hd]

theorem mirrored_restart (c : Checkpoints) : c.restart.Mirrored :=
  fun _ _ hs => absurd hs (by simp [restart])

theorem resumeFrom_restart (c : Checkpoints) (relay : String) :
    c.restart.resumeFrom relay = c.storedSince relay := rfl

end Checkpoints

structure ResumeSinceResolver where
  bootstrapLookbackSeconds : ℤ
  overlapSeconds : ℤ
  lookback_pos : 0 < bootstrapLookbackSeconds
  overlap_nonneg : 0 ≤ overlapSeconds

inductive ResumeStrategy where
  | checkpoint
  | bootstrapLookback
  deriving DecidableEq

structure SinceResolution where
  since : ℤ
  strategy : ResumeStrategy
  checkpointSince : Option ℤ
  bootstrapLookbackSeconds : ℤ
  overlapSeconds : ℤ
  deriving DecidableEq

namespace ResumeSinceResolver

def resolveSince (r : ResumeSinceResolver) (load : Except String (Option IngestCheckpoint))
    (now : ℤ) : Except String SinceResolution :=
  match load with
  | .error e => .error ("load live checkpoint: " ++ e)
  | .ok checkpoint =>
    match checkpoint.bind (·.since) with
    | some stored =>
      let since := stored - r.overlapSeconds
      .ok { since := if since < 0 then 0 else since
            strategy := .checkpoint
            checkpointSince := some stored
            bootstrapLookbackSeconds := r.bootstrapLookbackSeconds
            overlapSeconds := r.overlapSeconds }
    | none =>
      let since := now - r.bootstrapLookbackSeconds
      .ok { since := if since < 0 then 0 else since
            strategy := .bootstrapLookback
            checkpointSince := none
            bootstrapLookbackSeconds := r.bootstrapLookbackSeconds
            overlapSeconds := r.overlapSeconds }

/-- A subscription that resumes from the stored `since` at time `now` covers time `t`. -/
def Covers (r : ResumeSinceResolver) (stored : Option ℤ) (now t : ℤ) : Prop :=
  match stored with
  | some v => v ≤ t + r.overlapSeconds
  | none => now ≤ t + r.bootstrapLookbackSeconds

instance (r : ResumeSinceResolver) (stored : Option ℤ) (now t : ℤ) :
    Decidable (r.Covers stored now t) := by
  unfold Covers
  cases stored with
  | some v => exact inferInstance
  | none => exact inferInstance

theorem resolveSince_le_iff (r : ResumeSinceResolver) {c : Checkpoints} {relayURL : String}
    (h : trimSpace relayURL ≠ "") (now : ℤ) {t : ℤ} (ht : 0 ≤ t) :
    (∃ res, r.resolveSince (c.getIngestCheckpoint relayURL) now = .ok res ∧ res.since ≤ t) ↔
      r.Covers (c.storedSince (trimSpace relayURL)) now t := by
  simp only [Checkpoints.getIngestCheckpoint, if_neg h, resolveSince, Checkpoints.storedSince,
    Covers]
  cases (c.rows (trimSpace relayURL)).bind (·.since) with
  | none =>
    simp only [Except.ok.injEq, exists_eq_left']
    split_ifs
    · omega
    · omega
  | some v =>
    simp only [Except.ok.injEq, exists_eq_left']
    split_ifs
    · omega
    · omega

theorem covers_none_self (r : ResumeSinceResolver) (now : ℤ) : r.Covers none now now := by
  have := r.lookback_pos
  show now ≤ now + r.bootstrapLookbackSeconds
  omega

end ResumeSinceResolver
end NostrMash.Live
