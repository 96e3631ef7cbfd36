import NostrMash.Processor

/-!
# Resuming the live subscription after a restart

The ingestor handles payloads, reports relay states, flushes its checkpoints and restarts, while
the clock moves on. A restart loses the memory of the process, with a flush before it or without
one.
-/

namespace NostrMash.Live
open Machine Nostr Checkpoints

set_option maxRecDepth 1000

structure LiveState where
  ingest : Ingest
  clock : ℕ

inductive LiveAction where
  | handle (relayURL : String) (payload : Payload) (a : Answers)
  | setRelayStatus (relayURL : String) (state : RelayState) (lastError : String)
      (after flushedAfter : ℕ) (a : CheckpointAnswers)
  | flushAll (after : ℕ) (upserts : String → Except String Unit)
  | restart (after : ℕ)
  /-- Events deleted by retention or moderation. -/
  | purge (after : ℕ) (purged : String → Bool)

namespace LiveState

def now (s : LiveState) : ℤ := unix s.clock

def init (w : Wiring) (clock : ℕ) : LiveState where
  ingest :=
    { dedup := DedupCache.new w.dedupSize
      counters := ⟨0, 0, 0, 0⟩
      checkpoints := { byRelay := fun _ => none, rows := fun _ => none }
      store := EventStore.empty
      invalidEvents := []
      observed := []
      attempts := [] }
  clock := clock

def restart (w : Wiring) (s : LiveState) : LiveState :=
  { s with ingest := { s.ingest with
    dedup := DedupCache.new w.dedupSize
    counters := ⟨0, 0, 0, 0⟩
    checkpoints := s.ingest.checkpoints.restart } }

def withCheckpoints (s : LiveState) (c : Checkpoints) (clock : ℕ) : LiveState :=
  { ingest := { s.ingest with checkpoints := c }, clock := clock }

def shutdown (w : Wiring) (flushed : Bool) (s : LiveState) : LiveState :=
  if flushed then
    (s.withCheckpoints (s.ingest.checkpoints.flushAll (fun _ => .ok ()) s.clock) s.clock).restart w
  else s.restart w

def resolveSince (r : ResumeSinceResolver) (relayURL : String) (s : LiveState) :
    Except String SinceResolution :=
  r.resolveSince (s.ingest.checkpoints.getIngestCheckpoint relayURL) s.now

end LiveState

def LiveAction.endsAt (clock : ℕ) : LiveAction → ℕ
  | .handle _ _ a => a.flushedAt clock
  | .setRelayStatus _ _ _ after flushedAfter _ => clock + after + flushedAfter
  | .flushAll after _ => clock + after
  | .restart after => clock + after
  | .purge after _ => clock + after

def liveNext (w : Wiring) (s : LiveState) (action : LiveAction) : LiveState :=
  let clock := action.endsAt s.clock
  match action with
  | .handle relayURL payload a =>
    { ingest := (handle w a s.clock relayURL payload s.ingest).2, clock := clock }
  | .setRelayStatus relayURL state lastError after flushedAfter a =>
    s.withCheckpoints (s.ingest.checkpoints.setRelayStatus a (s.clock + after : ℕ)
      (s.clock + after + flushedAfter : ℕ) relayURL state lastError).2 clock
  | .flushAll _ upserts => s.withCheckpoints (s.ingest.checkpoints.flushAll upserts clock) clock
  | .restart _ => { s.restart w with clock := clock }
  | .purge _ purged =>
    { ingest := { s.ingest with store := s.ingest.store.delete purged }, clock := clock }

def liveStep (w : Wiring) (s : LiveState) (action : LiveAction) : Option LiveState :=
  some (liveNext w s action)

section
variable (w : Wiring) (r : ResumeSinceResolver)

/-- After a restart the resolver answers for every relay with a time that is not in the future. -/
def ResumesInPast (s : LiveState) : Prop :=
  ∀ flushed relayURL, trimSpace relayURL ≠ "" →
    ∃ res, (s.shutdown w flushed).resolveSince r relayURL = .ok res ∧ res.since ≤ s.now

/-- The call records no progress at an event dated later than the overlap after its end. -/
def RecordsNoFuture (s : LiveState) (action : LiveAction) : Prop :=
  match action with
  | .handle relayURL payload a =>
    ∀ eventID createdAt,
      progress w a s.clock relayURL payload s.ingest = some (eventID, createdAt) →
      createdAt ≤ unix (action.endsAt s.clock) + r.overlapSeconds
  | _ => True

end

section
variable {w : Wiring} {r : ResumeSinceResolver} {c d : Checkpoints} {s : LiveState} {a : Answers}
  {payload : Payload} {relay relayURL : String} {createdAt t : ℤ}

def SinceLE (t : ℤ) (c : Checkpoints) (relay : String) : Prop :=
  ∀ v, (c.storedSince relay = some v ∨ c.resumeFrom relay = some v) → v ≤ t

def NotAfter (t : ℤ) (c : Checkpoints) : Prop :=
  ∀ relayURL, trimSpace relayURL ≠ "" → SinceLE t c (trimSpace relayURL)

theorem unix_nonneg (time : ℕ) : 0 ≤ unix time := by
  unfold unix
  omega

theorem unix_mono {a b : ℕ} (h : a ≤ b) : unix a ≤ unix b := by
  unfold unix
  omega

theorem le_endsAt (clock : ℕ) (action : LiveAction) : clock ≤ action.endsAt clock := by
  cases action with
  | handle relayURL payload a =>
    simp only [LiveAction.endsAt, Answers.flushedAt, Answers.markedAt, Answers.seenAt]
    omega
  | setRelayStatus relayURL state lastError after flushedAfter a =>
    simp only [LiveAction.endsAt]
    omega
  | flushAll after upserts => exact Nat.le_add_right clock after
  | restart after => exact Nat.le_add_right clock after
  | purge after purged => exact Nat.le_add_right clock after

theorem sinceLE_flushed (h : Checkpoints.Flushed c d) (hc : SinceLE t c relay) :
    SinceLE t d relay := by
  intro v hv
  rw [h.resumeFrom_eq] at hv
  rcases hv with hv | hv
  · rcases h.stored_cases relay with he | he
    · exact hc v (.inl (he ▸ hv))
    · exact hc v (.inr (he ▸ hv))
  · exact hc v (.inr hv)

theorem covers_self_iff (r : ResumeSinceResolver) (stored : Option ℤ) (now : ℤ) :
    r.Covers stored now now ↔ ∀ v, stored = some v → v ≤ now + r.overlapSeconds := by
  cases stored with
  | none => simp [r.covers_none_self]
  | some v => simp [ResumeSinceResolver.Covers]

theorem storedSince_shutdown (flushed : Bool) (relay : String) :
    (s.shutdown w flushed).ingest.checkpoints.storedSince relay =
      if flushed then s.ingest.checkpoints.resumeFrom relay
      else s.ingest.checkpoints.storedSince relay := by
  cases flushed with
  | true => exact storedSince_flushAll s.clock _ relay
  | false => rfl

theorem clock_shutdown (flushed : Bool) : (s.shutdown w flushed).clock = s.clock := by
  cases flushed with
  | true => rfl
  | false => rfl

theorem resumesInPast_iff :
    ResumesInPast w r s ↔ NotAfter (s.now + r.overlapSeconds) s.ingest.checkpoints := by
  have hcovers : ∀ flushed relayURL, trimSpace relayURL ≠ "" →
      ((∃ res, (s.shutdown w flushed).resolveSince r relayURL = .ok res ∧ res.since ≤ s.now) ↔
        ∀ v, (s.shutdown w flushed).ingest.checkpoints.storedSince (trimSpace relayURL) = some v →
          v ≤ s.now + r.overlapSeconds) := by
    intro flushed relayURL hne
    have hnow : 0 ≤ s.now := unix_nonneg s.clock
    rw [← covers_self_iff, ← r.resolveSince_le_iff hne s.now hnow]
    simp only [LiveState.resolveSince, LiveState.now, clock_shutdown]
  constructor
  · intro h relayURL hne v hv
    rcases hv with hv | hv
    · exact (hcovers false relayURL hne).mp (h false relayURL hne) v
        (by rw [storedSince_shutdown]; exact hv)
    · exact (hcovers true relayURL hne).mp (h true relayURL hne) v
        (by rw [storedSince_shutdown]; exact hv)
  · intro h flushed relayURL hne
    refine (hcovers flushed relayURL hne).mpr fun v hv => h relayURL hne v ?_
    rw [storedSince_shutdown] at hv
    cases flushed with
    | true => exact .inr hv
    | false => exact .inl hv

theorem le_raiseSince (since : Option ℤ) (createdAt : ℤ) :
    createdAt ≤ raiseSince since createdAt := by
  cases since with
  | none =>
    rw [raiseSince_none]
    exact le_max_left ..
  | some v =>
    rw [raiseSince_some]
    exact (le_max_left createdAt 0).trans (le_max_left ..)

theorem raiseSince_le {since : Option ℤ} (ht : 0 ≤ t) (hc : createdAt ≤ t)
    (hs : ∀ v, since = some v → v ≤ t) : raiseSince since createdAt ≤ t := by
  cases since with
  | none =>
    rw [raiseSince_none]
    exact max_le hc ht
  | some v =>
    rw [raiseSince_some]
    exact max_le (max_le hc ht) (hs v rfl)

theorem relay_of_progress {clock : ℕ} {i : Ingest} {p : String × ℤ}
    (h : progress w a clock relayURL payload i = some p) :
    trimSpace relayURL ≠ "" := by
  unfold progress counted at h
  split_ifs at h with hcond
  simpa using (Bool.and_eq_true_iff.mp hcond).2

theorem sinceLE_update {ρ : String} (hc : SinceLE t c ρ) (a : CheckpointAnswers) (now : ℤ)
    {f : IngestCheckpoint → IngestCheckpoint}
    (hf : ρ = relay → ∀ v, (c.update a now relay f).resumeFrom relay = some v → v ≤ t) :
    SinceLE t (c.update a now relay f) ρ := by
  intro v hv
  rw [storedSince_update] at hv
  rcases hv with hv | hv
  · exact hc v (.inl hv)
  · by_cases he : ρ = relay
    · exact hf he v (he ▸ hv)
    · exact hc v (.inr (resumeFrom_update_of_ne he f ▸ hv))

theorem workingSince_le (hm : c.Mirrored) (hc : SinceLE t c relay) (a : CheckpointAnswers) {v : ℤ}
    (hv : c.workingSince a relay = some v) : v ≤ t := by
  rcases workingSince_cases hm a relay with he | he
  · rw [he] at hv
    cases hv
  · exact hc v (.inr (he ▸ hv))

theorem sinceLE_mark (ht : 0 ≤ t) (hm : c.Mirrored) (hc : SinceLE t c relay) (flushEvery : ℤ)
    (a : CheckpointAnswers) (now flushedAt : ℤ) (hne : trimSpace relayURL ≠ "") (eventID : String)
    (hcreated : relay = trimSpace relayURL → createdAt ≤ t) :
    SinceLE t (c.markEventProcessed flushEvery a now flushedAt relayURL eventID createdAt).2
      relay := by
  refine sinceLE_flushed (c.flushed_markEventProcessed flushEvery a now flushedAt eventID createdAt
    hne) (sinceLE_update hc a now fun he v hv => ?_)
  subst he
  rw [resumeFrom_update_self] at hv
  cases hv
  refine raiseSince_le ht (hcreated rfl) fun v hv => workingSince_le hm hc a ?_
  rw [← since_ensureRelayStateLocked now]
  exact hv

theorem sinceLE_setRelayStatus (hm : c.Mirrored) (hc : SinceLE t c relay) (a : CheckpointAnswers)
    (now flushedAt : ℤ) (relayURL : String) (state : RelayState) (lastError : String) :
    SinceLE t (c.setRelayStatus a now flushedAt relayURL state lastError).2 relay := by
  by_cases hne : trimSpace relayURL = ""
  · rw [setRelayStatus_blank state lastError hne]
    exact hc
  · refine sinceLE_flushed (c.flushed_setRelayStatus a now flushedAt state lastError hne)
      (sinceLE_update hc a now fun he v hv => ?_)
    subst he
    rw [resumeFrom_update_self, IngestCheckpoint.since_setRelayStatus,
      since_ensureRelayStateLocked] at hv
    exact workingSince_le hm hc a hv

theorem sinceLE_restart (hc : SinceLE t c relay) :
    SinceLE t c.restart relay := by
  intro v hv
  rw [resumeFrom_restart] at hv
  exact hc v (.inl (hv.elim id id))

theorem mirrored_next (hm : s.ingest.checkpoints.Mirrored) (action : LiveAction) :
    (liveNext w s action).ingest.checkpoints.Mirrored := by
  cases action with
  | handle relayURL payload a =>
    simp only [liveNext, (handle_effects w a s.clock relayURL payload s.ingest).1]
    cases hp : progress w a s.clock relayURL payload s.ingest with
    | none => exact hm
    | some p =>
      have hne : trimSpace relayURL ≠ "" := relay_of_progress hp
      exact (s.ingest.checkpoints.flushed_markEventProcessed w.flushEvery a.checkpoint _ _ p.1 p.2
        hne).mirrored (mirrored_update hm _)
  | setRelayStatus relayURL state lastError after flushedAfter a =>
    simp only [liveNext, LiveState.withCheckpoints]
    by_cases hne : trimSpace relayURL = ""
    · rw [setRelayStatus_blank state lastError hne]
      exact hm
    · exact (s.ingest.checkpoints.flushed_setRelayStatus a _ _ state lastError hne).mirrored
        (mirrored_update hm _)
  | flushAll after upserts => exact (flushed_flushAll upserts _ _).mirrored hm
  | restart after => exact mirrored_restart _
  | purge after purged => exact hm

theorem now_next (action : LiveAction) :
    (liveNext w s action).now = unix (action.endsAt s.clock) := by
  cases action with
  | handle relayURL payload a => rfl
  | setRelayStatus relayURL state lastError after flushedAfter a => rfl
  | flushAll after upserts => rfl
  | restart after => rfl
  | purge after purged => rfl

theorem sinceLE_next (ht : 0 ≤ t) (hm : s.ingest.checkpoints.Mirrored)
    (hc : SinceLE t s.ingest.checkpoints relay) (action : LiveAction)
    (hrecorded : ∀ relayURL payload a, action = .handle relayURL payload a → ∀ eventID createdAt,
        progress w a s.clock relayURL payload s.ingest = some (eventID, createdAt) →
          relay = trimSpace relayURL → createdAt ≤ t) :
    SinceLE t (liveNext w s action).ingest.checkpoints relay := by
  cases action with
  | handle relayURL payload a =>
    simp only [liveNext, (handle_effects w a s.clock relayURL payload s.ingest).1]
    cases hp : progress w a s.clock relayURL payload s.ingest with
    | none => exact hc
    | some p =>
      exact sinceLE_mark ht hm hc w.flushEvery a.checkpoint _ _ (relay_of_progress hp) p.1
        (hrecorded relayURL payload a rfl p.1 p.2 hp)
  | setRelayStatus relayURL state lastError after flushedAfter a =>
    simp only [liveNext, LiveState.withCheckpoints]
    exact sinceLE_setRelayStatus hm hc a _ _ relayURL state lastError
  | flushAll after upserts => exact sinceLE_flushed (flushed_flushAll upserts _ _) hc
  | restart after => exact sinceLE_restart hc
  | purge after purged => exact hc

theorem resumeFrom_handle {eventID : String}
    (hp : progress w a s.clock relayURL payload s.ingest = some (eventID, createdAt))
    (relay : String) :
    (liveNext w s (.handle relayURL payload a)).ingest.checkpoints.resumeFrom relay =
      if relay = trimSpace relayURL then
        some (raiseSince (s.ingest.checkpoints.workingSince a.checkpoint relay) createdAt)
      else s.ingest.checkpoints.resumeFrom relay := by
  simp only [liveNext, (handle_effects w a s.clock relayURL payload s.ingest).1, hp]
  exact s.ingest.checkpoints.resumeFrom_markEventProcessed w.flushEvery a.checkpoint _ _ eventID
    createdAt (relay_of_progress hp) relay

theorem notAfter_next_iff (hm : s.ingest.checkpoints.Mirrored) (action : LiveAction)
    (hc : NotAfter (s.now + r.overlapSeconds) s.ingest.checkpoints) :
    NotAfter ((liveNext w s action).now + r.overlapSeconds)
        (liveNext w s action).ingest.checkpoints ↔ RecordsNoFuture w r s action := by
  have hle : s.now + r.overlapSeconds ≤ unix (action.endsAt s.clock) + r.overlapSeconds := by
    have := unix_mono (le_endsAt s.clock action)
    unfold LiveState.now
    omega
  rw [now_next]
  constructor
  · intro h
    cases action with
    | handle relayURL payload a =>
      intro eventID createdAt hp
      have hmarked := resumeFrom_handle hp (trimSpace relayURL)
      rw [if_pos rfl] at hmarked
      exact (le_raiseSince _ createdAt).trans (h relayURL (relay_of_progress hp) _ (.inr hmarked))
    | setRelayStatus relayURL state lastError after flushedAfter a => trivial
    | flushAll after upserts => trivial
    | restart after => trivial
    | purge after purged => trivial
  · intro hg relayURL hne
    have hnonneg : 0 ≤ unix (action.endsAt s.clock) + r.overlapSeconds :=
      add_nonneg (unix_nonneg _) r.overlap_nonneg
    refine sinceLE_next hnonneg hm (fun v hv => (hc relayURL hne v hv).trans hle) action ?_
    rintro relayURL' payload a rfl eventID createdAt hp -
    exact hg eventID createdAt hp

theorem mirrored_init (w : Wiring) (clock : ℕ) :
    (LiveState.init w clock).ingest.checkpoints.Mirrored :=
  mirrored_restart { byRelay := fun _ => none, rows := fun _ => none }

/-- Throughout a run a restart resumes in the past, exactly when every call of the run records
progress only at events dated at most the overlap after the clock. -/
theorem resumesInPast_iff_records_no_future (w : Wiring) (r : ResumeSinceResolver) (clock : ℕ)
    (as : List LiveAction) : Always (liveStep w) (ResumesInPast w r) (LiveState.init w clock) as ↔
      Guarded (liveStep w) (RecordsNoFuture w r) (LiveState.init w clock) as := by
  apply always_iff_guarded (J := fun s => s.ingest.checkpoints.Mirrored)
  · rintro s action t hm ⟨⟩
    exact mirrored_next hm action
  · rintro s action t hm hp ⟨⟩
    rw [resumesInPast_iff] at hp ⊢
    exact notAfter_next_iff hm action hp
  · rintro s action hm hp ⟨⟩
  · exact mirrored_init w clock
  · exact resumesInPast_iff.mpr fun _ _ _ hv => hv.elim nofun nofun

end

structure SignedNote where
  createdAt : ℤ
  id : String
  sig : String

def notePubkey : String := "f9308a019258c31049344f85f89d5229b531c845836f99b08601f113bce036f9"

def firstNote : SignedNote :=
  { createdAt := 1700000000
    id := "7508deae5246ea55ee4723d9488e2f2fb77179f635cc7548e6f7be588ab172bb"
    sig := "17a261b1573c7e4a425f3ab5ad18484450994f7fbdc84f871db5bc4993e148dc" ++
      "6a6348e3d78facbe29d875ba2c3436b25a4c911380152b94639606ee4dd3d678" }

def laterNote : SignedNote :=
  { createdAt := 1700003600
    id := "ff09b8165c8cbb220bc9ff20c379098cb4d37c7c2611074534ef335f6606da68"
    sig := "d69a5c4ea7ee7f765a5894749edb006611064028659c35db292bef5c3146870c" ++
      "d041c232d119b7cf935e21c3460aeba158ed590f421fa8753a4fbf7a877b38d4" }

def futureNote : SignedNote :=
  { createdAt := 4102444800
    id := "8506d9bd22dd40a2af2ddad066f0010ea766678fe9e2c3eb9c67a2c0b87fdd0c"
    sig := "c3f14efd4f93a01e6ef1a019e987881311b8496318834db7fec36f9db7ad8d73" ++
      "00ca014c64741e10e50ca36974c58e54498e43c8c4dcffa934026304767a03a6" }

def signedNotes : List SignedNote := [firstNote, laterNote, futureNote]

def noteCrypto : Crypto where
  sha256 text := ((signedNotes.find? fun note =>
    marshalCanonical notePubkey note.createdAt 1 [] "gm" = text).map (·.id)).getD ""
  parsePubKey pubkey := pubkey = notePubkey
  parseSignature sig := signedNotes.any fun note => note.sig = sig
  verify sig id pubkey :=
    pubkey = notePubkey && signedNotes.any fun note => note.sig = sig && note.id = id

def SignedNote.payload (note : SignedNote) : Payload :=
  let doc : Json := .obj [("id", .str note.id), ("pubkey", .str notePubkey),
    ("created_at", .int note.createdAt), ("kind", .int 1), ("tags", .arr []),
    ("content", .str "gm"), ("sig", .str note.sig)]
  { size := 344, json := some doc, trimmed := some doc, trimmed_of_json := fun _ h => h }

def plainWiring : Wiring :=
  { crypto := noteCrypto, validateOpts := ⟨0, 0⟩, checkpointWriter := true, blockedAuthors := false,
    gateMode := none, dedupSize := 0, flushEvery := 5000000000 }

def defaultResolver : ResumeSinceResolver :=
  { bootstrapLookbackSeconds := 300, overlapSeconds := 60, lookback_pos := by decide,
    overlap_nonneg := by decide }

def calmAnswers : Answers :=
  { seenAfter := 0, markedAfter := 0, flushedAfter := 0, blocked := fun _ => false
    gate :=
      { loaded := false, contains := fun _ => false, eventsExist := fun _ => .ok false,
        replaceableAddressesExist := fun _ => .ok false, relayInfoPubkey := fun _ => none }
    provenanceFault := none, censusFault := none, insertFault := none, invalidFault := none
    checkpoint := { loads := true, upsert := .ok () } }

def relayExample : String := "wss://relay.example"

def afterFutureNote : LiveState :=
  liveNext plainWiring (LiveState.init plainWiring 1700000000000000000)
    (.handle relayExample futureNote.payload calmAnswers)

theorem since_afterFutureNote :
    ((afterFutureNote.shutdown plainWiring true).resolveSince defaultResolver
      relayExample).toOption.map (·.since) = some 4102444740 := by
  decide

/-- After the next restart the subscription starts in the year 2100. -/
theorem future_note_skips_present :
    ∃ s, run (liveStep plainWiring) (LiveState.init plainWiring 1700000000000000000)
        [.handle relayExample futureNote.payload calmAnswers] = some s ∧
      ¬ ResumesInPast plainWiring defaultResolver s := by
  refine ⟨afterFutureNote, by simp [liveStep, afterFutureNote], fun h => ?_⟩
  obtain ⟨res, hres, hle⟩ := h true relayExample (by decide)
  have hsince := since_afterFutureNote
  rw [hres] at hsince
  have hnow : afterFutureNote.now = 1700000000 := by
    rw [afterFutureNote, now_next]
    decide
  have hres' : res.since = 4102444740 := Option.some.inj hsince
  omega

end NostrMash.Live
