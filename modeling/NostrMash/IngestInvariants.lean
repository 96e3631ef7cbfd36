import NostrMash.HandleTables

/-!
# Invariants of the live ingest

A duplicate of a cached event skips validation and the gate. What it writes is still about an event
that passed them, as the author it writes is the cached one. The cache keeps to its capacity.
-/

namespace NostrMash.Live
open Nostr Function List EventStore

variable {w : Wiring} {s : Ingest} {a : Answers} {clock : ℕ} {relayURL id pubkey : String}
  {payload : Payload} {c : DedupCache} {dedup : Option DedupCache} {store : EventStore}
  {P : DedupEntry → Prop}

theorem cached_of_route {probe : DedupProbe} {refreshed : DedupCache}
    (h : route w a clock relayURL payload dedup = .cached probe pubkey refreshed) :
    ∃ c ∈ dedup, probe.id ∈ c.entries ∧ ⟨probe.id, pubkey⟩ ∈ c.order ∧
      refreshed = c.moveToFront ⟨probe.id, pubkey⟩ := by
  unfold route at h
  split at h
  · next hdup =>
    simp only [cachedDuplicate, Option.bind_eq_bind, Option.bind_eq_some_iff] at hdup
    obtain ⟨c, hc, _, _, _, _, hget⟩ := hdup
    split_ifs at hget
    obtain ⟨_, hfound, hget⟩ := Option.bind_eq_some_iff.mp hget
    unfold DedupCache.get at hfound
    split_ifs at hfound with hmem
    obtain ⟨⟨found, _⟩, hd, rfl⟩ := Option.map_eq_some_iff.mp hfound
    cases hget
    cases h
    obtain rfl : found = probe.id := by simpa using find?_some hd
    exact ⟨c, hc, hmem, mem_of_find?_eq_some hd, rfl⟩
  · grind [eventRoute]

theorem dedup_mark (context eventID : String) (createdAt : ℤ) :
    (s.mark w a clock relayURL context eventID createdAt).2.dedup = s.dedup := by
  obtain ⟨_, hc⟩ := mark_snd_eq w a clock relayURL s context eventID createdAt
  rw [hc]

theorem dedup_onSuccess (f : Ingest → Ingest) (r : Except String Unit × Ingest) :
    (onSuccess f r).2.dedup = r.2.dedup ∨ (onSuccess f r).2.dedup = (f r.2).dedup := by
  obtain ⟨_ | _, s⟩ := r
  · exact .inl rfl
  · exact .inr rfl

theorem dedup_remember (e : Event) (inserted : Bool) :
    (s.remember e inserted).dedup = s.dedup.map (·.add e.id e.pubkey) := by
  cases inserted <;> rfl

/-- What a call does to the cache. -/
theorem cache_handle {Q : DedupCache → Prop} (h : ∀ c ∈ s.dedup, Q c)
    (hfront : ∀ c d, Q c → d.id ∈ c.entries → d ∈ c.order → Q (c.moveToFront d))
    (hadd : ∀ c e, Q c → route w a clock relayURL payload s.dedup = .insert e →
      Q (c.add e.id e.pubkey)) :
    ∀ c ∈ (handle w a clock relayURL payload s).2.dedup, Q c := by
  unfold handle
  cases hr : route w a clock relayURL payload s.dedup <;> dsimp only
  case cached probe pubkey refreshed =>
    obtain ⟨c, hc, hid, hmem, rfl⟩ := cached_of_route hr
    have hfresh : ∀ d ∈ some (c.moveToFront ⟨probe.id, pubkey⟩), Q d := by
      rintro _ ⟨⟩
      exact hfront c _ (h c hc) hid hmem
    unfold handleCached
    dsimp only
    split
    · exact hfresh
    · rcases dedup_onSuccess .. with hd | hd <;> rw [hd]
      · rwa [dedup_mark]
      · rwa [Ingest.countDuplicate, dedup_mark]
  case insert e =>
    unfold handleInsert
    split
    · exact h
    · rcases dedup_onSuccess .. with hd | hd <;> rw [hd]
      · rwa [dedup_mark]
      · rw [dedup_remember, dedup_mark]
        simpa [Ingest.observe] using fun c hc => hadd c e (h c hc) hr
  case invalid err =>
    unfold handleInvalid
    cases a.invalidFault <;> exact h
  case census e =>
    cases a.censusFault
    · rwa [dedup_mark]
    · exact h
  all_goals rwa [dedup_mark]

/-- The map and the list of a cache of `n` entries agree, and no more than `n` are kept. -/
structure DedupCache.Sound (n : ℤ) (c : DedupCache) : Prop where
  capacity : c.capacity = n
  positive : 0 < n
  entries : ∀ id, id ∈ c.entries ↔ id ∈ c.order.map (·.id)
  nodup : (c.order.map (·.id)).Nodup
  bounded : c.order.length ≤ n

namespace DedupCache.Sound
variable {n : ℤ} {c : DedupCache} {d : DedupEntry} (h : c.Sound n)
include h

theorem moveToFront (hd : d.id ∈ c.entries) : (c.moveToFront d).Sound n := by
  have hlen : (c.order.filter (·.id ≠ d.id)).length < c.order.length := by
    rw [length_filter_lt_length_iff_exists]
    simpa using (h.entries d.id).mp hd
  have hbounded := h.bounded
  refine ⟨h.capacity, h.positive, fun id => ?_, ?_, ?_⟩
  · have := h.entries id
    have := h.entries d.id
    simp only [DedupCache.moveToFront]
    grind
  · exact nodup_cons.mpr ⟨by simp, h.nodup.sublist (filter_sublist.map _)⟩
  · rw [DedupCache.moveToFront, length_cons]
    omega

theorem evictOldest : c.evictOldest.Sound n ∧ c.evictOldest.order.length < n ∧
    c.evictOldest.entries ⊆ c.entries := by
  obtain ⟨hcapacity, hpos, hentries, hnodup, hbounded⟩ := id h
  unfold DedupCache.evictOldest
  rcases eq_nil_or_concat' c.order with hnil | ⟨l, oldest, hlast⟩
  · simpa [hnil, hpos] using h
  · simp only [hlast, map_append, map_cons, map_nil, length_append, length_singleton, nodup_append]
      at hentries hnodup hbounded
    simp only [hlast, getLast?_concat, dropLast_concat]
    refine ⟨⟨hcapacity, hpos, fun id => ?_, hnodup.1, ?_⟩, ?_, filter_subset_self _⟩
    · grind
    · exact (by omega : (l.length : ℤ) ≤ n)
    · omega

theorem add (id pubkey : String) : (c.add id pubkey).Sound n := by
  have hroom : ∀ c : DedupCache, c.Sound n → c.order.length < n → id ∉ c.entries →
      Sound n { c with entries := id :: c.entries, order := ⟨id, pubkey⟩ :: c.order } := by
    intro c h hlt hid
    refine ⟨h.capacity, h.positive, fun i => ?_, ?_, ?_⟩
    · simp only [mem_cons, map_cons, h.entries]
    · exact nodup_cons.mpr ⟨(h.entries id).not.mp hid, h.nodup⟩
    · rw [length_cons]
      omega
  unfold DedupCache.add
  split_ifs with hblank hid hfull
  · exact h
  · exact h.moveToFront hid
  · obtain ⟨hsound, hlt, hsub⟩ := h.evictOldest
    exact hroom _ hsound hlt fun hmem => hid (hsub hmem)
  · exact hroom c h (by rw [h.capacity] at hfull; omega) hid

end DedupCache.Sound

/-- The cache never outgrows its capacity, and its map and list never disagree. -/
theorem sound_foldl (w : Wiring) (clock : ℕ) (actions : List LiveAction) :
    ∀ c ∈ (actions.foldl (liveNext w) (LiveState.init w clock)).ingest.dedup,
      c.Sound w.dedupSize := by
  have hnew : ∀ c ∈ DedupCache.new w.dedupSize, c.Sound w.dedupSize := by
    unfold DedupCache.new
    split_ifs with hpos
    · simp
    · rintro _ ⟨⟩
      exact ⟨rfl, not_le.mp hpos, by simp, by simp, (not_le.mp hpos).le⟩
  refine foldlRecOn (motive := fun s : LiveState => ∀ c ∈ s.ingest.dedup, c.Sound w.dedupSize)
    actions _ hnew fun s h action _ => ?_
  cases action with
  | handle => exact cache_handle h (fun _ _ h hd _ => h.moveToFront hd) fun _ _ h _ => h.add ..
  | restart => exact hnew
  | _ => exact h

/-- The first note is evicted. -/
theorem sound_laterNote : DedupCache.Sound 1 ⟨1, [laterNote.id], [⟨laterNote.id, notePubkey⟩]⟩ :=
  sound_foldl { plainWiring with dedupSize := 1 } 0 ([firstNote, laterNote].map fun note =>
    .handle relayExample note.payload calmAnswers) _ (by decide +kernel)

/-- An event with this identifier and author was delivered and, on the full path, inserted. -/
def Admitted (w : Wiring) (actions : List LiveAction) (d : DedupEntry) : Prop :=
  ∃ relayURL payload a clock e, .handle relayURL payload a ∈ actions ∧
    route w a clock relayURL payload none = .insert e ∧ d = ⟨e.id, e.pubkey⟩

structure EventStore.Vetted (P : DedupEntry → Prop) (store : EventStore) : Prop where
  stored : ∀ id, ∀ row ∈ store.events id, P ⟨id, row.pubkey⟩
  sighted : ∀ id relay, ∀ row ∈ store.eventRelays id relay, P ⟨id, row.pubkey⟩

def Route.entry : Route → Option DedupEntry
  | .cached probe pubkey _ => some ⟨probe.id, pubkey⟩
  | .insert e => some ⟨e.id, e.pubkey⟩
  | _ => none

theorem order_add : (c.add id pubkey).order ⊆ ⟨id, pubkey⟩ :: c.order := by
  have hevict : c.evictOldest.order ⊆ c.order := by
    unfold DedupCache.evictOldest
    split
    · exact Subset.refl _
    · exact dropLast_subset _
  unfold DedupCache.add DedupCache.moveToFront
  grind

theorem admitted_entry {actions : List LiveAction} (ha : .handle relayURL payload a ∈ actions)
    (h : ∀ c ∈ dedup, ∀ d ∈ c.order, Admitted w actions d) :
    ∀ d ∈ (route w a clock relayURL payload dedup).entry, Admitted w actions d := by
  intro d hd
  cases hr : route w a clock relayURL payload dedup <;> rw [hr] at hd <;> cases hd
  case cached =>
    obtain ⟨c, hc, -, hmem, -⟩ := cached_of_route hr
    exact h c hc _ hmem
  case insert e =>
    refine ⟨relayURL, payload, a, clock, e, ha, ?_, rfl⟩
    unfold route at hr ⊢
    split at hr
    · cases hr
    · exact hr

namespace EventStore.Vetted

variable (h : store.Vetted P)
include h

theorem upsertRelay (relay : String) (seenAt : ℤ) (hP : P ⟨id, pubkey⟩)
    (hs : (store.events id).isSome) : (store.upsertRelay id relay seenAt pubkey hs).Vetted P where
  stored := h.stored
  sighted i r row hrow := by
    have := h.sighted i r row
    simp only [EventStore.upsertRelay, seen, update_apply] at hrow
    grind

theorem upsertEvent {row : EventRow} (hP : P ⟨id, row.pubkey⟩) :
    (store.upsertEvent id row).Vetted P where
  stored i row hrow := by
    have := h.stored i
    simp only [EventStore.upsertEvent, update_apply] at hrow
    cases hold : store.events id <;> grind [Option.elim]
  sighted := h.sighted

theorem storeAfter (rawJSON : Option Json) {r : Route} (hr : ∀ d ∈ r.entry, P d) :
    (r.storeAfter a clock relayURL rawJSON store).Vetted P := by
  cases r
  case cached probe pubkey refreshed =>
    simp only [Route.storeAfter, insertEventRelayProvenance]
    cases a.provenanceFault <;> split_ifs with hid hb hs
    any_goals exact h
    exact h.upsertRelay _ _ (hr _ rfl) hs
  case insert e =>
    have hP := hr _ rfl
    simp only [Route.storeAfter, insertCanonicalEventWithResult]
    cases a.insertFault <;> split_ifs
    any_goals exact h
    exact (h.upsertEvent hP).upsertRelay _ _ hP _
  all_goals exact h

end EventStore.Vetted

structure LiveState.Vetted (P : DedupEntry → Prop) (s : LiveState) : Prop where
  cached : ∀ c ∈ s.ingest.dedup, ∀ d ∈ c.order, P d
  stored : s.ingest.store.Vetted P

/-- Whatever the cache and the tables say of an event, an event with this identifier and this author
was delivered, validated and let through the gate. -/
theorem vetted_foldl (w : Wiring) (clock : ℕ) (actions : List LiveAction) :
    (actions.foldl (liveNext w) (LiveState.init w clock)).Vetted (Admitted w actions) := by
  have hnew : ∀ c ∈ DedupCache.new w.dedupSize, ∀ d ∈ c.order, Admitted w actions d := by
    unfold DedupCache.new
    grind
  refine foldlRecOn actions _ ⟨hnew, ?_, ?_⟩ fun s h action ha => ?_
  · simp [LiveState.init, empty]
  · simp [LiveState.init, empty]
  obtain ⟨hcache, hstore⟩ := h
  cases action with
  | handle relayURL payload a =>
    have hentry := @admitted_entry w a s.clock _ _ _ _ ha hcache
    refine ⟨cache_handle hcache ?_ ?_, ?_⟩
    · grind [DedupCache.moveToFront]
    · intro c e h hr d hd
      rcases mem_cons.mp (order_add hd) with rfl | hd
      · exact hentry _ (by rw [hr]; rfl)
      · exact h d hd
    · rw [liveNext, store_handle]
      exact hstore.storeAfter _ hentry
  | restart => exact ⟨hnew, hstore⟩
  | purge after purged =>
    refine ⟨hcache, ?_, ?_⟩
    · grind [hstore.stored, liveNext, delete]
    · grind [hstore.sighted, liveNext, delete]
  | _ => exact ⟨hcache, hstore⟩

end NostrMash.Live
