import NostrMash.Machine
import NostrMash.Text
import Mathlib.Data.Finset.Basic

/-!
# The trusted authors held in memory

Live ingest keeps the trusted and the blocked authors in memory and reloads them from time to time
with three queries. A refresh whose snapshot query fails leaves everything as it was.
-/

namespace NostrMash.Live
open Machine

def normalized (pubkey : String) : String := toLower (trimSpace pubkey)

def normalizedSet (pubkeys : List String) : Finset String :=
  ((pubkeys.map normalized).filter (· ≠ "")).toFinset

structure AccountStateLoader where
  loadIngestAcceptPubkeys : Except String (List String)
  loadBlockedPubkeys : Except String (List String)

/-- What the queries of one refresh answer. -/
structure TrustedAuthorLoader where
  loadTrustedSnapshotPubkeys : ℤ → Except String (List String)
  accountStates : Option AccountStateLoader

structure TrustedAuthorSet where
  maxHops : ℤ
  members : Finset String
  blocked : Finset String
  loaded : Bool
  lastRefreshAt : Option ℤ
  deriving DecidableEq

namespace TrustedAuthorSet

def new (maxHops : ℤ) : TrustedAuthorSet where
  maxHops := max maxHops 0
  members := ∅
  blocked := ∅
  loaded := false
  lastRefreshAt := none

def isBlocked (t : TrustedAuthorSet) (pubkey : String) : Bool :=
  normalized pubkey ≠ "" && normalized pubkey ∈ t.blocked

def contains (t : TrustedAuthorSet) (pubkey : String) : Bool :=
  normalized pubkey ≠ "" && normalized pubkey ∈ t.members

def refresh (t : TrustedAuthorSet) (loader : TrustedAuthorLoader) (now : ℤ) :
    Except String TrustedAuthorSet := do
  let pubkeys ← loader.loadTrustedSnapshotPubkeys t.maxHops
  let accept := loader.accountStates.bind fun asl => asl.loadIngestAcceptPubkeys.toOption
  let blk := loader.accountStates.bind fun asl => asl.loadBlockedPubkeys.toOption
  return { t with
    members := normalizedSet pubkeys ∪ normalizedSet (accept.getD [])
    blocked := normalizedSet (blk.getD [])
    loaded := true
    lastRefreshAt := some now }

def refreshed (t : TrustedAuthorSet) (loader : TrustedAuthorLoader) (now : ℤ) : TrustedAuthorSet :=
  (t.refresh loader now).toOption.getD t

end TrustedAuthorSet

namespace TrustedAuthorLoader

variable (loader : TrustedAuthorLoader) (maxHops : ℤ)

def trustedAnswer : Option (List String) := (loader.loadTrustedSnapshotPubkeys maxHops).toOption

/-- The account state queries are sent only after a successful snapshot query. -/
def acceptAnswer : Option (List String) :=
  (loader.trustedAnswer maxHops).bind fun _ =>
    loader.accountStates.bind fun asl => asl.loadIngestAcceptPubkeys.toOption

def blockedAnswer : Option (List String) :=
  (loader.trustedAnswer maxHops).bind fun _ =>
    loader.accountStates.bind fun asl => asl.loadBlockedPubkeys.toOption

end TrustedAuthorLoader

structure Refreshes where
  set : TrustedAuthorSet
  lastTrusted : List String
  lastAccept : List String
  lastBlocked : List String

namespace Refreshes

def start (maxHops : ℤ) : Refreshes := ⟨.new maxHops, [], [], []⟩

def step (s : Refreshes) (call : TrustedAuthorLoader × ℤ) : Option Refreshes :=
  some {
    set := s.set.refreshed call.1 call.2
    lastTrusted := (call.1.trustedAnswer s.set.maxHops).getD s.lastTrusted
    lastAccept := (call.1.acceptAnswer s.set.maxHops).getD s.lastAccept
    lastBlocked := (call.1.blockedAnswer s.set.maxHops).getD s.lastBlocked }

/-- Every author a query returned when it last succeeded is still in its set. -/
structure Kept (s : Refreshes) : Prop where
  trusted : ∀ p ∈ s.lastTrusted, normalized p ≠ "" → s.set.contains p = true
  accept : ∀ p ∈ s.lastAccept, normalized p ≠ "" → s.set.contains p = true
  blocked : ∀ p ∈ s.lastBlocked, normalized p ≠ "" → s.set.isBlocked p = true

/-- After a successful snapshot query, the query for the accepted accounts fails only if the new
snapshot has all accounts it returned before, and the query for the blocked accounts fails only if
it never returned one. -/
def Covered (s : Refreshes) (call : TrustedAuthorLoader × ℤ) : Prop :=
  ∀ snapshot, call.1.trustedAnswer s.set.maxHops = some snapshot →
    (call.1.acceptAnswer s.set.maxHops = none →
      ∀ p ∈ s.lastAccept, normalized p ≠ "" → normalized p ∈ snapshot.map normalized) ∧
    (call.1.blockedAnswer s.set.maxHops = none → ∀ p ∈ s.lastBlocked, normalized p = "")

end Refreshes

section
variable {pubkeys : List String}

theorem mem_normalizedSet {x : String} :
    x ∈ normalizedSet pubkeys ↔ x ∈ pubkeys.map normalized ∧ x ≠ "" := by
  simp [normalizedSet]

theorem normalized_mem {p : String} (hp : p ∈ pubkeys) (hne : normalized p ≠ "") :
    normalized p ∈ normalizedSet pubkeys :=
  mem_normalizedSet.mpr ⟨List.mem_map_of_mem hp, hne⟩

variable {t : TrustedAuthorSet} {loader : TrustedAuthorLoader} {p : String}

theorem contains_iff (hne : normalized p ≠ "") :
    t.contains p = true ↔ normalized p ∈ t.members := by
  simp [TrustedAuthorSet.contains, hne]

theorem isBlocked_iff (hne : normalized p ≠ "") :
    t.isBlocked p = true ↔ normalized p ∈ t.blocked := by
  simp [TrustedAuthorSet.isBlocked, hne]

theorem refreshed_of_none (now : ℤ) (h : loader.trustedAnswer t.maxHops = none) :
    t.refreshed loader now = t := by
  unfold TrustedAuthorLoader.trustedAnswer at h
  cases hq : loader.loadTrustedSnapshotPubkeys t.maxHops with
  | ok pubkeys => simp [hq, Except.toOption] at h
  | error e => simp [TrustedAuthorSet.refreshed, TrustedAuthorSet.refresh, hq, bind, Except.bind,
      Except.toOption]

theorem refreshed_of_some (now : ℤ) {snapshot : List String}
    (h : loader.trustedAnswer t.maxHops = some snapshot) : t.refreshed loader now = { t with
        members := normalizedSet snapshot ∪
          normalizedSet ((loader.acceptAnswer t.maxHops).getD [])
        blocked := normalizedSet ((loader.blockedAnswer t.maxHops).getD [])
        loaded := true
        lastRefreshAt := some now } := by
  simp only [TrustedAuthorLoader.acceptAnswer, TrustedAuthorLoader.blockedAnswer, h,
    Option.bind_some]
  unfold TrustedAuthorLoader.trustedAnswer at h
  cases hq : loader.loadTrustedSnapshotPubkeys t.maxHops with
  | ok pubkeys =>
    obtain rfl : pubkeys = snapshot := by simpa [hq, Except.toOption] using h
    simp [TrustedAuthorSet.refreshed, TrustedAuthorSet.refresh, hq, bind, Except.bind, pure,
      Except.pure, Except.toOption]
  | error e => simp [hq, Except.toOption] at h

end

namespace Refreshes

variable {s t : Refreshes} {call : TrustedAuthorLoader × ℤ}

theorem step_failed (h : call.1.trustedAnswer s.set.maxHops = none) : s.step call = some s := by
  simp [step, refreshed_of_none call.2 h, TrustedAuthorLoader.acceptAnswer,
    TrustedAuthorLoader.blockedAnswer, h]

theorem loaded_step (h : s.step call = some t) (hl : s.set.loaded = true) :
    t.set.loaded = true := by
  cases ht : call.1.trustedAnswer s.set.maxHops with
  | none =>
    rw [step_failed ht, Option.some.injEq] at h
    exact h ▸ hl
  | some snapshot =>
    cases h
    simp only [refreshed_of_some call.2 ht]

theorem kept_step_iff (hs : s.Kept) (h : s.step call = some t) : t.Kept ↔ Covered s call := by
  cases ht : call.1.trustedAnswer s.set.maxHops with
  | none =>
    rw [step_failed ht, Option.some.injEq] at h
    exact iff_of_true (h ▸ hs) fun snapshot hsnap => by simp [ht] at hsnap
  | some snapshot =>
    cases h
    have hset := refreshed_of_some call.2 ht
    have hmembers : ∀ p, normalized p ≠ "" →
        ((s.set.refreshed call.1 call.2).contains p = true ↔ normalized p ∈ normalizedSet snapshot ∨
            normalized p ∈ normalizedSet ((call.1.acceptAnswer s.set.maxHops).getD [])) := by
      intro p hne
      rw [contains_iff hne, hset, Finset.mem_union]
    have hblocked : ∀ p, normalized p ≠ "" →
        ((s.set.refreshed call.1 call.2).isBlocked p = true ↔
          normalized p ∈ normalizedSet ((call.1.blockedAnswer s.set.maxHops).getD [])) := by
      intro p hne
      rw [isBlocked_iff hne, hset]
    constructor
    · intro hk snapshot' hsnap
      obtain rfl : snapshot = snapshot' := Option.some.inj (ht.symm.trans hsnap)
      refine ⟨fun hnone p hp hne => ?_, fun hnone p hp => by_contra fun hne => ?_⟩
      · have hin := hk.accept p (by simpa [hnone] using hp) hne
        rw [hmembers p hne, hnone] at hin
        simpa [mem_normalizedSet, hne] using hin
      · have hin := hk.blocked p (by simpa [hnone] using hp) hne
        rw [hblocked p hne, hnone] at hin
        simp [mem_normalizedSet] at hin
    · intro hc
      obtain ⟨haccept, hblk⟩ := hc snapshot ht
      refine ⟨fun p hp hne => ?_, fun p hp hne => ?_, fun p hp hne => ?_⟩
      · exact (hmembers p hne).mpr (.inl (normalized_mem (by simpa [ht] using hp) hne))
      · cases ha : call.1.acceptAnswer s.set.maxHops with
        | none =>
          have hmem := haccept ha p (by simpa [ha] using hp) hne
          exact (hmembers p hne).mpr (.inl (mem_normalizedSet.mpr ⟨hmem, hne⟩))
        | some accept =>
          rw [hmembers p hne, ha]
          exact .inr (normalized_mem (by simpa [ha] using hp) hne)
      · cases hb : call.1.blockedAnswer s.set.maxHops with
        | none => exact absurd (hblk hb p (by simpa [hb] using hp)) hne
        | some blk =>
          rw [hblocked p hne, hb]
          exact normalized_mem (by simpa [hb] using hp) hne

theorem kept_start (maxHops : ℤ) : (start maxHops).Kept where
  trusted := fun _ hp => nomatch hp
  accept := fun _ hp => nomatch hp
  blocked := fun _ hp => nomatch hp

/-- Throughout a sequence of refreshes the sets hold the last good answers exactly when every
refresh of the sequence is covered. -/
theorem always_kept_iff_covered (maxHops : ℤ) (calls : List (TrustedAuthorLoader × ℤ)) :
    (Always step Kept (start maxHops) calls ↔ Guarded step Covered (start maxHops) calls) ∧
      Always step (fun t => t.set.loaded = true → ∀ more u, run step t more = some u →
        u.set.loaded = true) (start maxHops) calls := by
  constructor
  · exact always_iff_guarded (J := fun _ => True) (fun _ _ _ _ _ => trivial)
      (fun s call t _ hs h => kept_step_iff hs h)
      (fun s call _ _ h => by simp [step] at h) trivial (kept_start maxHops)
  · intro _ _ t _ hl more u hu
    exact run_invariant_of_step (I := (·.set.loaded = true)) (fun _ _ _ hl h => loaded_step h hl)
      hl hu

def sampleLoader (blocked : Except String (List String)) : TrustedAuthorLoader where
  loadTrustedSnapshotPubkeys _ := .ok ["alice"]
  accountStates := some { loadIngestAcceptPubkeys := .ok [], loadBlockedPubkeys := blocked }

/-- One failing query for the blocked accounts unblocks them all. -/
theorem blocked_author_forgotten : ¬ Always step Kept (start 2)
      [(sampleLoader (.ok ["mallory"]), 1), (sampleLoader (.error "timeout"), 2)] := by
  intro h
  have hk := h _ (List.prefix_refl _) _ rfl
  exact nomatch (hk.blocked "mallory" (by decide) (by decide))

end Refreshes
end NostrMash.Live
