import NostrMash.FollowerDeltas
import NostrMash.HopLevels
import NostrMash.NotificationTables

/-!
# The trust graph snapshot

`RefreshTrustGraphSnapshot` rebuilds the snapshot in one transaction: the pubkeys within a number
of hops from the active seeds, then the accounts with many trusted followers at one hop.
`trust_pubkeys_latest` copies the hops.
-/

namespace NostrMash.TrustGraph
open ContactLists List
open Notifications (btrim)

structure SnapshotRow where
  minHops : ℤ
  isSeed : Bool
  deriving DecidableEq

abbrev Snapshot := KeyedTable String SnapshotRow

/-- `min_hops` of the pubkeys in `trust_pubkeys_latest`; a pubkey with a score only has none. -/
abbrev PublishedHops := KeyedTable String (Option ℤ)

/-- The tables of the contact lists. -/
structure FollowTables where
  tables : Tables
  followed_trimmed : ∀ key ∈ tables.edges.keys, trimSpace key.1 = key.1
  profiles_trimmed : ∀ pubkey ∈ tables.profiles.keys, trimSpace pubkey = pubkey

structure Counted where
  counts : KeyedTable String ℕ
  trimmed : ∀ pubkey ∈ counts.keys, trimSpace pubkey = pubkey

/-- Nobody counts but followers with a published hop, unless the weight is positive. -/
structure TrustedFollowerPolicy where
  maxHops : ℤ
  untrustedWeightPositive : Bool

def normalizedHops (maxHops : ℤ) : ℤ := if maxHops ≤ 0 then 3 else maxHops

theorem btrim_of_trimmed {p : String} (h : trimSpace p = p) : btrim p = p := by
  have hlist : (p.toList.dropWhile isSpace).rdropWhile isSpace = p.toList := by
    rw [← toList_trimSpace, h]
  have hlength := ( rdropWhile_prefix isSpace (p.toList.dropWhile isSpace)).length_le
  rw [hlist] at hlength
  have hhead : p.toList.dropWhile isSpace = p.toList :=
    (dropWhile_suffix isSpace).eq_of_length_le hlength
  rw [hhead] at hlist
  have hspace : ∀ c, ¬ isSpace c = true → ¬ decide (c = ' ') = true := by
    intro c hc hblank
    rw [of_decide_eq_true hblank] at hc
    exact hc (by decide)
  have hfront : p.toList.dropWhile (· = ' ') = p.toList :=
    dropWhile_eq_self_iff.mpr fun hl => hspace _ (dropWhile_eq_self_iff.mp hhead hl)
  have hback : p.toList.rdropWhile (· = ' ') = p.toList :=
    rdropWhile_eq_self_iff.mpr fun hl => hspace _ (rdropWhile_eq_self_iff.mp hlist hl)
  rw [btrim, hfront, hback, String.ofList_toList]

def rebuildSnapshot (S : Tables) (activeSeeds : List String) (maxHops : ℤ) : Snapshot :=
  KeyedTable.empty.insertAll
    ((HopLevels.rows S.followed activeSeeds (normalizedHops maxHops).toNat).map fun row =>
      (row.1, ⟨row.2, row.2 = 0⟩))

def largeAccountFollowerFloor : ℤ := 1000

def largeAccounts (profiles : KeyedTable String ProfileStats) : List String :=
  (profiles.rows.filter fun row =>
    largeAccountFollowerFloor ≤ row.2.trustedFollowerCount ∧ btrim row.1 ≠ "").map
      fun row => btrim row.1

def mergeLargeAccounts (profiles : KeyedTable String ProfileStats) (draft : Snapshot) : Snapshot :=
  draft.upsertAll ((largeAccounts profiles).map fun pubkey => (pubkey, ())) (fun _ => ⟨1, false⟩)
    fun _ row => if 1 < row.minHops then { row with minHops := 1 } else row

def refreshTrustPubkeysLatest (snapshot : Snapshot) (scored : List String) : PublishedHops :=
  KeyedTable.empty.insertAll
    (snapshot.rows.map (fun row => (row.1, some row.2.minHops)) ++
      scored.map fun pubkey => (pubkey, none))

def inAudience (policy : TrustedFollowerPolicy) (hops : PublishedHops) (follower : String) : Bool :=
  policy.untrustedWeightPositive ||
    ((hops.get follower).join.any fun h => h ≤ normalizedHops policy.maxHops)

def trustedEdges (policy : TrustedFollowerPolicy) (hops : PublishedHops) (S : Tables) :
    List String :=
  (S.edges.rows.filter fun row => row.1.2 ≠ row.1.1 ∧ inAudience policy hops row.1.2 = true).map
    fun row => row.1.1

variable {pubkey : String}

theorem mem_trustedEdges {policy : TrustedFollowerPolicy} {hops : PublishedHops} {S : Tables}
    (h : pubkey ∈ trustedEdges policy hops S) :
    ∃ follower, (pubkey, follower) ∈ S.edges.keys ∧ follower ≠ pubkey ∧
      inAudience policy hops follower = true := by
  obtain ⟨row, hrow, rfl⟩ := mem_map.mp h
  obtain ⟨hmem, hcounts⟩ := mem_filter.mp hrow
  exact ⟨row.1.2, mem_toFinset.mpr (mem_map_of_mem hmem), of_decide_eq_true hcounts⟩

theorem mem_keys_insertAll_empty {ρ : Type*} {l : List (String × ρ)} :
    pubkey ∈ (KeyedTable.empty.insertAll l).keys ↔ pubkey ∈ l.map Prod.fst := by
  rw [KeyedTable.insertAll, KeyedTable.mem_keys_upsertAll]
  simp [KeyedTable.mem_keys]

def countTrusted (policy : TrustedFollowerPolicy) (hops : PublishedHops) (S : FollowTables) :
    Counted where
  counts := KeyedTable.empty.insertAll
    ((trustedEdges policy hops S.tables).dedup.map fun pubkey =>
      (pubkey, (trustedEdges policy hops S.tables).count pubkey))
  trimmed := by
    intro pubkey hkey
    rw [mem_keys_insertAll_empty, map_map, Function.comp_def, map_id', mem_dedup] at hkey
    obtain ⟨follower, hedge, -⟩ := mem_trustedEdges hkey
    exact S.followed_trimmed (pubkey, follower) hedge

def absent (counted : Counted) (S : Tables) : List String :=
  (S.profiles.rows.filter fun row =>
    row.2.trustedFollowerCount ≠ 0 ∧ (counted.counts.get row.1).isNone).map Prod.fst

def writeCounts (counted : Counted) (cleared : List String) (S : FollowTables) : FollowTables where
  tables :=
    { S.tables with
      profiles :=
        (S.tables.profiles.update (fun pubkey _ => pubkey ∈ cleared)
          fun row => { row with trustedFollowerCount := 0 }).upsertAll counted.counts.rows
          (fun n => { trustedFollowerCount := n })
          fun n row => { row with trustedFollowerCount := n } }
  followed_trimmed := S.followed_trimmed
  profiles_trimmed := by
    intro pubkey hkey
    rw [KeyedTable.mem_keys_upsertAll] at hkey
    rcases hkey with hcounted | hkey
    · exact counted.trimmed pubkey (mem_toFinset.mpr hcounted)
    · rw [KeyedTable.mem_keys, KeyedTable.get_update, Option.isSome_map] at hkey
      exact S.profiles_trimmed pubkey (KeyedTable.mem_keys.mpr hkey)

open HopLevels (IsDistance isDistance_zero lookup_rows)
open KeyedTable

def Large (profiles : KeyedTable String ProfileStats) (pubkey : String) : Prop :=
  ∃ stats, profiles.get pubkey = some stats ∧ largeAccountFollowerFloor ≤ stats.trustedFollowerCount

open Classical in
/-- A pubkey has a row exactly when it is within `maxHops` hops of an active seed or a large account;
a large account is at one hop at most. -/
def ExactHops (S : Tables) (activeSeeds : List String) (maxHops : ℤ)
    (profiles : KeyedTable String ProfileStats) (snapshot : Snapshot) : Prop :=
  ∀ pubkey row, snapshot.get pubkey = some row ↔ (row.isSeed = true ↔ pubkey ∈ activeSeeds) ∧
    ((∃ k : ℕ, k ≤ maxHops ∧ IsDistance S.followed activeSeeds pubkey k ∧
        row.minHops = if Large profiles pubkey then min 1 (k : ℤ) else k) ∨
      (∀ k : ℕ, k ≤ maxHops → ¬ IsDistance S.followed activeSeeds pubkey k) ∧
        Large profiles pubkey ∧ row.minHops = 1)

variable {S : Tables} {activeSeeds : List String} {maxHops : ℤ}
  {profiles : KeyedTable String ProfileStats}

theorem get_rebuildSnapshot (hmax : 1 ≤ maxHops) {row : SnapshotRow} :
    (rebuildSnapshot S activeSeeds maxHops).get pubkey = some row ↔
      ∃ k : ℕ, k ≤ maxHops ∧ IsDistance S.followed activeSeeds pubkey k ∧ ⟨k, k = 0⟩ = row := by
  have hmap : ∀ l : List (String × ℕ),
      (l.map fun row => (row.1, SnapshotRow.mk row.2 (row.2 = 0))).lookup pubkey =
        (l.lookup pubkey).map fun k => ⟨k, k = 0⟩ := by
    intro l
    induction l with
    | nil => rfl
    | cons row l ih =>
      rw [map_cons, lookup_cons, lookup_cons, ih]
      cases pubkey == row.1 with
      | true => rfl
      | false => rfl
  rw [rebuildSnapshot, normalizedHops, if_neg (by omega), get_insertAll, get_empty, Option.none_or,
    hmap, Option.map_eq_some_iff]
  simp only [lookup_rows, Int.le_toNat (zero_le_one.trans hmax), and_assoc]

section
variable (hprofiles : ∀ p ∈ profiles.keys, trimSpace p = p ∧ p ≠ "")
include hprofiles

theorem largeAccounts_eq : largeAccounts profiles = (profiles.rows.filter fun row =>
    largeAccountFollowerFloor ≤ row.2.trustedFollowerCount).map Prod.fst := by
  have hrow : ∀ row ∈ profiles.rows, btrim row.1 = row.1 ∧ row.1 ≠ "" := by
    intro row hrow
    have h := hprofiles row.1 (mem_toFinset.mpr (mem_map_of_mem hrow))
    exact ⟨btrim_of_trimmed h.1, h.2⟩
  have hfilter : (profiles.rows.filter fun row => largeAccountFollowerFloor ≤
      row.2.trustedFollowerCount ∧ btrim row.1 ≠ "") = profiles.rows.filter fun row =>
        largeAccountFollowerFloor ≤ row.2.trustedFollowerCount :=
    filter_congr fun row hmem => by simp [hrow row hmem]
  rw [largeAccounts, hfilter]
  exact map_congr_left fun row hmem => (hrow row (mem_filter.mp hmem).1).1

theorem mem_largeAccounts : pubkey ∈ largeAccounts profiles ↔ Large profiles pubkey := by
  rw [largeAccounts_eq hprofiles]
  simp [Large, ← KeyedTable.mem_rows]

open Classical in
theorem get_mergeLargeAccounts {draft : Snapshot} :
    (mergeLargeAccounts profiles draft).get pubkey = if Large profiles pubkey then
      some ((draft.get pubkey).elim ⟨1, false⟩ fun row => ⟨min 1 row.minHops, row.isSeed⟩)
    else draft.get pubkey := by
  have hkeys : ((largeAccounts profiles).map fun p => (p, ())).map Prod.fst =
      largeAccounts profiles := by
    rw [map_map, Function.comp_def, map_id']
  simp only [← mem_largeAccounts hprofiles]
  split_ifs with h
  · have hnodup : (largeAccounts profiles).Nodup := by
      rw [largeAccounts_eq hprofiles]
      exact profiles.nodup.sublist (filter_sublist.map _)
    have hmem : (pubkey, ()) ∈ (largeAccounts profiles).map fun p => (p, ()) :=
      mem_map.mpr ⟨pubkey, h, rfl⟩
    rw [mergeLargeAccounts, get_upsertAll_of_mem (by rwa [hkeys]) hmem]
    cases draft.get pubkey with
    | none => rfl
    | some row =>
      simp only [Option.elim]
      split_ifs with hworse
      · rw [min_eq_left hworse.le]
      · rw [min_eq_right (not_lt.mp hworse)]
  · exact get_upsertAll_of_notMem (by rwa [hkeys])

/-- The committed snapshot holds exact hop distances. -/
theorem exactHops_snapshot (hmax : 1 ≤ maxHops) : ExactHops S activeSeeds maxHops profiles
    (mergeLargeAccounts profiles (rebuildSnapshot S activeSeeds maxHops)) := by
  classical
  rintro pubkey ⟨minHops, isSeed⟩
  rw [get_mergeLargeAccounts hprofiles]
  by_cases hnear : ∃ k : ℕ, k ≤ maxHops ∧ IsDistance S.followed activeSeeds pubkey k
  · obtain ⟨k, hk, hdist⟩ := hnear
    have hseed : pubkey ∈ activeSeeds ↔ k = 0 := by
      rw [← isDistance_zero]
      exact ⟨hdist.unique, fun h => h ▸ hdist⟩
    have hunique : ∀ j : ℕ, (j ≤ maxHops ∧ IsDistance S.followed activeSeeds pubkey j) ↔ j = k :=
      fun j => ⟨fun h => h.2.unique hdist, fun h => h ▸ ⟨hk, hdist⟩⟩
    rw [(get_rebuildSnapshot hmax).mpr ⟨k, hk, hdist, rfl⟩]
    simp only [hseed, ← and_assoc, hunique, exists_eq_left]
    grind
  · have hdraft : (rebuildSnapshot S activeSeeds maxHops).get pubkey = none :=
      Option.eq_none_iff_forall_ne_some.mpr fun row hrow =>
        have ⟨k, hk, hdist, _⟩ := (get_rebuildSnapshot hmax).mp hrow
        hnear ⟨k, hk, hdist⟩
    have hseed : pubkey ∉ activeSeeds := fun h => hnear ⟨0, by omega, isDistance_zero.mpr h⟩
    rw [hdraft]
    grind

/-- More follows, seeds or hops neither remove a pubkey nor move it away from the seeds. -/
theorem snapshot_mono {S' : Tables} {seeds : List String} {hops : ℤ} {row : SnapshotRow}
    (hfollowed : ∀ p, S.followed p ⊆ S'.followed p) (hseeds : activeSeeds ⊆ seeds)
    (hmax : 1 ≤ maxHops) (hle : maxHops ≤ hops) (hrow : (mergeLargeAccounts profiles
      (rebuildSnapshot S activeSeeds maxHops)).get pubkey = some row) :
    ∃ row', (mergeLargeAccounts profiles (rebuildSnapshot S' seeds hops)).get pubkey = some row' ∧
      row'.minHops ≤ row.minHops ∧ (row.isSeed = true → row'.isSeed = true) := by
  have hdraft : ∀ old, (rebuildSnapshot S activeSeeds maxHops).get pubkey = some old →
      ∃ new, (rebuildSnapshot S' seeds hops).get pubkey = some new ∧
        new.minHops ≤ old.minHops ∧ (old.isSeed = true → new.isSeed = true) := by
    intro old hold
    obtain ⟨k, hk, hdist, rfl⟩ := (get_rebuildSnapshot hmax).mp hold
    obtain ⟨j, hj, hdist'⟩ := (hdist.1.mono hfollowed hseeds).exists_isDistance
    refine ⟨⟨j, j = 0⟩, (get_rebuildSnapshot (hmax.trans hle)).mpr ⟨j, by omega, hdist', rfl⟩, ?_⟩
    grind
  classical
  rw [get_mergeLargeAccounts hprofiles] at hrow ⊢
  split_ifs at hrow ⊢
  · cases hold : (rebuildSnapshot S activeSeeds maxHops).get pubkey <;>
      cases hnew : (rebuildSnapshot S' seeds hops).get pubkey <;> grind [Option.elim]
  · exact hdraft row hrow

end

/-- An account that nobody within the hops follows. -/
def followedWidely : KeyedTable String ProfileStats :=
  ⟨[("bob", { trustedFollowerCount := 1000 })], by decide⟩

theorem exactHops_followedWidely : ExactHops .empty ["alice"] 2 followedWidely
    (mergeLargeAccounts followedWidely (rebuildSnapshot .empty ["alice"] 2)) :=
  exactHops_snapshot (by decide) (by decide)

theorem bob_stays : ∃ row, (mergeLargeAccounts followedWidely
    (rebuildSnapshot .empty ["alice", "carol"] 3)).get "bob" = some row ∧ row.minHops ≤ 1 ∧
      (false = true → row.isSeed = true) :=
  have hbob : (mergeLargeAccounts followedWidely (rebuildSnapshot .empty ["alice"] 2)).get "bob" =
      some ⟨1, false⟩ := by decide
  snapshot_mono (by decide) (fun _ => Subset.refl _) (by decide) (by decide) (by decide) hbob

end NostrMash.TrustGraph
