import NostrMash.TrustGraphRuns

/-!
# A closed follow farm stays outside

A set of pubkeys without a seed that nobody outside it follows is not reached from the seeds.
-/

namespace NostrMash.TrustGraph
open AuthorStats ContactLists KeyedTable List Machine
open Notifications (btrim)
variable {τ : Type} {F : Set String}

/-- The set has no active seed and is followed by its own members only. -/
structure ClosedFarm (F : Set String) (s : State τ) : Prop where
  no_seed : ∀ p ∈ s.activeSeeds, p ∉ F
  followers : ∀ followed follower, (followed, follower) ∈ s.follows.tables.edges.keys →
    followed ∈ F → follower ∈ F

def Absent {ρ : Type*} (F : Set String) (T : KeyedTable String ρ) : Prop := ∀ p ∈ F, T.get p = none

def Unpublished (F : Set String) (hops : PublishedHops) : Prop := ∀ p ∈ F, (hops.get p).join = none

/-- What a transaction under way holds has no member in it. -/
def Phase.Avoids (F : Set String) : Phase → Prop
  | .idle => True
  | .reached draft => Absent F draft
  | .merged draft => Absent F draft
  | .counted counts => Absent F counts.counts
  | .cleared counts _ => Absent F counts.counts

structure Outside (F : Set String) (s : State τ) : Prop where
  snapshot : Absent F s.snapshot
  hops : Unpublished F s.hops
  profiles : Untrusted F s.follows.tables.profiles

structure Inv (F : Set String) (s : State τ) : Prop where
  outside : Outside F s
  phases : ∀ t, (s.phase t).Avoids F

theorem Inv.avoids {s : State τ} (h : Inv F s) {t : τ} {p : Phase} (hphase : s.phase t = p) :
    p.Avoids F :=
  hphase ▸ h.phases t

section
variable {s : State τ}

theorem absent_insertAll {ρ : Type*} {l : List (String × ρ)} (h : ∀ row ∈ l, row.1 ∉ F) :
    Absent F (KeyedTable.empty.insertAll l) := by
  intro p hp
  have hnot : p ∉ (KeyedTable.empty.insertAll l).keys := by
    rw [mem_keys_insertAll_empty]
    intro hmem
    obtain ⟨row, hrow, rfl⟩ := mem_map.mp hmem
    exact h row hrow hp
  rwa [KeyedTable.mem_keys, Option.not_isSome_iff_eq_none] at hnot

theorem absent_rebuildSnapshot (h : ClosedFarm F s) (maxHops : ℤ) :
    Absent F (rebuildSnapshot s.follows.tables s.activeSeeds maxHops) := by
  refine absent_insertAll fun row hrow => ?_
  obtain ⟨⟨p, k⟩, hmem, rfl⟩ := mem_map.mp hrow
  refine HopLevels.level_induction (P := fun p => p ∉ F) h.no_seed ?_ k p
    (HopLevels.mem_rows.mp hmem).2
  intro follower hfollower followed hfollowed hF
  exact hfollower (h.followers followed follower (mem_followed.mp hfollowed) hF)

theorem absent_mergeLargeAccounts {draft : Snapshot} (hdraft : Absent F draft)
    (h : Untrusted F s.follows.tables.profiles) :
    Absent F (mergeLargeAccounts s.follows.tables.profiles draft) := by
  intro p hp
  refine (get_upsertAll_of_notMem fun hmem => ?_).trans (hdraft p hp)
  rw [map_map, Function.comp_def, map_id'] at hmem
  obtain ⟨row, hrow, hkey⟩ := mem_map.mp hmem
  obtain ⟨hprofile, hlarge⟩ := mem_filter.mp hrow
  have htrimmed := s.follows.profiles_trimmed row.1 (mem_toFinset.mpr (mem_map_of_mem hprofile))
  rw [btrim_of_trimmed htrimmed] at hkey
  have hcount := h p hp row.2 (hkey ▸ mem_rows.mp hprofile)
  have hfloor := (of_decide_eq_true hlarge).1
  rw [hcount] at hfloor
  exact nomatch hfloor

theorem unpublished_refresh {snapshot : Snapshot} (h : Absent F snapshot) (scored : List String) :
    Unpublished F (refreshTrustPubkeysLatest snapshot scored) := by
  intro p hp
  cases hget : (refreshTrustPubkeysLatest snapshot scored).get p with
  | none => rfl
  | some hops =>
    rcases get_or_mem_of_get_insertAll hget with hempty | hmem
    · exact nomatch hempty
    · rcases mem_append.mp hmem with hmem | hmem
      · obtain ⟨row, hrow, hkey⟩ := mem_map.mp hmem
        obtain rfl : row.1 = p := congrArg Prod.fst hkey
        exact nomatch ((h _ hp).symm.trans (mem_rows.mp hrow))
      · obtain ⟨q, -, hkey⟩ := mem_map.mp hmem
        obtain rfl : none = hops := congrArg Prod.snd hkey
        rfl

end

section
variable {s : State τ}

theorem absent_countTrusted (hclosed : ClosedFarm F s) (hhops : Unpublished F s.hops)
    (maxHops : ℤ) : Absent F (countTrusted ⟨maxHops, false⟩ s.hops s.follows).counts := by
  refine absent_insertAll fun row hrow hF => ?_
  obtain ⟨p, hp, rfl⟩ := mem_map.mp hrow
  obtain ⟨follower, hedge, -, haudience⟩ := mem_trustedEdges (mem_dedup.mp hp)
  have hnone := hhops follower (hclosed.followers p follower hedge hF)
  rw [inAudience, hnone] at haudience
  exact nomatch haudience

theorem untrusted_writeCounts {counts : Counted} (hcounts : Absent F counts.counts)
    (h : Untrusted F s.follows.tables.profiles) (pubkeys : List String) :
    Untrusted F (writeCounts counts pubkeys s.follows).tables.profiles := by
  intro p hp row hrow
  have hnot : p ∉ counts.counts.rows.map Prod.fst := get_eq_none_iff.mp (hcounts p hp)
  rw [writeCounts, get_upsertAll_of_notMem hnot, get_update] at hrow
  obtain ⟨old, hold, rfl⟩ := Option.map_eq_some_iff.mp hrow
  split_ifs
  · rfl
  · exact h p hp old hold

end

section
variable {s : State τ} {stored : EventTable} {env : Environment}

theorem untrusted_upsertContactList {l : ContactList}
    (hstored : stored.content l.id = some l.content)
    (hclosed : ∀ followed follower, (followed, follower) ∈ s.follows.tables.edges.keys →
      followed ∈ F → follower ∈ F) (hafter : ∀ followed follower, (followed, follower) ∈
      (upsertContactList env l.content.pubkey l.row s.follows.tables).edges.keys →
      followed ∈ F → follower ∈ F)
    (haudience : ∀ p ∈ F, trimSpace p = p → followerInTrustedAudience env p = false)
    (h : Untrusted F s.follows.tables.profiles) :
    Untrusted F (upsertContactList env l.content.pubkey l.row s.follows.tables).profiles := by
  by_cases haccept :
      (s.follows.tables.latest.get l.content.pubkey).all fun old => l.row.Replaces old
  · obtain ⟨-, hedges, -, hprofiles⟩ :=
      upsertContactList_spec env l.content.pubkey l.row haccept
    have hclean : Clean l.row.contacts := clean_contacts _
    rw [hprofiles]
    split
    · exact h
    · refine untrusted_writtenDeltas h (spares_edgeDeltas fun p hp hF => ?_)
      have hmember : l.content.pubkey ∈ F := by
        rcases mem_append.mp hp with hprev | hnext
        · obtain ⟨q, hq, rfl⟩ : ∃ q ∈ s.follows.tables.followed l.content.pubkey,
              trimSpace q = p := by
            simpa [pubkeySet] using mem_of_mem_filter (mem_dedup.mp hprev)
          have hedge := mem_followed.mp hq
          rw [trimSpace_trimSpace, s.follows.followed_trimmed _ hedge] at hF
          exact hclosed q _ hedge hF
        · rw [hclean.pubkeySet_eq] at hnext
          rw [hclean.trimmed p hnext] at hF
          refine hafter p _ ?_ hF
          rw [hedges, keys_rewriteEdges hclean, EdgeCounts.mem_redirect, if_pos rfl]
          exact mem_toFinset.mpr hnext
      rw [haudience _ hmember (stored.trimmed hstored)]
      rfl
  · rw [upsertContactList, if_neg haccept]
    exact h

theorem not_inAudience {hops : PublishedHops} (h : Unpublished F hops)
    (hweight : env.untrustedWeightPositive = false) (hhops : env.minHops = hops.get) {p : String}
    (hp : p ∈ F) (htrimmed : trimSpace p = p) : followerInTrustedAudience env p = false := by
  have hnone := h p hp
  rw [followerInTrustedAudience, htrimmed, hweight, hhops]
  by_cases hblank : p = ""
  · rw [if_pos hblank]
  · rw [if_neg hblank, if_neg Bool.false_ne_true]
    split
    · rename_i hget
      rw [hget] at hnone
      exact nomatch hnone
    · rfl

theorem untrusted_project {eventID : String} (hhops : Unpublished F s.hops)
    (hweight : env.untrustedWeightPositive = false) (hminHops : env.minHops = s.hops.get)
    (hclosed : ClosedFarm F s) (hafter : ClosedFarm F { s with
      follows := s.follows.projectContactListsLatest stored env eventID })
    (h : Untrusted F s.follows.tables.profiles) :
    Untrusted F (s.follows.projectContactListsLatest stored env eventID).tables.profiles := by
  have hfollowers := hafter.followers
  simp only [FollowTables.projectContactListsLatest] at hfollowers ⊢
  rcases project_cases stored env s.follows.tables eventID with ⟨l, hstored, hproject⟩ | hproject
  · rw [hproject] at hfollowers ⊢
    exact untrusted_upsertContactList hstored hclosed.followers hfollowers
      (fun p hp htrimmed => not_inAudience hhops hweight hminHops hp htrimmed) h
  · rw [hproject]
    exact h

end

section
variable [DecidableEq τ] {s s' : State τ} {stored : EventTable}

theorem Inv.goto (h : Inv F s) (t : τ) {p : Phase} (hp : p.Avoids F) : Inv F (s.goto t p) := by
  refine ⟨⟨h.outside.snapshot, h.outside.hops, h.outside.profiles⟩, fun t' => ?_⟩
  change (Function.update s.phase t p t').Avoids F
  by_cases heq : t' = t
  · rw [heq, Function.update_self]
    exact hp
  · rw [Function.update_of_ne heq]
    exact h.phases t'

theorem Inv.goto_idle (h : Inv F s) (t : τ) : Inv F (s.goto t .idle) :=
  h.goto t (p := .idle) trivial

theorem inv_step {a : Action τ} (h : Inv F s) (hclosed : ClosedFarm F s)
    (hafter : ClosedFarm F s') (hstep : step stored false s a = some s') : Inv F s' := by
  obtain ⟨hsnapshot, hhops, hprofiles⟩ := h.outside
  cases a with
  | projectContactList now maxHops eventID =>
    cases hstep
    exact ⟨⟨hsnapshot, hhops, untrusted_project hhops rfl rfl hclosed hafter hprofiles⟩, h.phases⟩
  | setActiveSeeds seeds =>
    cases hstep
    exact ⟨⟨hsnapshot, hhops, hprofiles⟩, h.phases⟩
  | rebuildSnapshot t maxHops =>
    simp only [step] at hstep
    split at hstep
    · cases hstep
      exact h.goto t (absent_rebuildSnapshot hclosed maxHops)
    · cases hstep
  | mergeLargeAccounts t =>
    simp only [step] at hstep
    split at hstep
    · rename_i draft hphase
      cases hstep
      exact h.goto t (absent_mergeLargeAccounts (h.avoids hphase) hprofiles)
    · cases hstep
  | commitSnapshot t scored =>
    simp only [step] at hstep
    split at hstep
    · rename_i draft hphase
      cases hstep
      have hdraft : Absent F draft := h.avoids hphase
      exact ⟨⟨hdraft, unpublished_refresh hdraft scored, hprofiles⟩, (h.goto_idle t).phases⟩
    · cases hstep
  | refreshTrustPubkeysLatest scored =>
    cases hstep
    exact ⟨⟨hsnapshot, unpublished_refresh hsnapshot scored, hprofiles⟩, h.phases⟩
  | countTrusted t maxHops =>
    simp only [step] at hstep
    split at hstep
    · cases hstep
      exact h.goto t (absent_countTrusted hclosed hhops maxHops)
    · cases hstep
  | clearAbsent t =>
    simp only [step] at hstep
    split at hstep
    · rename_i counts hphase
      cases hstep
      have hcounts : Absent F counts.counts := h.avoids hphase
      exact h.goto t hcounts
    · cases hstep
  | commitCounts t =>
    simp only [step] at hstep
    split at hstep
    · rename_i counts pubkeys hphase
      cases hstep
      exact ⟨⟨hsnapshot, hhops, untrusted_writeCounts (h.avoids hphase) hprofiles pubkeys⟩,
        (h.goto_idle t).phases⟩
    · cases hstep
  | rollback t =>
    cases hstep
    exact h.goto_idle t

/-- In every run in which nobody outside follows a member and no member is a seed, no member enters
the snapshot. -/
theorem farm_stays_outside (stored : EventTable) (F : Set String) (s : State τ)
    (hidle : ∀ t, s.phase t = .idle) (hstart : Outside F s) (actions : List (Action τ))
    (hclosed : Machine.Always (step stored false) (ClosedFarm F) s actions) :
    Machine.Always (step stored false) (Outside F) s actions := by
  have hinv : Inv F s := by
    refine ⟨hstart, fun t => ?_⟩
    rw [hidle t]
    trivial
  intro acts hprefix t ht
  have hguard := guarded_initial hprefix (guarded_of_always hclosed)
  refine (run_invariant (I := Inv F) (fun u a v hu hg hstep => ?_) hinv hguard ht).outside
  exact inv_step hu hg.1 (hg.2 v hstep) hstep

end

def farmer (c : Char) : String := String.ofList (List.replicate 64 c)

def farm : Set String := {p | p ∈ [farmer 'b', farmer 'c']}

instance : DecidablePred (· ∈ farm) := fun p =>
  inferInstanceAs (Decidable (p ∈ [farmer 'b', farmer 'c']))

def farmEvents : EventTable where
  content id := if id = "list" then
    some { pubkey := farmer 'b', kind := 3, createdAt := 1, tags := [["p", farmer 'c']] } else none
  pubkey_hex h := by
    split_ifs at h
    cases h
    decide

def beforeFarm : State Unit where
  follows := ⟨.empty, by decide, by decide⟩
  activeSeeds := [farmer 'a']
  snapshot := .empty
  hops := .empty
  phase _ := .idle

def farmRun : List (Action Unit) :=
  [.projectContactList 0 3 "list", .rebuildSnapshot () 3, .mergeLargeAccounts (),
    .commitSnapshot () [], .countTrusted () 3, .clearAbsent (), .commitCounts ()]

theorem closedFarm_of_keys {s : State Unit} (hseeds : ∀ p ∈ s.activeSeeds, p ∉ farm)
    (hkeys : ∀ key ∈ s.follows.tables.edges.keys, key.1 ∈ farm → key.2 ∈ farm) :
    ClosedFarm farm s :=
  ⟨hseeds, fun followed follower hkey => hkeys (followed, follower) hkey⟩

theorem farm_run_outside :
    Machine.Always (step farmEvents false) (Outside farm) beforeFarm farmRun := by
  refine farm_stays_outside farmEvents farm beforeFarm (fun _ => rfl)
    ⟨fun _ _ => rfl, fun _ _ => rfl, fun _ _ _ h => nomatch h⟩ farmRun ?_
  have hseeds : ∀ p ∈ [farmer 'a'], p ∉ farm := by decide
  have hkeys : ∀ key ∈ (beforeFarm.follows.projectContactListsLatest farmEvents
      ⟨0, false, 3, beforeFarm.hops.get⟩ "list").tables.edges.keys,
      key.1 ∈ farm → key.2 ∈ farm := by decide
  refine always_cons (closedFarm_of_keys hseeds (by decide)) rfl ?_
  refine always_cons (closedFarm_of_keys hseeds hkeys) rfl ?_
  refine always_cons (closedFarm_of_keys hseeds hkeys) rfl ?_
  refine always_cons (closedFarm_of_keys hseeds hkeys) rfl ?_
  refine always_cons (closedFarm_of_keys hseeds hkeys) rfl ?_
  refine always_cons (closedFarm_of_keys hseeds hkeys) rfl ?_
  refine always_cons (closedFarm_of_keys hseeds hkeys) rfl ?_
  exact always_nil (closedFarm_of_keys hseeds hkeys)

end NostrMash.TrustGraph
