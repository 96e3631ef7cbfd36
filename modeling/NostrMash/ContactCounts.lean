import NostrMash.CursorScan
import NostrMash.FollowerDeltas

/-!
# Follower counts

After any calls of `ProjectContactListsLatest` the edges of an author are those of the latest list
that was processed, and the counters of a profile are the numbers of its edges.
-/

namespace NostrMash.ContactLists
open AuthorStats EdgeCounts KeyedTable List
variable {c : ContactList}

section

structure ContactList where
  id : String
  content : EventContent

def ContactList.row (l : ContactList) : LatestRow :=
  ⟨l.id, l.content.createdAt, contacts l.content.tags⟩

def loadList (stored : EventTable) (eventID : String) : Option ContactList :=
  if trimSpace eventID = "" then none
  else
    match stored.content (trimSpace eventID) with
    | none => none
    | some e => if e.kind ≠ 3 then none else some ⟨trimSpace eventID, e⟩

def processed (stored : EventTable) (calls : List (Environment × String)) : List ContactList :=
  calls.filterMap fun c => loadList stored c.2

def ContactList.rank (l : ContactList) : ℤ ×ₗ String := toLex (l.content.createdAt, l.id)

def current (lists : List ContactList) (author : String) : Option ContactList :=
  greatest ContactList.rank (lists.filter fun l => l.content.pubkey = author)

def currentContacts (lists : List ContactList) (author : String) : List String :=
  (current lists author).elim [] fun l => contacts l.content.tags

variable {stored : EventTable} {lists : List ContactList} {l : ContactList} {author : String}
  {eventID : String}

theorem loadList_eq_some (h : loadList stored eventID = some l) :
    stored.content l.id = some l.content ∧ ∀ env S, projectContactListsLatest stored env S eventID =
        .ok (upsertContactList env l.content.pubkey l.row S) := by
  unfold loadList at h
  split_ifs at h with hblank
  cases hc : stored.content (trimSpace eventID) with
  | none => simp [hc] at h
  | some e =>
    simp only [hc] at h
    split_ifs at h with hkind
    cases h
    refine ⟨hc, fun env S => ?_⟩
    simp only [projectContactListsLatest, projectReplaceableListLatest, hblank, hc, hkind, if_false]
    rfl

theorem loadList_eq_none (h : loadList stored eventID = none) (env : Environment) (S : Tables) :
    (projectContactListsLatest stored env S eventID).toOption.getD S = S := by
  unfold loadList at h
  unfold projectContactListsLatest projectReplaceableListLatest
  split_ifs at h ⊢ with hblank
  · rfl
  · cases hc : stored.content (trimSpace eventID) with
    | none => rfl
    | some e =>
      simp only [hc] at h
      split_ifs at h with hkind
      show (if e.kind ≠ 3 then Except.ok S else _).toOption.getD S = S
      rw [if_pos hkind]
      rfl

theorem clean_currentContacts : Clean (currentContacts lists author) := by
  unfold currentContacts
  cases current lists author with
  | none => exact ⟨nodup_nil, by simp, by simp⟩
  | some l => exact clean_contacts _

theorem current_append_ne (h : l.content.pubkey ≠ author) :
    current (lists ++ [l]) author = current lists author := by
  simp [current, h]

theorem current_append_self : current (lists ++ [l]) l.content.pubkey =
    match current lists l.content.pubkey with
    | none => some l
    | some c => if c.rank < l.rank then some l else some c := by
  have hfilter : (lists ++ [l]).filter (fun x => x.content.pubkey = l.content.pubkey) =
      lists.filter (fun x => x.content.pubkey = l.content.pubkey) ++ [l] := by simp
  rw [current, hfilter, greatest_concat, ← current]
  cases current lists l.content.pubkey with
  | none => rfl
  | some c => rfl

theorem mem_of_current (h : current lists author = some c) :
    c ∈ lists ∧ c.content.pubkey = author := by
  obtain ⟨hmem, ha⟩ := mem_filter.mp (List.argmax_mem h)
  exact ⟨hmem, of_decide_eq_true ha⟩

theorem replaces_iff : l.row.Replaces c.row ↔ c.rank ≤ l.rank := by
  rw [ContactList.rank, ContactList.rank, Prod.Lex.le_iff]
  exact or_congr Iff.rfl (and_congr_left' eq_comm)

end

def Loaded (stored : EventTable) (lists : List ContactList) : Prop :=
  ∀ l ∈ lists, stored.content l.id = some l.content

structure Inv (lists : List ContactList) (S : Tables) : Prop where
  latest : ∀ author, S.latest.get author = (current lists author).map ContactList.row
  edges : ∀ author k, (k, author) ∈ S.edges.keys ↔ k ∈ currentContacts lists author
  claimed : ∀ id, (id, StatDelta.followerCounts) ∈ S.appliedStatDeltas → ∃ l ∈ lists, l.id = id
  follower : ∀ k, counter ProfileStats.followerCount S.profiles k = into S.edges.keys k
  following : ∀ k, counter ProfileStats.followingCount S.profiles k = outOf S.edges.keys k

variable {stored : EventTable} {lists : List ContactList} {l : ContactList} {S : Tables}
  {env : Environment}

theorem inv_empty : Inv [] .empty where
  latest _ := rfl
  edges _ _ := by simp [Tables.empty, KeyedTable.empty, KeyedTable.keys, currentContacts, current]
  claimed _ h := nomatch h
  follower _ := rfl
  following _ := rfl

theorem ContactList.ext_of_id (hc : stored.content c.id = some c.content)
    (hl : stored.content l.id = some l.content) (h : c.id = l.id) : c = l := by
  obtain ⟨cid, ccontent⟩ := c
  obtain ⟨lid, lcontent⟩ := l
  obtain rfl : cid = lid := h
  obtain rfl : ccontent = lcontent := Option.some.inj (hc.symm.trans hl)
  rfl

theorem current_append_of_replaces (hloaded : Loaded stored (lists ++ [l]))
    (h : ∀ c, current lists l.content.pubkey = some c → c.rank ≤ l.rank) :
    current (lists ++ [l]) l.content.pubkey = some l := by
  rw [current_append_self]
  cases hc : current lists l.content.pubkey with
  | none => rfl
  | some c =>
    have hload := hloaded c (mem_append_left _ (mem_of_current hc).1)
    have hlast := hloaded l (mem_append_right _ (.head _))
    rcases (h c hc).lt_or_eq with hlt | heq
    · simp [hlt]
    · have hid : c.id = l.id := congrArg (fun r => (ofLex r).2) heq
      simp [ContactList.ext_of_id hload hlast hid]

theorem current_append_of_newer (hc : current lists l.content.pubkey = some c)
    (hlt : l.rank < c.rank) (author : String) :
    current (lists ++ [l]) author = current lists author := by
  by_cases ha : l.content.pubkey = author
  · subst ha
    rw [current_append_self, hc]
    simp [hlt.le]
  · exact current_append_ne ha

theorem recordFollowerGainEvents_frame (env : Environment) (eventID author : String)
    (prev next : List String) (createdAt : ℤ) (S : Tables) :
    let R := recordFollowerGainEvents env eventID author prev next createdAt S
    R.latest = S.latest ∧ R.edges = S.edges ∧ R.profiles = S.profiles ∧
      ∀ id, (id, StatDelta.followerCounts) ∈ R.appliedStatDeltas ↔
        (id, StatDelta.followerCounts) ∈ S.appliedStatDeltas := by
  unfold recordFollowerGainEvents
  dsimp only
  split_ifs <;> simp

theorem upsertContactList_spec (env : Environment) (author : String) (list : LatestRow)
    (h : (S.latest.get author).all fun old => list.Replaces old) :
    let R := upsertContactList env author list S
    R.latest = S.latest.upsert author list (fun _ => list) ∧
      R.edges = (S.rewriteEdges author list).edges ∧
      (∀ id, (id, StatDelta.followerCounts) ∈ R.appliedStatDeltas ↔
        id = list.eventID ∨ (id, StatDelta.followerCounts) ∈ S.appliedStatDeltas) ∧
      R.profiles =
        if (list.eventID, StatDelta.followerCounts) ∈ S.appliedStatDeltas then S.profiles
        else S.profiles.upsertAll (writtenDeltas (edgeDeltas (trimSpace author)
          (if followerInTrustedAudience env author then 1 else 0) (pubkeySet (S.followed author))
          (pubkeySet list.contacts))) FollowerDelta.insert FollowerDelta.update := by
  simp only [upsertContactList, h, if_true, Tables.markDirty]
  obtain ⟨hlatest, hedges, hprofiles, hledger⟩ := recordFollowerGainEvents_frame
    env list.eventID author (S.followed author) list.contacts list.createdAt
    ({ S with latest := S.latest.upsert author list fun _ => list }.rewriteEdges author list)
  simp only [applyFollowerCountDeltas, hledger]
  by_cases hclaim : (list.eventID, StatDelta.followerCounts) ∈ S.appliedStatDeltas
  · have hclaim' : (list.eventID, StatDelta.followerCounts) ∈
        (Tables.rewriteEdges { S with latest := S.latest.upsert author list fun _ => list }
          author list).appliedStatDeltas := hclaim
    rw [if_pos hclaim', if_pos hclaim]
    refine ⟨hlatest, hedges, fun id => (hledger id).trans ⟨.inr, ?_⟩, hprofiles⟩
    rintro (rfl | hid)
    · exact hclaim
    · exact hid
  · have hclaim' : (list.eventID, StatDelta.followerCounts) ∉
        (Tables.rewriteEdges { S with latest := S.latest.upsert author list fun _ => list }
          author list).appliedStatDeltas := hclaim
    rw [if_neg hclaim', if_neg hclaim]
    refine ⟨hlatest, hedges, fun id => ?_, congrArg (KeyedTable.upsertAll · _ _ _) hprofiles⟩
    rw [mem_cons, Prod.mk.injEq, hledger id]
    exact or_congr_left (and_iff_left rfl)

theorem current_of_claimed (hloaded : Loaded stored (lists ++ [l]))
    (hclaimed : ∃ l' ∈ lists, l'.id = l.id)
    (h : ∀ c, current lists l.content.pubkey = some c → c.rank ≤ l.rank) :
    current lists l.content.pubkey = some l := by
  have hlast := hloaded l (mem_append_right _ (.head _))
  obtain ⟨l', hmem, hid⟩ := hclaimed
  obtain rfl := ContactList.ext_of_id (hloaded l' (mem_append_left _ hmem)) hlast hid
  have hfilter : l' ∈ lists.filter fun x => x.content.pubkey = l'.content.pubkey :=
    mem_filter.mpr ⟨hmem, by simp⟩
  cases hc : current lists l'.content.pubkey with
  | none =>
    rw [current, greatest, List.argmax_eq_none] at hc
    exact absurd hfilter (by simp [hc])
  | some c =>
    have hrank : c.rank = l'.rank := (h c hc).antisymm (le_of_mem_argmax hfilter hc)
    have hcid : c.id = l'.id := congrArg (fun r => (ofLex r).2) hrank
    rw [ContactList.ext_of_id (hloaded c (mem_append_left _ (mem_of_current hc).1)) hlast hcid]

theorem Inv.clean_followed (h : Inv lists S) (author : String) : Clean (S.followed author) := by
  have hmem : ∀ p ∈ S.followed author, p ∈ currentContacts lists author :=
    fun p hp => (h.edges author p).mp (mem_followed.mp hp)
  exact ⟨nodup_followed, fun p hp => clean_currentContacts.trimmed p (hmem p hp),
    fun p hp => clean_currentContacts.nonblank p (hmem p hp)⟩

theorem counters_redirect (h : Inv lists S) {author : String} (hat : trimSpace author = author)
    (hane : author ≠ "") {next : List String} (hnext : Clean next) (trustedStep : ℤ) (k : String) :
    let T := S.profiles.upsertAll (writtenDeltas (edgeDeltas author trustedStep
      (S.followed author) next)) FollowerDelta.insert FollowerDelta.update
    counter ProfileStats.followerCount T k = into (redirect S.edges.keys author next.toFinset) k ∧
      counter ProfileStats.followingCount T k =
        outOf (redirect S.edges.keys author next.toFinset) k := by
  obtain ⟨hfollower, hfollowing⟩ :=
    deltaAt_edgeDeltas k trustedStep hat hane (h.clean_followed author) hnext
  have hinto : into (redirect S.edges.keys author next.toFinset) k +
      (if (k, author) ∈ S.edges.keys then 1 else 0) =
        into S.edges.keys k + if k ∈ next.toFinset then 1 else 0 := into_redirect
  simp only [← mem_followed, mem_toFinset] at hinto
  constructor
  · have hsum : counter ProfileStats.followerCount S.profiles k + (deltaAt (edgeDeltas author
        trustedStep (S.followed author) next) k).follower =
          into (redirect S.edges.keys author next.toFinset) k := by
      rw [h.follower, hfollower]
      split_ifs at hinto ⊢ <;> omega
    rw [counter_upsertAll rfl (fun _ => rfl) (fun _ _ => rfl), hsum]
    rw [hsum]
    exact Int.natCast_nonneg _
  · have hsum : counter ProfileStats.followingCount S.profiles k + (deltaAt (edgeDeltas author
        trustedStep (S.followed author) next) k).following =
          outOf (redirect S.edges.keys author next.toFinset) k := by
      rw [h.following, hfollowing]
      split_ifs with hk
      · subst hk
        rw [outOf_redirect_self, toFinset_card_of_nodup hnext.nodup, length_followed,
          followingEdges_eq]
        omega
      · rw [outOf_redirect_ne hk, add_zero]
    rw [counter_upsertAll rfl (fun _ => rfl) (fun _ _ => rfl), hsum]
    rw [hsum]
    exact Int.natCast_nonneg _

theorem counters_upsertContactList (env : Environment) (h : Inv lists S)
    (hloaded : Loaded stored (lists ++ [l]))
    (haccept : (S.latest.get l.content.pubkey).all fun old => l.row.Replaces old)
    (hrank : ∀ c, current lists l.content.pubkey = some c → c.rank ≤ l.rank) (k : String) :
    let R := upsertContactList env l.content.pubkey l.row S
    let E := redirect S.edges.keys l.content.pubkey (contacts l.content.tags).toFinset
    counter ProfileStats.followerCount R.profiles k = into E k ∧
      counter ProfileStats.followingCount R.profiles k = outOf E k := by
  have hlast := hloaded l (mem_append_right _ (.head _))
  obtain ⟨-, -, -, hP⟩ := upsertContactList_spec env l.content.pubkey l.row haccept
  dsimp only
  rw [hP]
  by_cases hclaim : (l.row.eventID, StatDelta.followerCounts) ∈ S.appliedStatDeltas
  · have hsame : (contacts l.content.tags).toFinset = targets S.edges.keys l.content.pubkey := by
      ext p
      rw [mem_targets, h.edges, currentContacts,
        current_of_claimed hloaded (h.claimed _ hclaim) hrank, mem_toFinset]
      rfl
    rw [if_pos hclaim, hsame, redirect_targets]
    exact ⟨h.follower k, h.following k⟩
  · have htrim := stored.trimmed hlast
    have hnext : pubkeySet l.row.contacts = contacts l.content.tags :=
      (clean_contacts _).pubkeySet_eq
    rw [if_neg hclaim, htrim, (h.clean_followed l.content.pubkey).pubkeySet_eq, hnext]
    exact counters_redirect h htrim (stored.nonblank hlast) (clean_contacts _) _ k

theorem inv_upsertContactList (h : Inv lists S) (hloaded : Loaded stored (lists ++ [l])) :
    Inv (lists ++ [l]) (upsertContactList env l.content.pubkey l.row S) := by
  have hlatest := h.latest l.content.pubkey
  by_cases haccept : (S.latest.get l.content.pubkey).all fun old => l.row.Replaces old
  · have hrank : ∀ c, current lists l.content.pubkey = some c → c.rank ≤ l.rank := by
      intro c hc
      rw [hlatest, hc] at haccept
      exact replaces_iff.mp (of_decide_eq_true haccept)
    have hcurrent := current_append_of_replaces hloaded hrank
    obtain ⟨hL, hE, hC, -⟩ := upsertContactList_spec env l.content.pubkey l.row haccept
    have hkeys : (upsertContactList env l.content.pubkey l.row S).edges.keys =
        redirect S.edges.keys l.content.pubkey (contacts l.content.tags).toFinset := by
      rw [hE]
      exact keys_rewriteEdges (clean_contacts _)
    have hcounters := counters_upsertContactList env h hloaded haccept hrank
    refine ⟨fun author => ?_, fun author k => ?_, fun id hid => ?_, fun k => ?_, fun k => ?_⟩
    · rw [hL]
      by_cases ha : author = l.content.pubkey
      · rw [ha, get_upsert_self, hcurrent]
        cases S.latest.get l.content.pubkey <;> rfl
      · rw [get_upsert_ne ha, current_append_ne (Ne.symm ha), h.latest]
    · rw [hkeys, mem_redirect]
      split_ifs with ha
      · rw [ha, currentContacts, hcurrent, mem_toFinset]
        rfl
      · rw [h.edges, currentContacts, currentContacts, current_append_ne (Ne.symm ha)]
    · rcases (hC id).mp hid with rfl | hold
      · exact ⟨l, mem_append_right _ (.head _), rfl⟩
      · obtain ⟨l', hmem, hl'⟩ := h.claimed id hold
        exact ⟨l', mem_append_left _ hmem, hl'⟩
    · rw [hkeys]
      exact (hcounters k).1
    · rw [hkeys]
      exact (hcounters k).2
  · cases hc : current lists l.content.pubkey with
    | none => exact absurd (by rw [hlatest, hc]; rfl) haccept
    | some c =>
      have hlt : l.rank < c.rank := by
        refine lt_of_not_ge fun hle => haccept ?_
        rw [hlatest, hc]
        exact decide_eq_true (replaces_iff.mpr hle)
      have hsame := current_append_of_newer hc hlt
      rw [upsertContactList, if_neg haccept]
      refine ⟨fun author => ?_, fun author k => ?_, fun id hid => ?_, h.follower, h.following⟩
      · rw [hsame, h.latest]
      · rw [h.edges, currentContacts, currentContacts, hsame]
      · obtain ⟨l', hmem, hl'⟩ := h.claimed id hid
        exact ⟨l', mem_append_left _ hmem, hl'⟩

theorem inv_projectAll (stored : EventTable) (calls : List (Environment × String)) :
    Loaded stored (processed stored calls) ∧
      Inv (processed stored calls) (projectAll stored calls) := by
  induction calls using List.reverseRecOn with
  | nil => exact ⟨fun l hl => absurd hl not_mem_nil, inv_empty⟩
  | append_singleton calls c ih =>
    obtain ⟨hloaded, hinv⟩ := ih
    have hrun : projectAll stored (calls ++ [c]) =
        (projectContactListsLatest stored c.1 (projectAll stored calls) c.2).toOption.getD
          (projectAll stored calls) := by
      rw [projectAll, foldl_append]
      rfl
    rw [hrun, processed, filterMap_append, ← processed]
    cases hl : loadList stored c.2 with
    | none =>
      rw [loadList_eq_none hl]
      simpa [hl] using And.intro hloaded hinv
    | some l =>
      obtain ⟨hcontent, hcall⟩ := loadList_eq_some hl
      have happend : Loaded stored (processed stored calls ++ [l]) := by
        intro x hx
        rcases mem_append.mp hx with hx | hx
        · exact hloaded x hx
        · rw [mem_singleton.mp hx]
          exact hcontent
      rw [hcall]
      simpa [hl, Except.toOption] using
        And.intro happend (inv_upsertContactList hinv happend)

def OnCurrentList (lists : List ContactList) (author k : String) : Prop :=
  ∃ l, current lists author = some l ∧ Names l.content.tags k

theorem mem_currentContacts {author k : String} :
    k ∈ currentContacts lists author ↔ OnCurrentList lists author k := by
  unfold currentContacts OnCurrentList
  cases current lists author with
  | none => simp
  | some l => simpa using mem_contacts

/-- After any calls the edges of every author are those of the latest list processed, and the
counters of every profile are the numbers of its edges. -/
theorem projectAll_counts (stored : EventTable) (calls : List (Environment × String)) :
    (∀ author, ((projectAll stored calls).followed author).Nodup ∧
      ∀ k, k ∈ (projectAll stored calls).followed author ↔
        OnCurrentList (processed stored calls) author k) ∧ ∀ pubkey,
      counter ProfileStats.followerCount (projectAll stored calls).profiles pubkey =
        (projectAll stored calls).followerEdges pubkey ∧
      counter ProfileStats.followingCount (projectAll stored calls).profiles pubkey =
        (projectAll stored calls).followingEdges pubkey := by
  obtain ⟨-, hinv⟩ := inv_projectAll stored calls
  constructor
  · refine fun author => ⟨nodup_followed, fun k => ?_⟩
    rw [mem_followed, hinv.edges, mem_currentContacts]
  · intro pubkey
    rw [followerEdges_eq, followingEdges_eq]
    exact ⟨hinv.follower pubkey, hinv.following pubkey⟩

end NostrMash.ContactLists
