import NostrMash.ContactCounts
import NostrMash.TrustGraph

/-!
# Runs of the trust graph

Contact lists are projected, seeds change, and any number of refreshes and recounts are under way.
Each statement of a refresh or a recount sees what is committed when it runs, and its own writes are
seen by others when it commits.
-/

namespace NostrMash.TrustGraph
open AuthorStats ContactLists KeyedTable List

section
variable {D : Deltas} {author : String} {trustedStep sign : ℤ} {l : List String} {F : Set String}
  {T : KeyedTable String ProfileStats}

structure Spares (F : Set String) (D : Deltas) : Prop where
  trimmed : ∀ p d, D.get p = some d → trimSpace p = p
  trusted : ∀ p ∈ F, ∀ d, D.get p = some d → d.trustedFollower = 0

theorem Spares.bump (h : Spares F D) (p : String) {d : FollowerDelta}
    (hd : trimSpace p ∈ F → d.trustedFollower = 0) : Spares F (bump D p d) := by
  unfold ContactLists.bump
  split_ifs
  · exact h
  · refine ⟨fun q e hq => ?_, fun q hF e hq => ?_⟩
    · by_cases heq : q = trimSpace p
      · rw [heq, trimSpace_trimSpace]
      · rw [get_upsert_ne heq] at hq
        exact h.trimmed q e hq
    · by_cases heq : q = trimSpace p
      · subst heq
        rw [get_upsert_self] at hq
        cases hq
        cases hold : D.get (trimSpace p) with
        | none => exact hd hF
        | some old => simp [FollowerDelta.add, h.trusted _ hF old hold, hd hF]
      · rw [get_upsert_ne heq] at hq
        exact h.trusted q hF e hq

theorem Spares.foldl (h : Spares F D) (hl : ∀ p ∈ l, trimSpace p ∈ F → trustedStep = 0) :
    Spares F (l.foldl (bumpEdge author trustedStep sign) D) := by
  induction l generalizing D with
  | nil => exact h
  | cons p l ih =>
    obtain ⟨hfirst, hrest⟩ := forall_mem_cons.mp hl
    refine ih ((h.bump author fun _ => rfl).bump p fun hF => ?_) hrest
    simp [hfirst hF]

theorem spares_edgeDeltas {prev next : List String}
    (h : ∀ p ∈ prev ++ next, trimSpace p ∈ F → trustedStep = 0) :
    Spares F (edgeDeltas author trustedStep prev next) := by
  obtain ⟨hprev, hnext⟩ := forall_mem_append.mp h
  refine Spares.foldl (Spares.foldl ⟨?_, ?_⟩ fun p hp => ?_) fun p hp => ?_
  · exact fun p d hp => nomatch hp
  · exact fun p _ d hp => nomatch hp
  · exact hnext p (mem_of_mem_filter hp)
  · exact hprev p (mem_of_mem_filter hp)

theorem trimmed_writtenDeltas (hT : ∀ p ∈ T.keys, trimSpace p = p) (hD : Spares F D) :
    ∀ p ∈ (T.upsertAll (writtenDeltas D) FollowerDelta.insert FollowerDelta.update).keys,
      trimSpace p = p := by
  intro p hp
  rcases mem_keys_upsertAll.mp hp with hwritten | hold
  · obtain ⟨row, hmem, rfl⟩ := mem_map.mp hwritten
    exact hD.trimmed row.1 row.2 (mem_writtenDeltas.mp hmem).1
  · exact hT p hold

def Untrusted (F : Set String) (T : KeyedTable String ProfileStats) : Prop :=
  ∀ p ∈ F, ∀ row, T.get p = some row → row.trustedFollowerCount = 0

theorem untrusted_writtenDeltas (hT : Untrusted F T) (hD : Spares F D) : Untrusted F
      (T.upsertAll (writtenDeltas D) FollowerDelta.insert FollowerDelta.update) := by
  intro p hF row hrow
  by_cases hp : p ∈ (writtenDeltas D).map Prod.fst
  · obtain ⟨⟨q, d⟩, hmem, rfl⟩ := mem_map.mp hp
    have hzero := hD.trusted q hF d (mem_writtenDeltas.mp hmem).1
    rw [get_upsertAll_of_mem nodup_writtenDeltas hmem] at hrow
    cases hrow
    cases hold : T.get q with
    | none => simp [FollowerDelta.insert, hzero]
    | some old => simp [FollowerDelta.update, hzero, hT q hF old hold]
  · rw [get_upsertAll_of_notMem hp] at hrow
    exact hT p hF row hrow

end

section
variable {stored : EventTable} {env : Environment}

theorem trimmed_upsertContactList {S : FollowTables} {l : ContactList} :
    (∀ key ∈ (upsertContactList env l.content.pubkey l.row S.tables).edges.keys,
        trimSpace key.1 = key.1) ∧
      ∀ p ∈ (upsertContactList env l.content.pubkey l.row S.tables).profiles.keys,
        trimSpace p = p := by
  by_cases haccept : (S.tables.latest.get l.content.pubkey).all fun old => l.row.Replaces old
  · obtain ⟨-, hedges, -, hprofiles⟩ :=
      upsertContactList_spec env l.content.pubkey l.row haccept
    have hclean : Clean l.row.contacts := clean_contacts _
    rw [hedges, keys_rewriteEdges hclean, hprofiles]
    constructor
    · rintro ⟨followed, author⟩ hkey
      rw [EdgeCounts.mem_redirect] at hkey
      split_ifs at hkey
      · exact hclean.trimmed followed (mem_toFinset.mp hkey)
      · exact S.followed_trimmed _ hkey
    · split
      · exact S.profiles_trimmed
      · exact trimmed_writtenDeltas (F := ∅) S.profiles_trimmed
          (spares_edgeDeltas fun _ _ h => h.elim)
  · rw [upsertContactList, if_neg haccept]
    exact ⟨S.followed_trimmed, S.profiles_trimmed⟩

theorem project_cases (stored : EventTable) (env : Environment) (S : Tables) (eventID : String) :
    (∃ l : ContactList, stored.content l.id = some l.content ∧
      (projectContactListsLatest stored env S eventID).toOption.getD S =
        upsertContactList env l.content.pubkey l.row S) ∨
      (projectContactListsLatest stored env S eventID).toOption.getD S = S := by
  cases hload : loadList stored eventID with
  | none => exact .inr (loadList_eq_none hload env S)
  | some l =>
    obtain ⟨hstored, hproject⟩ := loadList_eq_some hload
    refine .inl ⟨l, hstored, ?_⟩
    rw [hproject env S]
    rfl

def FollowTables.projectContactListsLatest (S : FollowTables) (stored : EventTable)
    (env : Environment) (eventID : String) : FollowTables where
  tables := (ContactLists.projectContactListsLatest stored env S.tables eventID).toOption.getD
    S.tables
  followed_trimmed := by
    rcases project_cases stored env S.tables eventID with ⟨l, -, hproject⟩ | hproject
    · rw [hproject]
      exact trimmed_upsertContactList.1
    · rw [hproject]
      exact S.followed_trimmed
  profiles_trimmed := by
    rcases project_cases stored env S.tables eventID with ⟨l, -, hproject⟩ | hproject
    · rw [hproject]
      exact trimmed_upsertContactList.2
    · rw [hproject]
      exact S.profiles_trimmed

end

inductive Phase where
  | idle
  | reached (draft : Snapshot)
  | merged (draft : Snapshot)
  | counted (counts : Counted)
  | cleared (counts : Counted) (pubkeys : List String)

structure State (τ : Type) where
  follows : FollowTables
  activeSeeds : List String
  snapshot : Snapshot
  hops : PublishedHops
  phase : τ → Phase

inductive Action (τ : Type) where
  | projectContactList (now maxHops : ℤ) (eventID : String)
  | setActiveSeeds (seeds : List String)
  | rebuildSnapshot (t : τ) (maxHops : ℤ)
  | mergeLargeAccounts (t : τ)
  | commitSnapshot (t : τ) (scored : List String)
  | refreshTrustPubkeysLatest (scored : List String)
  | countTrusted (t : τ) (maxHops : ℤ)
  | clearAbsent (t : τ)
  | commitCounts (t : τ)
  | rollback (t : τ)

variable {τ : Type} [DecidableEq τ]

def State.goto (s : State τ) (t : τ) (p : Phase) : State τ :=
  { s with phase := Function.update s.phase t p }

def step (stored : EventTable) (untrustedWeightPositive : Bool) (s : State τ) :
    Action τ → Option (State τ)
  | .projectContactList now maxHops eventID =>
    let env : Environment := ⟨now, untrustedWeightPositive, maxHops, s.hops.get⟩
    some { s with follows := s.follows.projectContactListsLatest stored env eventID }
  | .setActiveSeeds seeds => some { s with activeSeeds := seeds }
  | .rebuildSnapshot t maxHops =>
    match s.phase t with
    | .idle =>
      some (s.goto t (.reached (rebuildSnapshot s.follows.tables s.activeSeeds maxHops)))
    | _ => none
  | .mergeLargeAccounts t =>
    match s.phase t with
    | .reached draft =>
      some (s.goto t (.merged (mergeLargeAccounts s.follows.tables.profiles draft)))
    | _ => none
  | .commitSnapshot t scored =>
    match s.phase t with
    | .merged draft =>
      some { s.goto t .idle with
        snapshot := draft, hops := refreshTrustPubkeysLatest draft scored }
    | _ => none
  | .refreshTrustPubkeysLatest scored =>
    some { s with hops := refreshTrustPubkeysLatest s.snapshot scored }
  | .countTrusted t maxHops =>
    match s.phase t with
    | .idle =>
      some (s.goto t (.counted (countTrusted ⟨maxHops, untrustedWeightPositive⟩ s.hops s.follows)))
    | _ => none
  | .clearAbsent t =>
    match s.phase t with
    | .counted counts => some (s.goto t (.cleared counts (absent counts s.follows.tables)))
    | _ => none
  | .commitCounts t =>
    match s.phase t with
    | .cleared counts pubkeys =>
      some { s.goto t .idle with follows := writeCounts counts pubkeys s.follows }
    | _ => none
  | .rollback t => some (s.goto t .idle)

end NostrMash.TrustGraph
