import NostrMash.DiscoveryWindows

/-!
# What one event adds to the discovery windows

The two loaders read the target of an event, the author of that target and the receiver of a zap
through different code. They agree on all of them.
-/

namespace NostrMash.Discovery
open AuthorStats Option List

section
variable (lookup : String → Option String) (e : EventContent)

def engagementTarget : String :=
  if e.kind = 1 then replyTarget e
  else if e.kind = 6 ∨ e.kind = 7 then firstReferencedEventID e.tags
  else ""

theorem engaged_eq : engaged lookup e = engagedAuthor lookup e (engagementTarget e) := by
  unfold engaged engagementTarget
  split_ifs
  · rfl
  · rfl
  · simp [engagedAuthor]

theorem ids_deriveETagReferences (tags : List Tag) :
    (deriveETagReferences tags).map (·.id) = (rawRefs tags).map (·.id) := by
  simp [deriveETagReferences, assignLegacyRelations, Function.comp_def]

theorem id_of_rawRef {i : ℕ} {tag : Tag} {ref : RawRef} (h : rawRef i tag = some ref) :
    trimSpace ref.id = ref.id ∧ ref.id ≠ "" := by
  unfold rawRef at h
  split at h
  · split_ifs at h with hblank
    cases h
    exact ⟨trimSpace_trimSpace _, (not_or.mp hblank).2⟩
  · exact nomatch h

theorem id_of_mem_references {tags : List Tag} {x : String}
    (h : x ∈ (deriveETagReferences tags).map (·.id)) : trimSpace x = x ∧ x ≠ "" := by
  rw [ids_deriveETagReferences] at h
  obtain ⟨ref, href, rfl⟩ := mem_map.mp h
  obtain ⟨p, -, hp⟩ := mem_filterMap.mp href
  exact id_of_rawRef hp

theorem head?_rawRefs (tags : List Tag) (i : ℕ) :
    ((tags.zipIdx i).filterMap fun p => (rawRef p.2 p.1).map (·.id)).head?.getD "" =
      firstTagValue tags "e" := by
  induction tags generalizing i with
  | nil => rfl
  | cons tag tags ih =>
    match tag with
    | [] => simpa [rawRef, firstTagValue] using ih (i + 1)
    | [_] => simpa [rawRef, firstTagValue] using ih (i + 1)
    | name :: value :: rest =>
      by_cases hname : name = "e" ∧ trimSpace value ≠ ""
      · simp [rawRef, firstTagValue, hname.1, hname.2]
      · have hnot : name ≠ "e" ∨ trimSpace value = "" := by
          rwa [not_and_or, not_ne_iff] at hname
        simpa [rawRef, firstTagValue, hnot, hname] using ih (i + 1)

theorem interactionTarget_eq : interactionTarget e = firstReferencedEventID e.tags := by
  have hids : (deriveETagReferences e.tags).map (fun ref => trimSpace ref.id) =
      (deriveETagReferences e.tags).map (·.id) :=
    map_congr_left fun ref href => (id_of_mem_references (mem_map_of_mem href)).1
  have hfind : ((deriveETagReferences e.tags).map (·.id)).find? (· ≠ "") =
      ((deriveETagReferences e.tags).map (·.id)).head? := by
    cases hl : (deriveETagReferences e.tags).map (·.id) with
    | nil => rfl
    | cons x l =>
      have hx : x ≠ "" := (id_of_mem_references (hl ▸ mem_cons_self)).2
      simp [hx]
  rw [interactionTarget, hids, hfind, ids_deriveETagReferences, rawRefs, map_filterMap,
    firstReferencedEventID, head?_rawRefs]

theorem trimSpace_replyTarget (h : replyTarget e ≠ "") :
    trimSpace (replyTarget e) = replyTarget e := by
  have hmem : ∀ relation,
      firstReferenceByRelation (deriveETagReferences e.tags) relation ≠ "" →
        firstReferenceByRelation (deriveETagReferences e.tags) relation ∈
          (deriveETagReferences e.tags).map (·.id) := by
    intro relation hne
    unfold firstReferenceByRelation at hne ⊢
    cases hfind : (deriveETagReferences e.tags).find? (·.relation = relation) with
    | none => simp [hfind] at hne
    | some ref =>
      rw [map_some, getD_some]
      exact mem_map_of_mem (mem_of_find?_eq_some hfind)
  unfold replyTarget replyParentEventID at h ⊢
  dsimp only at h ⊢
  split_ifs at h ⊢ with hreply
  · exact (id_of_mem_references (hmem _ hreply)).1
  · exact (id_of_mem_references (hmem _ h)).1

theorem replyTargets_eq :
    replyTargets e = if e.kind = 1 ∧ replyTarget e ≠ "" then [replyTarget e] else [] := by
  by_cases hk : e.kind = 1
  · by_cases ht : replyTarget e = ""
    · simp [replyTargets, CountFamily.projector, normalizeUniqueIDs, hk, ht, ← replyTarget.eq_1]
    · have htrim := trimSpace_replyTarget e ht
      simp [replyTargets, CountFamily.projector, normalizeUniqueIDs, hk, ht, ← replyTarget.eq_1,
        htrim]
  · simp [replyTargets, CountFamily.projector, normalizeUniqueIDs, hk]

theorem isSome_threadParent :
    (threadParent e).isSome = decide (e.kind = 1 ∧ replyTarget e ≠ "") := by
  by_cases hk : e.kind = 1
  · have hparent : (if firstReferenceByRelation (deriveETagReferences e.tags) .reply = "" then
        firstReferenceByRelation (deriveETagReferences e.tags) .root
      else firstReferenceByRelation (deriveETagReferences e.tags) .reply) = replyTarget e := by
      simp [replyTarget, replyParentEventID]
    by_cases ht : replyTarget e = ""
    · simp [threadParent, hk, hparent, ht]
    · simp [threadParent, hk, hparent, ht]
  · simp [threadParent, hk]

end

variable (reader : RequestReader) (lookup : String → Option String) (e : EventContent)

def receiver : Option String := (engaged lookup e).or (zapReceiver reader e)

def authorCounts : HourlyField → ℤ :=
  counts (if e.kind = 1 then hourlyPost e else [(.authoredEventCount, 1)])

def receiverCounts : HourlyField → ℤ :=
  counts ((.engagementReceived, 1) :: if e.kind = 1 then [(.replyReceived, 1)]
    else if e.kind = 6 ∨ e.kind = 7 then
      [(if e.kind = 7 then .reactionReceived else .repostReceived, 1)]
    else [(.zapReceived, 1), (.zapMsatsReceived, zapMsats reader e.tags)])

theorem computeHourlyActivityDeltas_eq : computeHourlyActivityDeltas reader lookup e =
    (hourlyKey e.pubkey e.createdAt, authorCounts e) ::
      (receiver reader lookup e).toList.map fun author =>
        (hourlyKey author e.createdAt, receiverCounts reader e) := by
  by_cases h1 : e.kind = 1
  · cases ht : engagedAuthor lookup e (replyTarget e) with
    | none =>
      simp [computeHourlyActivityDeltas, receiver, engaged, zapReceiver, authorCounts, h1, ht]
    | some author =>
      simp [computeHourlyActivityDeltas, receiver, engaged, authorCounts, receiverCounts, h1, ht]
  by_cases h6 : e.kind = 6 ∨ e.kind = 7
  · have hz : e.kind ≠ 9735 := by omega
    cases ht : engagedAuthor lookup e (firstReferencedEventID e.tags) with
    | none =>
      simp [computeHourlyActivityDeltas, receiver, engaged, zapReceiver, authorCounts, h1, h6, hz,
        ht]
    | some author =>
      simp [computeHourlyActivityDeltas, receiver, engaged, authorCounts, receiverCounts, h1, h6,
        ht]
  by_cases hz : e.kind = 9735
  · by_cases hself : firstTagValue e.tags "p" = "" ∨
        firstTagValue e.tags "p" = zapReceiptSender reader e.pubkey e.tags
    · have hnot : zapReceiver reader e = none := by
        simpa [zapReceiver, hz, or_iff_not_imp_left] using hself
      simp [computeHourlyActivityDeltas, receiver, engaged, authorCounts, hz, hself, hnot]
    · obtain ⟨hblank, hsender⟩ := not_or.mp hself
      simp [computeHourlyActivityDeltas, receiver, engaged, zapReceiver, authorCounts,
        receiverCounts, hz, hblank, hsender]
  · simp [computeHourlyActivityDeltas, receiver, engaged, zapReceiver, authorCounts, h1, h6, hz]

theorem receiver_ne {author : String} (h : receiver reader lookup e = some author) :
    author ≠ "" := by
  rw [receiver, or_eq_some_iff] at h
  rcases h with h | ⟨-, h⟩
  · rw [engaged_eq, engagedAuthor] at h
    split_ifs at h
    obtain ⟨-, hne⟩ := filter_eq_some_iff.mp h
    exact (of_decide_eq_true hne).1
  · unfold zapReceiver at h
    simp only [ite_none_right_eq_some, Option.some.injEq] at h
    exact h.2 ▸ h.1.2.1

@[simp] theorem authorCounts_noteCount :
    authorCounts e .noteCount = if e.kind = 1 ∧ replyTarget e = "" then 1 else 0 := by
  by_cases hk : e.kind = 1
  · by_cases ht : replyTarget e = "" <;> simp [authorCounts, hourlyPost, hk, ht]
  · simp [authorCounts, hk]

@[simp] theorem authorCounts_replyCount :
    authorCounts e .replyCount = if e.kind = 1 ∧ replyTarget e ≠ "" then 1 else 0 := by
  by_cases hk : e.kind = 1
  · by_cases ht : replyTarget e = "" <;> simp [authorCounts, hourlyPost, hk, ht]
  · simp [authorCounts, hk]

@[simp] theorem authorCounts_authoredEventCount : authorCounts e .authoredEventCount = 1 := by
  by_cases hk : e.kind = 1 <;> simp [authorCounts, hourlyPost, hk]

@[simp] theorem authorCounts_engagementReceived : authorCounts e .engagementReceived = 0 := by
  by_cases hk : e.kind = 1
  · by_cases ht : replyTarget e = "" <;> simp [authorCounts, hourlyPost, hk, ht]
  · simp [authorCounts, hk]

@[simp] theorem authorCounts_zapMsatsReceived : authorCounts e .zapMsatsReceived = 0 := by
  by_cases hk : e.kind = 1
  · by_cases ht : replyTarget e = "" <;> simp [authorCounts, hourlyPost, hk, ht]
  · simp [authorCounts, hk]

@[simp] theorem receiverCounts_engagementReceived :
    receiverCounts reader e .engagementReceived = 1 := by
  simp [receiverCounts]

def HourlyField.IsAuthored (f : HourlyField) : Prop :=
  f = .noteCount ∨ f = .replyCount ∨ f = .authoredEventCount

theorem receiverCounts_of_isAuthored {f : HourlyField} (hf : HourlyField.IsAuthored f) :
    receiverCounts reader e f = 0 := by
  rcases hf with rfl | rfl | rfl <;>
    by_cases h1 : e.kind = 1 <;> by_cases h7 : e.kind = 7 <;> by_cases h6 : e.kind = 6 <;>
      simp [receiverCounts, h1, h6, h7]

end NostrMash.Discovery
