import NostrMash.DiscoveryFormulas

/-!
# The full scan as a sum over the stored events

Once the tables hold the rows of all stored events, the joins of the full scan count each event
for the author whom it engages with, with the events that are stored now.
-/

namespace NostrMash.Discovery
open AuthorStats ProjectedTable List Option

section
variable (reader : RequestReader) (content : String → StoredContent)

def currentRows (s : DiscoveryState) : List LedgerRow := s.stored.map fun id => (id, s.stored)

structure Projected (s : DiscoveryState) : Prop where
  nodup : s.stored.Nodup
  replies : Projects (fun id => some (replyTargets (contents content id))) {id | id ∈ s.stored}
    s.replyContributions
  reactions : Projects (fun id => projectReactionEvents (contents content id))
    {id | id ∈ s.stored} s.reactionEvents
  reposts : Projects (fun id => projectRepostEvents (contents content id)) {id | id ∈ s.stored}
    s.repostEvents
  zaps : Projects (fun id => projectZapReceipts reader (contents content id))
    {id | id ∈ s.stored} s.zapReceipts
  edges : Projects (fun id => threadParent (contents content id)) {id | id ∈ s.stored}
    s.threadEdges

def kindSum (s : DiscoveryState) (pubkey : String) (cutoff : ℤ) (kind : ℕ) : ℤ :=
  (s.stored.map fun id =>
    if (content id).kind = kind ∧ received reader content (id, s.stored) = some pubkey ∧
      cutoff ≤ (content id).createdAt then (1 : ℤ) else 0).sum

end

variable {e : EventContent} {id : String}

section
variable {reader : RequestReader} {content : String → StoredContent} {stored : List String}

theorem engaged_eq_some_iff {author : String} :
    engaged (lookupEventPubkey (contents content) stored) e = some author ↔
      engagementTarget e ≠ "" ∧ engagementTarget e ∈ stored ∧
        (content (engagementTarget e)).pubkey = author ∧ e.pubkey ≠ author := by
  have hne : (contents content (engagementTarget e)).pubkey ≠ "" :=
    (content (engagementTarget e)).pubkey_ne
  rw [engaged_eq, engagedAuthor, lookupEventPubkey]
  by_cases ht : engagementTarget e = ""
  · simp [ht]
  by_cases hs : engagementTarget e ∈ stored
  · simp only [ht, hs, if_true, if_false, filter_eq_some_iff, Option.some.injEq,
      decide_eq_true_eq, ne_eq, not_false_eq_true, true_and]
    constructor
    · rintro ⟨rfl, -, hself⟩
      exact ⟨rfl, fun h => hself h.symm⟩
    · rintro ⟨rfl, hself⟩
      exact ⟨rfl, hne, fun h => hself h.symm⟩
  · simp [ht, hs]

theorem received_of_engagement (hk : (content id).kind ≠ 9735) :
    received reader content (id, stored) =
      engaged (lookupEventPubkey (contents content) stored) (contents content id) := by
  simp [received, receiver, zapReceiver, contents, hk]

theorem received_of_zap (hk : (content id).kind = 9735) :
    received reader content (id, stored) = zapReceiver reader (contents content id) := by
  simp [received, receiver, engaged, contents, hk]

theorem kind_of_received {pubkey : String}
    (h : received reader content (id, stored) = some pubkey) :
    (content id).kind = 1 ∨ (content id).kind = 6 ∨ (content id).kind = 7 ∨
      (content id).kind = 9735 := by
  by_contra hk
  simp only [not_or] at hk
  rw [received_of_engagement hk.2.2.2, engaged_eq_some_iff] at h
  exact h.1 (by simp [engagementTarget, contents, hk])

end

variable {reader : RequestReader} {content : String → StoredContent} {s : DiscoveryState}
  {pubkey : String} {now cutoff : ℤ}

theorem natCast_countP {α : Type*} (p : α → Bool) (l : List α) :
    ((l.countP p : ℕ) : ℤ) = (l.map fun a => if p a then 1 else 0).sum := by
  induction l with
  | nil => rfl
  | cons a l ih => cases hp : p a <;> simp [hp, ih, add_comm]

theorem isReply_eq (h : Projected reader content s) (hid : id ∈ s.stored) :
    isReply s id = decide ((content id).kind = 1 ∧ replyTarget (contents content id) ≠ "") := by
  have hedge : isReply s id = true ↔ ∃ parent, (id, parent) ∈ s.threadEdges := by
    simp [isReply]
  rw [Bool.eq_iff_iff, hedge, h.edges.exists_iff, isSome_threadParent, decide_eq_true_iff,
    decide_eq_true_iff]
  exact and_iff_right hid

theorem countP_notes (h : Projected reader content s) (hc : IsCutoff now cutoff) (reply : Bool) :
    (((((authoredIn content s pubkey now).filter fun id => cutoff ≤ (content id).createdAt).filter
      fun id => (content id).kind = 1).countP fun id => isReply s id == reply : ℕ) : ℤ) =
      authoredSum content (if reply then .replyCount else .noteCount) (currentRows s) pubkey
        cutoff := by
  rw [natCast_countP, sum_filter, sum_filter, authoredIn, sum_filter, authoredSum, currentRows,
    List.map_map]
  congr 1
  refine map_congr_left fun id hid => ?_
  have hreply := isReply_eq h hid
  by_cases hwindow : (content id).pubkey = pubkey ∧ cutoff ≤ (content id).createdAt
  · have h30 := hc.ge.trans hwindow.2
    by_cases hk : (content id).kind = 1
    · cases reply <;> simp [hreply, hwindow, h30, hk, contents]
    · cases reply <;> simp [hk, contents]
  · rw [Function.comp_apply, if_neg hwindow]
    rcases not_and_or.mp hwindow with hp | hcut
    · simp [hp]
    · simp [hcut]

theorem received_iff (hk : (content id).kind ≠ 9735) :
    received reader content (id, s.stored) = some pubkey ↔
      engagementTarget (contents content id) ≠ "" ∧
        engagementTarget (contents content id) ∈ s.stored ∧
        (content (engagementTarget (contents content id))).pubkey = pubkey ∧
        (content id).pubkey ≠ pubkey := by
  rw [received_of_engagement hk, engaged_eq_some_iff]
  rfl

theorem count_time (P : Prop) [Decidable P] (t cutoff : ℤ) :
    ((if P then some t else none).map fun a => if decide (cutoff ≤ a) then (1 : ℤ) else 0).getD 0 =
      if P ∧ cutoff ≤ t then 1 else 0 := by
  by_cases hP : P
  · by_cases ht : cutoff ≤ t <;> simp [hP, ht]
  · simp [hP]

theorem countP_replyTimes (h : Projected reader content s) (hc : IsCutoff now cutoff) :
    (((replyTimes content s pubkey now).countP (cutoff ≤ ·) : ℕ) : ℤ) =
      kindSum reader content s pubkey cutoff 1 := by
  rw [natCast_countP, replyTimes, sum_flatMap, h.replies.sum_map h.nodup fun _ => Iff.rfl, kindSum]
  congr 1
  refine map_congr_left fun id hid => ?_
  rw [map_some, getD_some, sum_filterMap, replyTargets_eq]
  simp only [count_time]
  by_cases hk : (content id).kind = 1
  · have htarget : engagementTarget (contents content id) = replyTarget (contents content id) :=
      if_pos hk
    have hiff : received reader content (id, s.stored) = some pubkey ↔ _ :=
      received_iff (by rw [hk]; decide)
    rw [htarget] at hiff
    by_cases ht : replyTarget (contents content id) = ""
    · simp [hiff, ht]
    rw [if_pos ⟨hk, ht⟩, map_singleton, sum_singleton]
    refine if_congr ?_ rfl rfl
    rw [hiff]
    constructor
    · rintro ⟨⟨-, hstored, hpubkey, hself, -⟩, hcut⟩
      exact ⟨hk, ⟨ht, hstored, hpubkey, hself⟩, hcut⟩
    · rintro ⟨-, ⟨-, hstored, hpubkey, hself⟩, hcut⟩
      exact ⟨⟨hid, hstored, hpubkey, hself, hc.ge.trans hcut⟩, hcut⟩
  · simp [contents, hk]

theorem countP_interactionTimes (h : Projected reader content s) (hc : IsCutoff now cutoff)
    {kind : ℕ} (hkind : kind = 6 ∨ kind = 7) {table : List (String × InteractionRow)}
    (htable : Projects (fun id => projectInteractionEvent (contents content id) kind)
      {id | id ∈ s.stored} table) :
    (((interactionTimes content s table pubkey now).countP (cutoff ≤ ·) : ℕ) : ℤ) =
      kindSum reader content s pubkey cutoff kind := by
  rw [natCast_countP, interactionTimes, sum_filterMap, htable.sum_map h.nodup fun _ => Iff.rfl,
    kindSum]
  congr 1
  refine map_congr_left fun id _ => ?_
  simp only [count_time]
  by_cases hk : (content id).kind = kind
  · have htarget : engagementTarget (contents content id) =
        interactionTarget (contents content id) := by
      have h1 : (contents content id).kind ≠ 1 := by
        show (content id).kind ≠ 1
        omega
      rw [interactionTarget_eq, engagementTarget, if_neg h1, if_pos (hk ▸ hkind)]
    have hiff : received reader content (id, s.stored) = some pubkey ↔ _ :=
      received_iff (by omega)
    rw [htarget] at hiff
    by_cases hblank : interactionTarget (contents content id) = ""
    · simp [projectInteractionEvent, hblank, hiff]
    have hrow : ¬ ((contents content id).kind ≠ kind ∨
        interactionTarget (contents content id) = "") := not_or.mpr ⟨not_ne_iff.mpr hk, hblank⟩
    rw [projectInteractionEvent, if_neg hrow, map_some, getD_some]
    refine if_congr ?_ rfl rfl
    rw [hiff]
    constructor
    · rintro ⟨⟨hstored, hpubkey, hself, -⟩, hcut⟩
      exact ⟨hk, ⟨hblank, hstored, hpubkey, hself⟩, hcut⟩
    · rintro ⟨-, ⟨-, hstored, hpubkey, hself⟩, hcut⟩
      exact ⟨⟨hstored, hpubkey, hself, hc.ge.trans hcut⟩, hcut⟩
  · simp [projectInteractionEvent, contents, hk]

theorem zapReceiver_eq_some_iff (hk : e.kind = 9735) :
    zapReceiver reader e = some pubkey ↔
      (if firstTagValue e.tags "p" = "" then none else some (firstTagValue e.tags "p")) =
          some pubkey ∧ zapReceiptSender reader e.pubkey e.tags ≠ pubkey := by
  simp only [zapReceiver, hk, true_and, ite_none_right_eq_some,
    ite_none_left_eq_some, Option.some.injEq]
  constructor
  · rintro ⟨⟨hblank, hself⟩, rfl⟩
    exact ⟨⟨hblank, rfl⟩, hself.symm⟩
  · rintro ⟨⟨hblank, rfl⟩, hself⟩
    exact ⟨⟨hblank, Ne.symm hself⟩, rfl⟩

theorem sum_zaps (h : Projected reader content s) (hc : IsCutoff now cutoff) (g : ZapRow → ℤ) :
    (((zapsTo s pubkey now).filter fun row => cutoff ≤ row.createdAt).map g).sum =
      (s.stored.map fun id =>
        if (content id).kind = 9735 ∧ received reader content (id, s.stored) = some pubkey ∧
          cutoff ≤ (content id).createdAt then
          ((projectZapReceipts reader (contents content id)).map g).getD 0
        else 0).sum := by
  rw [zapsTo, sum_filter, sum_filter, List.map_map, h.zaps.sum_map h.nodup fun _ => Iff.rfl]
  congr 1
  refine map_congr_left fun id _ => ?_
  by_cases hk : (content id).kind = 9735
  · have hkind : (contents content id).kind = 9735 := hk
    simp only [projectZapReceipts, hkind, hk, ne_eq, not_true_eq_false, if_false, map_some,
      getD_some, Function.comp_apply, decide_eq_true_eq, true_and, ← ite_and]
    refine if_congr ?_ rfl rfl
    rw [received_of_zap hk, zapReceiver_eq_some_iff hkind]
    constructor
    · rintro ⟨⟨hreceiver, hsender, -⟩, hcut⟩
      exact ⟨⟨hreceiver, hsender⟩, hcut⟩
    · rintro ⟨⟨hreceiver, hsender⟩, hcut⟩
      exact ⟨⟨hreceiver, hsender, hc.ge.trans hcut⟩, hcut⟩
  · simp [projectZapReceipts, contents, hk]

theorem length_zaps (h : Projected reader content s) (hc : IsCutoff now cutoff) :
    ((((zapsTo s pubkey now).filter fun row => cutoff ≤ row.createdAt).length : ℕ) : ℤ) =
      kindSum reader content s pubkey cutoff 9735 := by
  have hlength : ∀ l : List ZapRow, ((l.length : ℕ) : ℤ) = (l.map fun _ => (1 : ℤ)).sum := by
    simp
  rw [hlength, sum_zaps h hc, kindSum]
  congr 1
  refine map_congr_left fun id _ => ?_
  by_cases hk : (content id).kind = 9735
  · simp [projectZapReceipts, contents, hk]
  · simp [hk]

theorem receivedSum_currentRows :
    receivedSum reader content .engagementReceived (currentRows s) pubkey cutoff =
      kindSum reader content s pubkey cutoff 1 + kindSum reader content s pubkey cutoff 6 +
        kindSum reader content s pubkey cutoff 7 + kindSum reader content s pubkey cutoff 9735 := by
  simp only [kindSum, ← sum_map_add, receivedSum, currentRows, List.map_map]
  congr 1
  refine map_congr_left fun id _ => ?_
  by_cases hr : received reader content (id, s.stored) = some pubkey ∧
      cutoff ≤ (content id).createdAt
  · rcases kind_of_received hr.1 with hk | hk | hk | hk <;> simp [hr, hk]
  · simp [hr]

theorem zapVolume_eq (h : Projected reader content s) (hc : IsCutoff now cutoff)
    (hz : ∀ id ∈ s.stored, ZapFits reader (contents content) id) :
    (((zapsTo s pubkey now).filter fun row => cutoff ≤ row.createdAt).map fun row =>
      row.amountSats * 1000).sum =
        receivedSum reader content .zapMsatsReceived (currentRows s) pubkey cutoff := by
  rw [sum_zaps h hc, receivedSum, currentRows, List.map_map]
  congr 1
  refine map_congr_left fun id hid => ?_
  rw [Function.comp_apply]
  by_cases hr : received reader content (id, s.stored) = some pubkey ∧
      cutoff ≤ (content id).createdAt
  · rcases kind_of_received hr.1 with hk | hk | hk | hk
    · simp [hr, hk, receiverCounts, contents]
    · simp [hr, hk, receiverCounts, contents]
    · simp [hr, hk, receiverCounts, contents]
    · have hsome : (zapReceiver reader (contents content id)).isSome := by
        rw [← received_of_zap hk, hr.1]
        rfl
      have hmsats := zapMsats_of_fits (hz id hid hsome)
      simp only [contents] at hmsats
      simp [hr, hk, receiverCounts, contents, projectZapReceipts, hmsats]
  · simp [hr]

theorem fullWindow_eq (h : Projected reader content s) (hc : IsCutoff now cutoff)
    (hz : ∀ id ∈ s.stored, ZapFits reader (contents content) id) :
    fullWindow content s pubkey now cutoff =
      windowOf reader content (currentRows s) pubkey cutoff := by
  simp only [fullWindow, windowOf, WindowMetrics.mk.injEq]
  refine ⟨?_, ?_, ?_, zapVolume_eq h hc hz, ?_⟩
  · simpa using countP_notes h hc false
  · simpa using countP_notes h hc true
  · rw [countP_append, countP_append, receivedSum_currentRows, ← countP_replyTimes h hc,
      ← countP_interactionTimes h hc (.inl rfl) h.reposts,
      ← countP_interactionTimes h hc (.inr rfl) h.reactions, ← length_zaps h hc]
    push_cast
    rfl
  · congr 1
    ext date
    simp only [authoredIn, currentRows, List.mem_toFinset, List.mem_map, mem_filter,
      decide_eq_true_eq]
    constructor
    · rintro ⟨id, ⟨⟨⟨hid, hpubkey, -⟩, hcut⟩, -⟩, hdate⟩
      exact ⟨(id, s.stored), ⟨⟨id, hid, rfl⟩, hpubkey, hcut⟩, hdate⟩
    · rintro ⟨row, ⟨⟨id, hid, rfl⟩, hpubkey, hcut⟩, hdate⟩
      exact ⟨id, ⟨⟨⟨hid, hpubkey, hc.ge.trans hcut⟩, hcut⟩, (content id).createdAt_le⟩, hdate⟩

end NostrMash.Discovery
