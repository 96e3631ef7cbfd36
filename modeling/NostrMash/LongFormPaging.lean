import NostrMash.LongFormRows

/-!
# Paging through the thread of an article

Every page of the thread is cut from the same list of replies and comments, so that following the
cursors reads this list from its beginning to its end.
-/

namespace NostrMash.Threads
open PageScan KeysetPaging List

section
variable (a : Article) (limit : ℕ)

/-- Every reply and comment is shown, once and in descending order. -/
def Shown (out : List Json) : Prop :=
  ∃ rows : List Reply, out = rows.map Reply.raw ∧ rows.Pairwise (fun r s => s.key < r.key) ∧
    ∀ r, r ∈ rows ↔ r ∈ a.thread.replies ∨ r ∈ a.aTagRows ∨ r ∈ a.comments

/-- Following the cursors from the first page on ends, and shows everything. -/
def Complete (fuel : ℕ) (limitArg : Option ℤ) : Prop :=
  ∃ n out, follow (resolveLongFormContentThreadView a fuel limitArg none) n none = some out ∧
    Shown a out

/-- At most a hundred comments; no note with the `a` tag that only stands behind the rows read; and
if there is no such note at all, every comment is later than the first hundred replies and earlier
than all other ones. -/
structure InReach : Prop where
  comments_le : a.comments.length ≤ 100
  aTags : ∀ r ∈ (descending Reply.key a.aTagRows).drop (limit + 1000),
    r ∈ a.thread.replies ∨ r ∈ (descending Reply.key a.aTagRows).take (limit + 1000)
  sorted : a.aTagRows = [] → ∀ c ∈ a.comments,
    (∀ r ∈ (ascending Reply.key a.thread.replies).take 100, r.key < c.key) ∧
      ∀ r ∈ (ascending Reply.key a.thread.replies).drop 100, c.key < r.key

end

section
variable {W U V : List Reply} {limit : ℕ}

theorem windowStart_last (hids : ((U ++ V).map Reply.id).Nodup) :
    windowStart ((U ++ V).map Reply.ordered) (U.getLast?.map Reply.cursor) 0 = U.length := by
  rcases eq_nil_or_concat U with rfl | ⟨U', u, rfl⟩
  · rfl
  · rw [concat_eq_append] at hids ⊢
    have hbefore : ∀ r ∈ U', r.id ≠ u.id := by
      rw [map_append, nodup_append, map_append, nodup_append] at hids
      exact fun r hr => hids.1.2.2 _ (mem_map_of_mem hr) _ (by simp)
    have hnone : (U'.map Reply.ordered).findIdx?
        (fun r => decide (r.id = u.id ∧ r.createdAt = u.createdAt)) = none := by
      rw [List.findIdx?_eq_none_iff, forall_mem_map]
      exact fun r hr => decide_eq_false fun h => hbefore r hr h.1
    have hsplit : (U' ++ [u] ++ V).map Reply.ordered =
        U'.map Reply.ordered ++ u.ordered :: V.map Reply.ordered := by simp
    simp only [List.getLast?_concat, Option.map_some, windowStart, hsplit, Reply.cursor,
      List.findIdx?_append, hnone, Option.none_or, List.findIdx?_cons, Reply.ordered]
    simp

theorem pages_paginateReplies (hids : (W.map Reply.id).Nodup) (limit : ℕ) :
    Pages (fun c => paginateReplies (W.map Reply.ordered) limit c 0) Reply.raw Reply.cursor limit 0
      W := by
  rintro U V rfl _
  dsimp only
  rw [paginateReplies_eq_cut, windowStart_last hids, ← map_drop, drop_left, cut_map]
  simp only [Prod.map, map_map, Option.map_map]
  rfl

theorem paginateReplies_snd_of_isEmpty {D : List OrderedReply} {cursor : Option EventCursor}
    {offset : ℕ} (h : (paginateReplies D limit cursor offset).1.isEmpty = true) :
    (paginateReplies D limit cursor offset).2 = none := by
  rw [paginateReplies_eq_cut] at h ⊢
  have hnil : (D.drop (windowStart D cursor offset)).take limit = [] := by
    simpa [cut] using h
  simp [cut, hnil]

end

section
variable {a : Article} {limitArg : Option ℤ} {fuel : ℕ}

theorem toBoundedPositiveInt_bounds (v : Option ℤ) :
    0 < toBoundedPositiveInt v 20 100 ∧ toBoundedPositiveInt v 20 100 ≤ 100 := by
  simp only [toBoundedPositiveInt]
  split_ifs <;> omega

theorem getLongFormThreadATagReplies_eq (a : Article) {limit : ℕ} (hlimit : limit ≤ 100) :
    getLongFormThreadATagReplies a (extraLimit limit 0) =
      ((descending Reply.key a.aTagRows).take (limit + 1000)).map Reply.raw := by
  have hextra : extraLimit limit 0 = limit + 1000 := by
    unfold extraLimit
    omega
  have hclamp : (if limit + 1000 = 0 then 20 else min (limit + 1000) 5000) = limit + 1000 := by
    rw [if_neg (by omega), Nat.min_eq_left (by omega)]
  simp only [getLongFormThreadATagReplies, getEventsByATagAndKind, hextra, hclamp]

theorem resolveLongFormContentThreadView_eq (hfuel : a.thread.replies.length < fuel)
    (cursor : Option EventCursor) : resolveLongFormContentThreadView a fuel limitArg none cursor =
      some (paginateReplies ((shownRows a (toBoundedPositiveInt limitArg 20 100)).map Reply.ordered)
        (toBoundedPositiveInt limitArg 20 100) cursor 0) := by
  obtain ⟨-, hlimit⟩ := toBoundedPositiveInt_bounds limitArg
  generalize hl : toBoundedPositiveInt limitArg 20 100 = limit at hlimit ⊢
  have hoffset : toBoundedNonNegativeInt none 0 10000 = 0 := rfl
  have hwindow : windowDescendingReplies ((collectedRows a).map Reply.raw)
      (((descending Reply.key a.aTagRows).take (limit + 1000)).map Reply.raw) limit cursor 0 =
        paginateReplies ((shownRows a limit).map Reply.ordered) limit cursor 0 := by
    have hbase : toDescendingReplies ((collectedRows a).map Reply.raw) =
        (collectedRows a).reverse.map Reply.ordered := toDescendingReplies_raw _
    have hextra := toOrderedReplies_raw ((descending Reply.key a.aTagRows).take (limit + 1000))
    have hunique := appendUnique_map [] (collectedRows a).reverse
    rw [map_nil] at hunique
    simp only [windowDescendingReplies, isEmpty_map, hbase, shownRows]
    split_ifs
    · rfl
    · rw [hextra, mergeOrderedReplies, hunique, appendUnique_map, descending_ordered]
  rw [resolveLongFormContentThreadView, collectThreadRepliesDescending_eq a hfuel, Option.map_some]
  simp only [hl, hoffset, getLongFormThreadATagReplies_eq a hlimit, hwindow]
  split_ifs with hempty
  · rw [← paginateReplies_snd_of_isEmpty hempty]
  · rfl

theorem complete_iff_shownRows (hfuel : a.thread.replies.length < fuel) :
    Complete a fuel limitArg ↔
      (shownRows a (toBoundedPositiveInt limitArg 20 100)).Pairwise (fun r s => s.key < r.key) ∧
        ∀ r, r ∈ shownRows a (toBoundedPositiveInt limitArg 20 100) ↔
          r ∈ a.thread.replies ∨ r ∈ a.aTagRows ∨ r ∈ a.comments := by
  have hraw : Function.Injective Reply.raw := fun _ _ => Reply.ext_raw
  rw [Complete, follow_iff (pages_paginateReplies (nodup_shownRows a _) _)
    (toBoundedPositiveInt_bounds limitArg).1 (resolveLongFormContentThreadView_eq hfuel)]
  constructor
  · rintro ⟨rows, hrows, hshown⟩
    exact map_injective_iff.mpr hraw hrows ▸ hshown
  · exact fun hshown => ⟨_, rfl, hshown⟩

end

section
variable {a : Article} {limit : ℕ}

theorem pairwise_ascending_lt {rows : List Reply} (hids : (rows.map Reply.id).Nodup) :
    (ascending Reply.key rows).Pairwise fun r s => r.key < s.key := by
  have hperm : (ascending Reply.key rows).Perm rows := perm_descending rows
  have hkeys : ((ascending Reply.key rows).map Reply.key).Nodup :=
    (hperm.map Reply.key).nodup_iff.mpr (Reply.nodup_key hids)
  have hle : (ascending Reply.key rows).Pairwise fun r s => r.key ≤ s.key := pairwise_ascending rows
  exact hle.imp₂ (fun _ _ => lt_of_le_of_ne) (pairwise_map.mp hkeys)

theorem mem_shownRows_iff : (∀ r, r ∈ shownRows a limit ↔
      r ∈ a.thread.replies ∨ r ∈ a.aTagRows ∨ r ∈ a.comments) ↔
    a.comments.length ≤ 100 ∧ ∀ r ∈ (descending Reply.key a.aTagRows).drop (limit + 1000),
      r ∈ a.thread.replies ∨ r ∈ (descending Reply.key a.aTagRows).take (limit + 1000) := by
  have haTag : ∀ r, r ∈ a.aTagRows ↔
      r ∈ (descending Reply.key a.aTagRows).take (limit + 1000) ∨
        r ∈ (descending Reply.key a.aTagRows).drop (limit + 1000) := by
    intro r
    rw [← mem_append, take_append_drop, (perm_descending _).mem_iff]
  have hkind : ∀ c ∈ a.comments, c ∉ a.thread.replies ∧ c ∉ a.aTagRows := fun c hc =>
    ⟨fun h => a.comment_kind c hc c (mem_append_left _ h) rfl,
      fun h => a.comment_kind c hc c (mem_append_right _ h) rfl⟩
  simp only [mem_shownRows]
  constructor
  · intro h
    constructor
    · have hsub : a.comments ⊆ (ascending Reply.key a.comments).take 100 := by
        intro c hc
        rcases (h c).mpr (.inr (.inr hc)) with hr | hk | hx
        · exact absurd hr (hkind c hc).1
        · exact hk
        · exact absurd (mem_aTagRows_of_take hx) (hkind c hc).2
      exact ((List.Nodup.of_map _ a.comment_key).subperm hsub).length_le.trans
        (length_take_le _ _)
    · intro r hr
      have hrow : r ∈ a.aTagRows := (haTag r).mpr (.inr hr)
      rcases (h r).mpr (.inr (.inl hrow)) with hr | hk | hx
      · exact .inl hr
      · exact absurd hrow (hkind r (mem_comments_of_take hk)).2
      · exact .inr hx
  · rintro ⟨hlen, hdrop⟩ r
    have hperm : (ascending Reply.key a.comments).Perm a.comments := perm_descending a.comments
    rw [take_of_length_le (hperm.length_eq ▸ hlen), mem_ascending, haTag]
    have := hdrop r
    tauto

theorem pairwise_collectedRows (hlen : a.comments.length ≤ 100) :
    (collectedRows a).Pairwise (fun r s => r.key < s.key) ↔ ∀ c ∈ a.comments,
      (∀ r ∈ (ascending Reply.key a.thread.replies).take 100, r.key < c.key) ∧
        ∀ r ∈ (ascending Reply.key a.thread.replies).drop 100, c.key < r.key := by
  have hperm : (ascending Reply.key a.comments).Perm a.comments := perm_descending a.comments
  have hreplies := pairwise_ascending_lt a.thread.child_key
  have hcomments := pairwise_ascending_lt a.comment_key
  rw [← take_append_drop 100 (ascending Reply.key a.thread.replies), pairwise_append] at hreplies
  have htake : (ascending Reply.key a.comments).take 100 = ascending Reply.key a.comments :=
    take_of_length_le (hperm.length_eq ▸ hlen)
  rw [collectedRows, htake, pairwise_append, pairwise_append]
  simp only [mem_append]
  constructor
  · rintro ⟨⟨-, -, hfirst⟩, -, hlast⟩ c hc
    have hasc : c ∈ ascending Reply.key a.comments := mem_ascending.mpr hc
    exact ⟨fun r hr => hfirst r hr c hasc, fun r hr => hlast c (.inr hasc) r hr⟩
  · intro h
    refine ⟨⟨hreplies.1, hcomments, fun r hr c hc => (h c (mem_ascending.mp hc)).1 r hr⟩,
      hreplies.2.1, ?_⟩
    rintro s (hs | hs) r hr
    · exact hreplies.2.2 s hs r hr
    · exact (h s (mem_ascending.mp hs)).2 r hr

theorem pairwise_shownRows (haTags : a.aTagRows ≠ []) :
    (shownRows a limit).Pairwise fun r s => s.key < r.key := by
  have hkeys := Reply.nodup_key (nodup_shownRows a limit)
  have hle : (shownRows a limit).Pairwise fun r s => s.key ≤ r.key := by
    rw [shownRows, if_neg (mt extra_isEmpty.mp haTags)]
    exact pairwise_descending _
  exact hle.imp₂ (fun _ _ hle hne => lt_of_le_of_ne hle (Ne.symm hne)) (pairwise_map.mp hkeys)

end

/-- Following the cursors shows every reply and comment once and in descending order exactly when
all of them are in reach. -/
theorem longForm_complete_iff (a : Article) (limitArg : Option ℤ) (fuel : ℕ)
    (hfuel : a.thread.replies.length < fuel) :
    Complete a fuel limitArg ↔ InReach a (toBoundedPositiveInt limitArg 20 100) := by
  rw [complete_iff_shownRows hfuel, mem_shownRows_iff]
  have hnil : a.aTagRows = [] → shownRows a (toBoundedPositiveInt limitArg 20 100) =
      (collectedRows a).reverse := fun h => if_pos (extra_isEmpty.mpr h)
  constructor
  · rintro ⟨hsorted, hlen, haTags⟩
    refine ⟨hlen, haTags, fun h => ?_⟩
    rw [hnil h, pairwise_reverse] at hsorted
    exact (pairwise_collectedRows hlen).mp hsorted
  · rintro ⟨hlen, haTags, hsorted⟩
    refine ⟨?_, hlen, haTags⟩
    by_cases h : a.aTagRows = []
    · rw [hnil h, pairwise_reverse]
      exact (pairwise_collectedRows hlen).mpr (hsorted h)
    · exact pairwise_shownRows h

def oneReply : Thread :=
  { replies := [Reply.plain "d" 2 (by decide)], child_key := by decide }

def commentedArticle (createdAt : ℤ)
    (h : parseReplyMeta (.obj [("id", .str "c"), ("created_at", .int createdAt)]) =
      some { createdAt := createdAt, id := "c" }) : Article :=
  { thread := oneReply, comments := [Reply.plain "c" createdAt h], aTagRows := []
    comment_key := nodup_singleton _
    comment_kind := by
      intro c hc r hr
      rw [mem_singleton.mp hc, mem_singleton.mp hr]
      exact (by decide : "d" ≠ "c")
    aTag_event := by simp }

/-- A comment that is later than the reply is shown before it. -/
theorem later_comment_complete : Complete (commentedArticle 3 (by decide)) 2 none :=
  (longForm_complete_iff (commentedArticle 3 (by decide)) none 2 (by decide)).mpr
    ⟨by decide, by simp [commentedArticle, descending], fun _ => by decide⟩

/-- A comment that is earlier than the reply is shown before it as well. -/
theorem earlier_comment_not_complete :
    ¬ Complete (commentedArticle 1 (by decide)) 2 none := by
  have hfuel : (commentedArticle 1 (by decide)).thread.replies.length < 2 := by decide
  rw [complete_iff_shownRows hfuel]
  rintro ⟨hsorted, -⟩
  revert hsorted
  decide

end NostrMash.Threads
