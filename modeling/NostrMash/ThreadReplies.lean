import NostrMash.CursorScan
import NostrMash.ReplyWindow

/-!
# The replies of a thread, by page

The store returns the direct replies to an event in pages, in ascending order behind a cursor or in
descending order below one. The descending query trims the identifier of its cursor and returns
nothing if no reply has it.
-/

namespace NostrMash.Threads
open PageScan KeysetPaging List

/-- The replies to a stored event: the rows of `thread_edges` with this parent and their events. -/
structure Thread where
  replies : List Reply
  child_key : (replies.map Reply.id).Nodup

def replyPage (limit : ℕ) (rowsOut : List Reply) : List Json × Option EventCursor :=
  Prod.map (List.map Reply.raw) (Option.map Reply.cursor) (cut limit rowsOut)

def repliesLimit (limit : ℕ) : ℕ := if limit = 0 then 50 else min limit 200

def getEventReplies (t : Thread) (limit : ℕ) (cursor : Option EventCursor) :
    List Json × Option EventCursor :=
  let limit := repliesLimit limit
  let rows :=
    match cursor with
    | none => t.replies
    | some c => t.replies.filter fun r => toLex (c.createdAt, c.id) < r.key
  replyPage limit ((ascending Reply.key rows).take (limit + 1))

def getEventRepliesDescending (t : Thread) (limit : ℕ) (cursor : Option EventCursor)
    (offset : ℕ) : List Json × Option EventCursor :=
  if limit = 0 then ([], none)
  else
    let limit := min limit 200
    match cursor with
    | none => replyPage limit (((descending Reply.key t.replies).drop offset).take (limit + 1))
    | some c =>
      let cursorID := trimSpace c.id
      if cursorID = "" then ([], none)
      else if t.replies.any fun r => r.createdAt = c.createdAt ∧ r.id = cursorID then
        let rows := t.replies.filter fun r => r.key < toLex (c.createdAt, cursorID)
        replyPage limit ((descending Reply.key rows).take (limit + 1))
      else ([], none)

def older (t : Thread) (k : ℤ ×ₗ String) : List Reply :=
  if k ∈ t.replies.map Reply.key then
    descending Reply.key (t.replies.filter fun r => r.key < k)
  else []

def threadWindow (t : Thread) (limit : ℕ) (position : Option (ℤ ×ₗ String)) (offset : ℕ) :
    List Json × Option EventCursor :=
  replyPage limit <|
    match position with
    | none => (descending Reply.key t.replies).drop offset
    | some k => older t k

variable {t : Thread} {A B : List Reply} {r : Reply} {k : ℤ ×ₗ String} {limit : ℕ}

theorem repliesLimit_pos (limit : ℕ) : 0 < repliesLimit limit := by
  unfold repliesLimit
  split_ifs <;> omega

@[simp] theorem replyPage_take (limit : ℕ) (rows : List Reply) :
    replyPage limit (rows.take (limit + 1)) = replyPage limit rows := by
  rw [replyPage, cut_take, replyPage]

theorem replyPage_nil (limit : ℕ) : replyPage limit [] = ([], none) := by
  simp [replyPage, cut]

theorem replyPage_eq_nil (hlimit : 0 < limit) : replyPage limit A = ([], none) ↔ A = [] := by
  refine ⟨fun h => ?_, fun h => h ▸ replyPage_nil limit⟩
  have hfst : (A.take limit).map Reply.raw = [] := congrArg Prod.fst h
  rw [map_eq_nil_iff, take_eq_nil_iff] at hfst
  exact hfst.resolve_left (Nat.ne_of_gt hlimit)

theorem descending_eq_reverse (t : Thread) :
    descending Reply.key t.replies = (ascending Reply.key t.replies).reverse := by
  have hperm : t.replies.Perm (ascending Reply.key t.replies).reverse :=
    (perm_descending t.replies).symm.trans (reverse_perm _).symm
  refine descending_eq hperm (pairwise_reverse.mpr (pairwise_ascending t.replies)) ?_
  exact (hperm.map Reply.key).nodup_iff.mp (Reply.nodup_key t.child_key)

theorem older_of_notMem (h : k ∉ t.replies.map Reply.key) : older t k = [] := if_neg h

theorem older_eq_reverse (h : ascending Reply.key t.replies = A ++ r :: B) :
    older t r.key = A.reverse := by
  have hr : r ∈ ascending Reply.key t.replies := h ▸ mem_append_right A (.head _)
  have hdesc : descending Reply.key t.replies = (B.reverse ++ [r]) ++ A.reverse := by
    rw [descending_eq_reverse, h]
    simp
  have hquery : descending Reply.key (keysetQuery Reply.key t.replies (fun _ => false)
      ((B.reverse ++ [r]).getLast?.map Reply.key)) = A.reverse :=
    descending_keysetQuery hdesc (Reply.nodup_key t.child_key) fun _ _ => rfl
  rw [older, if_pos (mem_map_of_mem (mem_ascending.mp hr))]
  simpa [keysetQuery] using hquery

theorem older_eq_nil : older t k = [] ↔
    ∀ r ∈ t.replies, r.key = k → ∀ s ∈ t.replies, r.key ≤ s.key := by
  by_cases hk : k ∈ t.replies.map Reply.key
  · have hnil : older t k = [] ↔ ∀ s ∈ t.replies, k ≤ s.key := by
      rw [older, if_pos hk, ← length_eq_zero_iff, (perm_descending _).length_eq,
        length_eq_zero_iff, filter_eq_nil_iff]
      simp
    obtain ⟨r, hr, rfl⟩ := mem_map.mp hk
    rw [hnil]
    exact ⟨fun h s hs hsk => hsk ▸ h, fun h => h r hr rfl⟩
  · rw [older, if_neg hk]
    refine iff_of_true rfl fun r hr hrk => absurd (mem_map.mpr ⟨r, hr, hrk⟩) hk

theorem pages_getEventReplies (t : Thread) (limit : ℕ) :
    Pages (getEventReplies t limit) Reply.raw Reply.cursor (repliesLimit limit) 0
      (ascending Reply.key t.replies) := by
  intro U V hL _
  have hkeys : (t.replies.map fun r => OrderDual.toDual r.key).Nodup := by
    refine List.Nodup.of_map OrderDual.ofDual ?_
    rw [map_map]
    exact Reply.nodup_key t.child_key
  have hquery := descending_keysetQuery hL hkeys fun _ _ => rfl
  simp only [getEventReplies, replyPage_take]
  refine congrArg (replyPage (repliesLimit limit)) (Eq.trans ?_ hquery)
  cases U.getLast? with
  | none => rfl
  | some r =>
    simp only [Option.map_some, keysetQuery, Bool.false_or]
    rfl

theorem getEventRepliesDescending_eq (hlimit : 0 < limit ∧ limit ≤ 200)
    (cursor : Option EventCursor) (offset : ℕ) :
    getEventRepliesDescending t limit cursor offset = threadWindow t limit
      (cursor.map fun c => toLex (c.createdAt, trimSpace c.id)) offset := by
  simp only [getEventRepliesDescending, if_neg (Nat.ne_of_gt hlimit.1), Nat.min_eq_left hlimit.2,
    replyPage_take]
  cases cursor with
  | none => rfl
  | some c =>
    have hany : (t.replies.any fun r => r.createdAt = c.createdAt ∧ r.id = trimSpace c.id) = true ↔
        toLex (c.createdAt, trimSpace c.id) ∈ t.replies.map Reply.key := by
      simp only [any_eq_true, decide_eq_true_eq, mem_map, Reply.key, toLex_inj, Prod.mk.injEq]
    simp only [threadWindow, Option.map_some, hany]
    split_ifs with hblank hmem
    · have hnone : toLex (c.createdAt, trimSpace c.id) ∉ t.replies.map Reply.key := by
        rw [hblank, mem_map]
        rintro ⟨r, -, hr⟩
        exact r.trimSpace_id.2 (Prod.mk.inj (toLex.injective hr)).2
      rw [older_of_notMem hnone, replyPage_nil]
    · rw [older, if_pos hmem]
    · rw [older_of_notMem hmem, replyPage_nil]

end NostrMash.Threads
