import Mathlib
import NostrMash.ThreadReplies

/-!
# Thread windows from an ascending scan

A store without the descending query is scanned in ascending order, and only as many of the last
replies are kept as the window can need. With a cursor the scan ends at the reply of the cursor.
-/

namespace NostrMash.Threads
open PageScan KeysetPaging List Nat

structure ThreadWindowRequest where
  limit : ℕ
  cursor : Option EventCursor
  offset : ℕ

def descendingScanCapacity (req : ThreadWindowRequest) : ℕ :=
  if req.limit = 0 then 1
  else
    match req.cursor with
    | some _ => req.limit + 1
    | none => req.limit + req.offset + 1

def cursorKey (cur : EventCursor) : String := cur.text '/'

def appendTailReplies (dst batch : List Json) (limit : ℕ) : List Json :=
  if limit = 0 then []
  else if limit ≤ batch.length then batch.drop (batch.length - limit)
  else dst.drop (dst.length + batch.length - limit) ++ batch

def appendTailReply (dst : List Json) (value : Json) (limit : ℕ) : List Json :=
  if limit = 0 then []
  else if limit ≤ dst.length then (dst.drop 1).take (limit - 1) ++ [value]
  else dst ++ [value]

def scanReply (req : ThreadWindowRequest) (c : EventCursor) (collected : List Json) (reply : Json) :
    Except (List Json × Option EventCursor) (List Json) :=
  match parseReplyMeta reply with
  | none => .ok collected
  | some m =>
    if m.id = c.id ∧ m.createdAt = c.createdAt then
      .error (windowDescendingReplies collected [] req.limit none 0)
    else .ok (appendTailReply collected reply (descendingScanCapacity req))

def scanReplies (req : ThreadWindowRequest) (collected replies : List Json) :
    Except (List Json × Option EventCursor) (List Json) :=
  match req.cursor with
  | none => .ok (appendTailReplies collected replies (descendingScanCapacity req))
  | some c => replies.foldlM (scanReply req c) collected

def getThreadWindowFromAscendingScan (t : Thread) (req : ThreadWindowRequest)
    (fetchPageSize fuel : ℕ) : Option (List Json × Option EventCursor) :=
  (walk (getEventReplies t fetchPageSize) (scanReplies req) cursorKey fuel none [] []).map fun
    | .error window => window
    | .ok collected =>
      match req.cursor with
      | some _ => ([], none)
      | none => windowDescendingReplies collected [] req.limit none req.offset

section
variable {req : ThreadWindowRequest} {limit : ℕ}

theorem descendingScanCapacity_pos (req : ThreadWindowRequest) :
    0 < descendingScanCapacity req := by
  unfold descendingScanCapacity
  split
  · exact one_pos
  · split <;> exact succ_pos _

theorem appendTailReplies_eq (hlimit : 0 < limit) (dst batch : List Json) :
    appendTailReplies dst batch limit = (dst ++ batch).rtake limit := by
  rw [appendTailReplies, if_neg (ne_of_gt hlimit), List.rtake, drop_append, length_append]
  split_ifs with hfull
  · have hdst : dst.length ≤ dst.length + batch.length - limit := by omega
    have hbatch : dst.length + batch.length - limit - dst.length = batch.length - limit := by omega
    rw [drop_of_length_le hdst, nil_append, hbatch]
  · have hzero : dst.length + batch.length - limit - dst.length = 0 := by omega
    rw [hzero, drop_zero]

theorem appendTailReply_eq (hlimit : 0 < limit) {dst : List Json} (hdst : dst.length ≤ limit)
    (value : Json) : appendTailReply dst value limit = (dst ++ [value]).rtake limit := by
  obtain ⟨n, rfl⟩ := exists_eq_succ_of_ne_zero (ne_of_gt hlimit)
  rw [appendTailReply, if_neg (succ_ne_zero n), rtake_concat_succ]
  split_ifs with hfull
  · have hlen : dst.length - n = 1 := by omega
    rw [List.rtake, hlen, take_of_length_le (by rw [length_drop]; omega)]
  · rw [rtake_of_length_le (by omega)]

theorem scanReplies_append (req : ThreadWindowRequest) (collected as bs : List Json) :
    scanReplies req collected (as ++ bs) =
      (scanReplies req collected as).bind (scanReplies req · bs) := by
  unfold scanReplies
  cases req.cursor with
  | none =>
    simp only [appendTailReplies_eq (descendingScanCapacity_pos req), Except.bind,
      rtake_append_rtake, append_assoc]
  | some c => exact foldlM_append

end

section
variable {t : Thread} {req : ThreadWindowRequest} {c : EventCursor} {A B : List Reply} {r : Reply}

theorem windowDescendingReplies_raw (rows : List Reply) (limit offset : ℕ) :
    windowDescendingReplies (rows.map Reply.raw) [] limit none offset =
      replyPage limit (rows.reverse.drop offset) := by
  have hordered : toDescendingReplies (rows.map Reply.raw) = rows.reverse.map Reply.ordered :=
    toDescendingReplies_raw rows
  simp only [windowDescendingReplies, isEmpty_nil, if_true, hordered, paginateReplies_eq_cut,
    windowStart, ← map_drop, cut_map, replyPage, Prod.map, map_map, Option.map_map]
  rfl

theorem scanReply_raw (req : ThreadWindowRequest) (c : EventCursor) (collected : List Json)
    (r : Reply) : scanReply req c collected r.raw =
      if r.key = toLex (c.createdAt, c.id) then
        .error (windowDescendingReplies collected [] req.limit none 0)
      else .ok (appendTailReply collected r.raw (descendingScanCapacity req)) := by
  have hkey : r.key = toLex (c.createdAt, c.id) ↔ r.id = c.id ∧ r.createdAt = c.createdAt := by
    rw [Reply.key, toLex_inj, Prod.mk.injEq, and_comm]
  simp only [scanReply, r.raw_meta, hkey]

theorem foldlM_scanReply (hA : ∀ r ∈ A, r.key ≠ toLex (c.createdAt, c.id)) {collected : List Json}
    (hlen : collected.length ≤ descendingScanCapacity req) :
    (A.map Reply.raw).foldlM (scanReply req c) collected =
      .ok ((collected ++ A.map Reply.raw).rtake (descendingScanCapacity req)) := by
  induction A generalizing collected with
  | nil =>
    rw [map_nil, append_nil, rtake_of_length_le hlen]
    rfl
  | cons r A ih =>
    rw [forall_mem_cons] at hA
    rw [map_cons, foldlM_cons, scanReply_raw, if_neg hA.1,
      appendTailReply_eq (descendingScanCapacity_pos req) hlen]
    refine (ih hA.2 (length_rtake_le _ _)).trans ?_
    rw [rtake_append_rtake, append_assoc, singleton_append]

theorem rtake_map_raw (L : List Reply) (n : ℕ) :
    (L.map Reply.raw).rtake n = (L.rtake n).map Reply.raw := by
  rw [List.rtake, List.rtake, length_map, map_drop]

theorem window_of_tail (L : List Reply) (limit offset : ℕ) :
    windowDescendingReplies ((L.map Reply.raw).rtake (limit + offset + 1)) [] limit none offset =
      replyPage limit (L.reverse.drop offset) := by
  have hsub : limit + offset + 1 - offset = limit + 1 := by omega
  rw [rtake_map_raw, windowDescendingReplies_raw, rtake_eq_reverse_take_reverse,
    reverse_reverse, drop_take, hsub, replyPage_take]

theorem scan_to_cursor (hcap : descendingScanCapacity req = req.limit + 1)
    (hA : ∀ s ∈ A, s.key ≠ toLex (c.createdAt, c.id)) (hr : r.key = toLex (c.createdAt, c.id)) :
    ((A ++ r :: B).map Reply.raw).foldlM (scanReply req c) [] =
      .error (replyPage req.limit A.reverse) := by
  have hbefore : (A.map Reply.raw).foldlM (scanReply req c) [] =
      .ok ((A.map Reply.raw).rtake (descendingScanCapacity req)) :=
    foldlM_scanReply hA (zero_le _)
  have hat : scanReply req c ((A.map Reply.raw).rtake (descendingScanCapacity req)) r.raw =
      .error (replyPage req.limit A.reverse) := by
    rw [scanReply_raw, if_pos hr, hcap, window_of_tail A req.limit 0, drop_zero]
  rw [map_append, foldlM_append, hbefore, map_cons]
  change List.foldlM (scanReply req c) _ (r.raw :: B.map Reply.raw) = _
  rw [foldlM_cons, hat]
  rfl

theorem getThreadWindowFromAscendingScan_eq (hlimit : 0 < req.limit) (fetchPageSize : ℕ)
    {fuel : ℕ} (hfuel : t.replies.length < fuel) :
    getThreadWindowFromAscendingScan t req fetchPageSize fuel = some (threadWindow t req.limit
      (req.cursor.map fun c => toLex (c.createdAt, c.id)) req.offset) := by
  have hperm : (ascending Reply.key t.replies).Perm t.replies := perm_descending t.replies
  have hids : ((ascending Reply.key t.replies).map Reply.id).Nodup :=
    (hperm.map Reply.id).nodup_iff.mpr t.child_key
  have hmark : ((ascending Reply.key t.replies).map fun r => cursorKey r.cursor).Nodup :=
    Reply.nodup_cursor_text (by decide) (by decide) hids
  have hwalk : walk (getEventReplies t fetchPageSize) (scanReplies req) cursorKey fuel none [] [] =
      some (scanReplies req [] ((ascending Reply.key t.replies).map Reply.raw)) :=
    walk_eq (pages_getEventReplies t fetchPageSize) (repliesLimit_pos _) hmark
      (scanReplies_append req) fuel [] _ [] [] (hperm.length_eq ▸ hfuel) rfl le_rfl (by simp)
  rw [getThreadWindowFromAscendingScan, hwalk, Option.map_some, scanReplies]
  cases hcursor : req.cursor with
  | none =>
    have hcap : descendingScanCapacity req = req.limit + req.offset + 1 := by
      rw [descendingScanCapacity, if_neg (ne_of_gt hlimit), hcursor]
    have htail := appendTailReplies_eq (descendingScanCapacity_pos req) []
      ((ascending Reply.key t.replies).map Reply.raw)
    rw [hcap, nil_append] at htail
    simp only [hcap, htail, window_of_tail, ← descending_eq_reverse]
    rfl
  | some c =>
    have hcap : descendingScanCapacity req = req.limit + 1 := by
      rw [descendingScanCapacity, if_neg (ne_of_gt hlimit), hcursor]
    simp only [threadWindow, Option.map_some]
    by_cases hmem : toLex (c.createdAt, c.id) ∈ t.replies.map Reply.key
    · obtain ⟨r, hr, hrc⟩ := mem_map.mp hmem
      have hasc : r ∈ ascending Reply.key t.replies := mem_ascending.mpr hr
      obtain ⟨A, B, hL⟩ := append_of_mem hasc
      have hA : ∀ s ∈ A, s.key ≠ toLex (c.createdAt, c.id) := by
        intro s hs hsc
        have hnd := Reply.nodup_key hids
        rw [hL, map_append, nodup_append] at hnd
        exact hnd.2.2 _ (mem_map_of_mem hs) _ (mem_map_of_mem (.head _))
          (hsc.trans hrc.symm)
      rw [hL, scan_to_cursor hcap hA hrc, ← hrc, older_eq_reverse hL]
    · have hnone : ∀ r ∈ ascending Reply.key t.replies, r.key ≠ toLex (c.createdAt, c.id) :=
        fun r hr hrc => hmem (mem_map.mpr ⟨r, mem_ascending.mp hr, hrc⟩)
      have hscan : ((ascending Reply.key t.replies).map Reply.raw).foldlM (scanReply req c) [] =
          .ok _ := foldlM_scanReply hnone (zero_le _)
      rw [hscan, older_of_notMem hmem, replyPage_nil]

end

/-- A cursor with white space around its identifier is at no reply once it is trimmed, or at the
oldest one. -/
def CursorAgrees (t : Thread) (cursor : Option EventCursor) : Prop :=
  ∀ c ∈ cursor, trimSpace c.id = c.id ∨
    ∀ r ∈ t.replies, r.key = toLex (c.createdAt, trimSpace c.id) → ∀ s ∈ t.replies, r.key ≤ s.key

def twoReplies : Thread :=
  { replies := [Reply.plain "a" 1 (by decide), Reply.plain "b" 2 (by decide)]
    child_key := by decide }

end NostrMash.Threads
