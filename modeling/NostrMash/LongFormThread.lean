import NostrMash.ThreadReplies

/-!
# The thread of a long-form article

The replies below an article come from three places: the thread edges, which are read in pages, the
comments, which are added behind the first of these pages, and the notes with an `a` tag for the
article, of which a number is read that depends on the page limit.
-/

namespace NostrMash.Threads
open PageScan KeysetPaging List

structure Article where
  thread : Thread
  /-- The comments of kind 1111 on the article or its address. -/
  comments : List Reply
  /-- The notes of kind 1 with an `a` tag for the article, one row for each such tag. -/
  aTagRows : List Reply
  comment_key : (comments.map Reply.id).Nodup
  /-- Comments and notes are of different kinds. -/
  comment_kind : ∀ c ∈ comments, ∀ r ∈ thread.replies ++ aTagRows, r.id ≠ c.id
  /-- Rows with one identifier are rows of one event. -/
  aTag_event : ∀ a ∈ aTagRows, ∀ r ∈ thread.replies ++ aTagRows, a.id = r.id → a = r

def toInt (v : Option ℤ) (fallback : ℕ) : ℕ :=
  match v with
  | some value => if 0 < value then value.toNat else fallback
  | none => fallback

def toBoundedPositiveInt (v : Option ℤ) (fallback max : ℕ) : ℕ :=
  let value := toInt v fallback
  if value = 0 then fallback else min value max

def toBoundedNonNegativeInt (v : Option ℤ) (fallback max : ℕ) : ℕ :=
  min (v.getD fallback).toNat max

def clampPageLimit (limit : ℕ) : ℕ := if limit = 0 then 20 else min limit 100

def getEventComments (a : Article) (limit : ℕ) : List Json :=
  ((ascending Reply.key a.comments).take (clampPageLimit limit)).map Reply.raw

def appendCommentEvents (a : Article) (replies : List Json) : List Json :=
  replies ++ getEventComments a 100

def getThreadView (a : Article) (limit : ℕ) (cursor : Option EventCursor) :
    List Json × Option EventCursor :=
  let page := getEventReplies a.thread limit cursor
  match cursor with
  | none => (appendCommentEvents a page.1, page.2)
  | some _ => page

def collectReplies (collected replies : List Json) : Except Empty (List Json) :=
  .ok (collected ++ replies)

def collectThreadRepliesDescending (a : Article) (fuel : ℕ) : Option (List Json) :=
  (walk (getThreadView a 100) collectReplies (EventCursor.text ':') fuel none [] []).map fun
    | .ok collected => collected

def getEventsByATagAndKind (a : Article) (limit : ℕ) : List Json :=
  let limit := if limit = 0 then 20 else min limit 5000
  ((descending Reply.key a.aTagRows).take limit).map Reply.raw

def getLongFormThreadATagReplies (a : Article) (limit : ℕ) : List Json :=
  getEventsByATagAndKind a (if limit = 0 then 20 else min limit 5000)

def extraLimit (limit offset : ℕ) : ℕ := min (max (limit + offset + 1000) 1000) 5000

def resolveLongFormContentThreadView (a : Article) (fuel : ℕ) (limitArg offsetArg : Option ℤ)
    (cursor : Option EventCursor) : Option (List Json × Option EventCursor) :=
  let limit := toBoundedPositiveInt limitArg 20 100
  let offset := toBoundedNonNegativeInt offsetArg 0 10000
  (collectThreadRepliesDescending a fuel).map fun collected =>
    let aTagReplies := getLongFormThreadATagReplies a (extraLimit limit offset)
    let page := windowDescendingReplies collected aTagReplies limit cursor offset
    (page.1, if page.1.isEmpty then none else page.2)

variable (a : Article)

def collectedRows : List Reply :=
  (ascending Reply.key a.thread.replies).take 100 ++ (ascending Reply.key a.comments).take 100 ++
    (ascending Reply.key a.thread.replies).drop 100

theorem pages_getThreadView : Pages (getThreadView a 100) Reply.raw Reply.cursor 100 1
    (ascending Reply.key a.thread.replies) := by
  intro U V hL hstart
  obtain ⟨U', u, rfl⟩ := (eq_nil_or_concat U).resolve_left (ne_nil_of_length_pos hstart)
  have hlast : (U'.concat u).getLast?.map Reply.cursor = some u.cursor := by simp
  have hpage := pages_getEventReplies a.thread 100 (U'.concat u) V hL (Nat.zero_le _)
  rw [hlast] at hpage ⊢
  exact hpage

theorem getThreadView_none : getThreadView a 100 none =
    (((ascending Reply.key a.thread.replies).take 100 ++
        (ascending Reply.key a.comments).take 100).map Reply.raw,
      (cut 100 (ascending Reply.key a.thread.replies)).2.map Reply.cursor) := by
  have hpage : getEventReplies a.thread 100 none =
      Prod.map (List.map Reply.raw) (Option.map Reply.cursor)
        (cut 100 (ascending Reply.key a.thread.replies)) :=
    pages_getEventReplies a.thread 100 [] _ rfl le_rfl
  rw [getThreadView, hpage, map_append]
  rfl

theorem collectReplies_append (s as bs : List Json) :
    collectReplies s (as ++ bs) = (collectReplies s as).bind (collectReplies · bs) := by
  simp only [collectReplies, Except.bind, append_assoc]

theorem collectThreadRepliesDescending_eq {fuel : ℕ} (hfuel : a.thread.replies.length < fuel) :
    collectThreadRepliesDescending a fuel = some ((collectedRows a).map Reply.raw) := by
  obtain ⟨n, rfl⟩ := Nat.exists_eq_succ_of_ne_zero (by omega : fuel ≠ 0)
  have hperm : (ascending Reply.key a.thread.replies).Perm a.thread.replies :=
    perm_descending a.thread.replies
  have hmark : ((ascending Reply.key a.thread.replies).map fun r => r.cursor.text ':').Nodup :=
    Reply.nodup_cursor_text (by decide) (by decide)
      ((hperm.map Reply.id).nodup_iff.mpr a.thread.child_key)
  have hlen := hperm.length_eq
  have hpages := pages_getThreadView a
  rw [collectThreadRepliesDescending, walk, getThreadView_none, collectedRows]
  generalize ascending Reply.key a.thread.replies = L at *
  by_cases hmore : 100 < L.length
  · obtain ⟨A, r, B, rfl, hcut⟩ := cut_of_lt (by decide) hmore
    have htake : (A ++ [r] ++ B).take 100 = A ++ [r] := congrArg Prod.fst hcut
    have hdrop : (A ++ [r] ++ B).drop 100 = B := by
      have h := take_append_drop 100 (A ++ [r] ++ B)
      rw [htake] at h
      exact append_cancel_left h
    have hne : ((A ++ [r] ++ (ascending Reply.key a.comments).take 100).map Reply.raw).isEmpty =
        false := by
      simp
    have hlast : (A ++ [r]).getLast?.map Reply.cursor = some r.cursor := by simp
    simp only [collectReplies, hcut, htake, hdrop, Option.map_some, nil_append, hne,
      not_mem_nil, or_self, Bool.false_eq_true, if_false]
    rw [← hlast, walk_eq hpages (by decide) hmark collectReplies_append n (A ++ [r]) B]
    · simp [collectReplies]
    · simp only [length_append, length_singleton] at hlen
      omega
    · rfl
    · simp
    · simp
  · rw [cut_of_length_le (Nat.le_of_not_lt hmore), drop_of_length_le (Nat.le_of_not_lt hmore)]
    simp [collectReplies]

end NostrMash.Threads
