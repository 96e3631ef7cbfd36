import NostrMash.KeysetPaging
import NostrMash.PageScan
import NostrMash.Processor
import Mathlib.Data.Prod.Lex

/-!
# Windows over replies

A window is cut from replies in descending order. The replies come as raw JSON, from which time and
identifier are decoded; what does not decode, or has a blank identifier, is left out.
-/

namespace NostrMash.Threads
open PageScan List

structure EventCursor where
  createdAt : ℤ
  id : String
  deriving DecidableEq

def EventCursor.text (sep : Char) (c : EventCursor) : String :=
  toString c.createdAt ++ String.singleton sep ++ trimSpace c.id

structure ReplyMeta where
  createdAt : ℤ
  id : String
  deriving DecidableEq

structure OrderedReply where
  raw : Json
  createdAt : ℤ
  id : String

namespace OrderedReply

def key (r : OrderedReply) : ℤ ×ₗ String := toLex (r.createdAt, r.id)

def cursor (r : OrderedReply) : EventCursor := ⟨r.createdAt, r.id⟩

end OrderedReply

def parseReplyMeta (raw : Json) : Option ReplyMeta := do
  let payload ← Live.decodeProbe raw
  let id := trimSpace payload.id
  if id = "" then none else some { createdAt := payload.createdAt, id := id }

def toOrderedReply (raw : Json) : Option OrderedReply :=
  (parseReplyMeta raw).map fun m => { raw := raw, createdAt := m.createdAt, id := m.id }

def toOrderedReplies (values : List Json) : List OrderedReply := values.filterMap toOrderedReply

def toDescendingReplies (values : List Json) : List OrderedReply :=
  values.reverse.filterMap toOrderedReply

def windowStart (descReplies : List OrderedReply) (cursor : Option EventCursor) (offset : ℕ) : ℕ :=
  match cursor with
  | none => offset
  | some c =>
    match descReplies.findIdx? fun r => r.id = c.id ∧ r.createdAt = c.createdAt with
    | some idx => idx + 1
    | none => descReplies.length

def paginateReplies (descReplies : List OrderedReply) (limit : ℕ) (cursor : Option EventCursor)
    (offset : ℕ) : List Json × Option EventCursor :=
  let start := min (windowStart descReplies cursor offset) descReplies.length
  let stop := min (start + limit) descReplies.length
  let window := (descReplies.take stop).drop start
  (window.map (·.raw),
    if stop < descReplies.length then window.getLast?.map OrderedReply.cursor else none)

def appendUnique {α : Type} (idOf : α → String) (merged values : List α) : List α :=
  values.foldl
    (fun merged value =>
      if idOf value = "" ∨ idOf value ∈ merged.map idOf then merged else merged ++ [value])
    merged

def mergeOrderedReplies (base extra : List OrderedReply) : List OrderedReply :=
  KeysetPaging.descending OrderedReply.key
    (appendUnique OrderedReply.id (appendUnique OrderedReply.id [] base) extra)

def windowDescendingReplies (baseReplies extraReplies : List Json) (limit : ℕ)
    (cursor : Option EventCursor) (offset : ℕ) : List Json × Option EventCursor :=
  let baseOrdered := toDescendingReplies baseReplies
  if extraReplies.isEmpty then paginateReplies baseOrdered limit cursor offset
  else
    paginateReplies (mergeOrderedReplies baseOrdered (toOrderedReplies extraReplies)) limit cursor
      offset

/-- A stored reply. -/
structure Reply where
  id : String
  createdAt : ℤ
  raw : Json
  raw_meta : parseReplyMeta raw = some { createdAt := createdAt, id := id }

namespace Reply

def key (r : Reply) : ℤ ×ₗ String := toLex (r.createdAt, r.id)

def cursor (r : Reply) : EventCursor := ⟨r.createdAt, r.id⟩

def ordered (r : Reply) : OrderedReply := ⟨r.raw, r.createdAt, r.id⟩

def plain (id : String) (createdAt : ℤ)
    (h : parseReplyMeta (.obj [("id", .str id), ("created_at", .int createdAt)]) =
      some { createdAt := createdAt, id := id }) : Reply :=
  { id := id, createdAt := createdAt, raw := _, raw_meta := h }

theorem toOrderedReply_raw (r : Reply) : toOrderedReply r.raw = some r.ordered := by
  rw [toOrderedReply, r.raw_meta]
  rfl

theorem trimSpace_id (r : Reply) : trimSpace r.id = r.id ∧ r.id ≠ "" := by
  have h := r.raw_meta
  simp only [parseReplyMeta, Option.bind_eq_bind, Option.bind_eq_some_iff] at h
  obtain ⟨payload, -, h⟩ := h
  split_ifs at h with hblank
  obtain ⟨-, hid⟩ := ReplyMeta.mk.inj (Option.some.inj h)
  rw [← hid]
  exact ⟨trimSpace_trimSpace _, hblank⟩

theorem ext_raw {r s : Reply} (hraw : r.raw = s.raw) : r = s := by
  have h := r.raw_meta.symm.trans ((congrArg parseReplyMeta hraw).trans s.raw_meta)
  obtain ⟨ht, hid⟩ := ReplyMeta.mk.inj (Option.some.inj h)
  cases r
  cases s
  cases ht
  cases hid
  cases hraw
  rfl

variable {rows : List Reply}

theorem nodup_key (h : (rows.map Reply.id).Nodup) : (rows.map Reply.key).Nodup := by
  refine List.Nodup.of_map (fun k => (ofLex k).2) ?_
  rwa [map_map]

theorem nodup_cursor_text {sep : Char} (hdigit : sep.isDigit = false) (hminus : sep ≠ '-')
    (h : (rows.map Reply.id).Nodup) : (rows.map fun r => r.cursor.text sep).Nodup := by
  have hpair : rows.Pairwise fun r s => r.id ≠ s.id := pairwise_map.mp h
  refine pairwise_map.mpr (hpair.imp fun {r s} hne heq => hne ?_)
  have hlist := congrArg String.toList heq
  simp only [EventCursor.text, Reply.cursor, r.trimSpace_id.1, s.trimSpace_id.1,
    String.toList_append, String.toList_singleton, append_assoc, singleton_append]
    at hlist
  exact String.toList_inj.mp (eq_of_append_sep_eq (notMem_toString_int hdigit hminus _)
    (notMem_toString_int hdigit hminus _) hlist)

end Reply

theorem toOrderedReplies_raw (rows : List Reply) :
    toOrderedReplies (rows.map (·.raw)) = rows.map Reply.ordered := by
  rw [toOrderedReplies, filterMap_map]
  have hsome : toOrderedReply ∘ (fun r : Reply => r.raw) = fun r => some r.ordered :=
    funext Reply.toOrderedReply_raw
  rw [hsome, filterMap_eq_map']

theorem toDescendingReplies_raw (rows : List Reply) :
    toDescendingReplies (rows.map (·.raw)) = rows.reverse.map Reply.ordered := by
  rw [← toOrderedReplies_raw, map_reverse]
  rfl

variable {D : List OrderedReply} {limit : ℕ} {cursor : Option EventCursor} {offset : ℕ}

theorem paginateReplies_eq_cut (D : List OrderedReply) (limit : ℕ) (cursor : Option EventCursor)
    (offset : ℕ) : paginateReplies D limit cursor offset =
      Prod.map (List.map (·.raw)) (Option.map OrderedReply.cursor)
        (cut limit (D.drop (windowStart D cursor offset))) := by
  generalize hstart : windowStart D cursor offset = s
  have hdrop : D.drop (min s D.length) = D.drop s := by
    rcases Nat.le_total s D.length with hle | hle
    · rw [Nat.min_eq_left hle]
    · rw [Nat.min_eq_right hle, drop_length, drop_of_length_le hle]
  have hwindow : (D.take (min (min s D.length + limit) D.length)).drop (min s D.length) =
      (D.drop s).take limit := by
    have hlen : min (min s D.length + limit) D.length - min s D.length =
        min limit (D.drop s).length := by
      rw [length_drop]
      omega
    rw [drop_take, hlen, hdrop, ← take_eq_take_min]
  have hmore : min (min s D.length + limit) D.length < D.length ↔ limit < (D.drop s).length := by
    rw [length_drop]
    omega
  simp only [paginateReplies, hstart, hwindow, hmore, cut, Prod.map]
  split_ifs <;> rfl

end NostrMash.Threads
