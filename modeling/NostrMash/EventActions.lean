import NostrMash.Text
import NostrMash.KeysetPaging
import Mathlib.Data.Prod.Lex

/-!
# Pages of event actions

`listEventActions` lists the reposts, reactions or zap receipts of a target event, newest first,
one keyset page at a time.
-/

namespace NostrMash
open KeysetPaging List

structure EventID where
  text : String
  hex : isLowerHex text 64 = true
  deriving DecidableEq

theorem EventID.text_ne_empty (id : EventID) : id.text ≠ "" := by
  intro h
  have hex := id.hex
  rw [h] at hex
  exact nomatch hex

structure StoredEvent where
  id : EventID
  raw : String
  deriving DecidableEq

structure TargetRow where
  eventID : EventID
  targetEventID : String
  createdAt : ℤ
  deriving DecidableEq

structure ZapReceipt where
  zapReceiptID : EventID
  eventID : Option String
  targetAddress : String
  createdAt : ℤ
  deriving DecidableEq

structure ReplaceableState where
  kind : ℤ
  pubkey : String
  dTag : String
  eventID : String
  deriving DecidableEq

/-- The tables the page query reads, with their keys. -/
structure ReadStore where
  events : List StoredEvent
  reactionEvents : List TargetRow
  repostEvents : List TargetRow
  zapReceipts : List ZapReceipt
  replaceableState : List ReplaceableState
  raws : (events.map StoredEvent.raw).Nodup
  reactionIDs : (reactionEvents.map TargetRow.eventID).Nodup
  repostIDs : (repostEvents.map TargetRow.eventID).Nodup
  zapIDs : (zapReceipts.map ZapReceipt.zapReceiptID).Nodup
  currentIDs : (replaceableState.map ReplaceableState.eventID).Nodup

structure EventOrderCursor where
  createdAt : ℤ
  id : String
  deriving DecidableEq

structure PageRow where
  raw : String
  createdAt : ℤ
  eventID : EventID
  deriving DecidableEq

def PageRow.key (r : PageRow) : ℤ ×ₗ String := toLex (r.createdAt, r.eventID.text)

def cursorKey (cursor : Option EventOrderCursor) : Option (ℤ ×ₗ String) :=
  cursor.bind fun c =>
    if trimSpace c.id = "" then none else some (toLex (c.createdAt, trimSpace c.id))

namespace ReadStore

variable (S : ReadStore)

def eventExists (eventID : String) : Bool := S.events.any (·.id.text = eventID)

def targetAddress (target : String) : Option String :=
  (S.replaceableState.find? (·.eventID = target)).map fun rs =>
    toString rs.kind ++ ":" ++ toLower rs.pubkey ++ ":" ++ rs.dTag

def joinEvent (createdAt : ℤ) (id : EventID) : Option PageRow :=
  (S.events.find? (·.id = id)).map fun e => ⟨e.raw, createdAt, id⟩

def below (cursor : Option (ℤ ×ₗ String)) (createdAt : ℤ) (id : EventID) : Bool :=
  cursor.all fun c => decide (toLex (createdAt, id.text) < c)

def targetRows (rows : List TargetRow) (target : String) (cursor : Option (ℤ ×ₗ String)) :
    List PageRow :=
  (rows.filter fun r => decide (r.targetEventID = target) &&
    below cursor r.createdAt r.eventID).filterMap fun r => S.joinEvent r.createdAt r.eventID

def directZap (target : String) (z : ZapReceipt) : Bool := z.eventID = some target

def addressZap (target : String) (z : ZapReceipt) : Bool :=
  z.targetAddress ≠ "" && z.eventID ≠ some target && some z.targetAddress = S.targetAddress target

def zapRows (target : String) (cursor : Option (ℤ ×ₗ String)) : List PageRow :=
  (S.zapReceipts.filter fun z => directZap target z ||
    (S.addressZap target z && below cursor z.createdAt z.zapReceiptID)).filterMap fun z =>
      S.joinEvent z.createdAt z.zapReceiptID

def eventActionRows (target : String) (kind : ℤ) (cursor : Option (ℤ ×ₗ String)) : List PageRow :=
  if kind = 7 then S.targetRows S.reactionEvents target cursor
  else if kind = 6 then S.targetRows S.repostEvents target cursor
  else S.zapRows target cursor

def actionLimit (limit : ℤ) : ℕ :=
  if limit ≤ 0 then 20 else if limit > 100 then 100 else limit.toNat

def listEventActions (eventID : String) (kind limit : ℤ) (cursor : Option EventOrderCursor) :
    Except String (List String × Option EventOrderCursor) :=
  if trimSpace eventID = "" then .error "event id is required"
  else if kind ≠ 6 ∧ kind ≠ 7 ∧ kind ≠ 9735 then .error "unsupported event action kind"
  else if S.eventExists (trimSpace eventID) = false then .error "not found"
  else
    let p := page PageRow.key (S.eventActionRows (trimSpace eventID) kind) (actionLimit limit)
      (cursorKey cursor)
    .ok (p.1.map PageRow.raw, p.2.map fun k => ⟨(ofLex k).1, (ofLex k).2⟩)

def collect (eventID : String) (kind limit : ℤ) : ℕ → Option EventOrderCursor → Option (List String)
  | 0, _ => none
  | n + 1, cursor =>
    match S.listEventActions eventID kind limit cursor with
    | .error _ => none
    | .ok (out, none) => some out
    | .ok (out, some next) => (collect eventID kind limit n (some next)).map (out ++ ·)

def eventActions (target : String) (kind : ℤ) : List PageRow :=
  descending PageRow.key (S.eventActionRows target kind none)

def isDirectZap (target : String) (kind : ℤ) (r : PageRow) : Bool :=
  kind = 9735 && S.zapReceipts.any fun z => z.zapReceiptID = r.eventID && directZap target z

variable {S} {r : PageRow} {target : String} {ρ : Type*} {kind : ℤ}

theorem mem_joinEvent {createdAt : ℤ} {id : EventID} (h : r ∈ S.joinEvent createdAt id) :
    r.createdAt = createdAt ∧ r.eventID = id ∧ ⟨id, r.raw⟩ ∈ S.events := by
  obtain ⟨e, he, rfl⟩ := Option.mem_map.mp h
  have hid : e.id = id := by simpa using List.find?_some he
  exact ⟨rfl, rfl, hid ▸ List.mem_of_find?_eq_some he⟩

theorem filter_join (rows : List ρ) (join : ρ → Option PageRow) (p : ρ → Bool)
    (q : PageRow → Bool) (h : ∀ x ∈ rows, ∀ r ∈ join x, q r = p x) :
    (rows.filterMap join).filter q = (rows.filter p).filterMap join := by
  induction rows with
  | nil => rfl
  | cons x rows ih =>
    have hrows := ih fun y hy => h y (mem_cons_of_mem x hy)
    cases hj : join x with
    | none =>
      rw [filterMap_cons_none hj, hrows, filter_cons]
      split_ifs
      · rw [filterMap_cons_none hj]
      · rfl
    | some r =>
      have hq := h x (.head _) r hj
      rw [filterMap_cons_some hj, filter_cons, filter_cons, hq, hrows]
      split_ifs
      · rw [filterMap_cons_some hj]
      · rfl

theorem nodup_join {rows : List ρ} {createdAt : ρ → ℤ} {id : ρ → EventID}
    (h : (rows.map id).Nodup) :
    ((rows.filterMap fun x => S.joinEvent (createdAt x) (id x)).map PageRow.eventID).Nodup := by
  rw [List.Nodup, pairwise_map] at h ⊢
  refine List.Pairwise.filterMap _ (fun x y hne r hr q hq => ?_) h
  rw [(mem_joinEvent hr).2.1, (mem_joinEvent hq).2.1]
  exact hne

theorem nodup_eventActionRows (target : String) (kind : ℤ) :
    ((S.eventActionRows target kind none).map PageRow.eventID).Nodup := by
  unfold eventActionRows
  split_ifs
  · exact nodup_join (S.reactionIDs.sublist (filter_sublist.map _))
  · exact nodup_join (S.repostIDs.sublist (filter_sublist.map _))
  · exact nodup_join (S.zapIDs.sublist (filter_sublist.map _))

theorem nodup_keys (target : String) (kind : ℤ) :
    ((S.eventActionRows target kind none).map PageRow.key).Nodup := by
  have h := nodup_eventActionRows (S := S) target kind
  rw [List.Nodup, pairwise_map] at h ⊢
  refine h.imp fun {a b} hne hk => hne ?_
  have htext : a.eventID.text = b.eventID.text := congrArg (fun k => (ofLex k).2) hk
  cases ha : a.eventID
  cases hb : b.eventID
  simp_all

theorem targetRows_eq (rows : List TargetRow) (target : String) (c : ℤ ×ₗ String) :
    S.targetRows rows target (some c) =
      (S.targetRows rows target none).filter fun r => decide (r.key < c) := by
  unfold targetRows
  rw [filter_join _ _ (fun r => below (some c) r.createdAt r.eventID), filter_filter]
  · congr 2
    funext r
    simp [below, Bool.and_comm]
  · intro x _ r hr
    obtain ⟨hc, hid, _⟩ := mem_joinEvent hr
    simp [below, PageRow.key, hc, hid]

theorem isDirectZap_join {z : ZapReceipt} (hz : z ∈ S.zapReceipts)
    (hr : r.eventID = z.zapReceiptID) : S.isDirectZap target 9735 r = directZap target z := by
  rw [Bool.eq_iff_iff]
  simp only [isDirectZap, decide_true, Bool.true_and, any_eq_true, Bool.and_eq_true,
    decide_eq_true_eq, hr]
  constructor
  · rintro ⟨y, hy, hid, hd⟩
    rwa [← inj_on_of_nodup_map S.zapIDs hy hz hid]
  · exact fun hd => ⟨z, hz, rfl, hd⟩

theorem zapRows_eq (target : String) (c : ℤ ×ₗ String) :
    S.zapRows target (some c) = (S.zapRows target none).filter fun r =>
      S.isDirectZap target 9735 r || decide (r.key < c) := by
  unfold zapRows
  rw [filter_join _ _ (fun z => directZap target z || below (some c) z.createdAt z.zapReceiptID),
    filter_filter]
  · congr 2
    funext z
    cases directZap target z <;> simp [below, Bool.and_comm]
  · intro z hz r hr
    obtain ⟨hc, hid, _⟩ := mem_joinEvent hr
    rw [isDirectZap_join (mem_of_mem_filter hz) hid]
    simp [below, PageRow.key, hc, hid]

theorem eventActionRows_eq (hk : kind = 6 ∨ kind = 7 ∨ kind = 9735) :
    S.eventActionRows target kind = keysetQuery PageRow.key (S.eventActionRows target kind none)
        (S.isDirectZap target kind) := by
  funext cursor
  cases cursor with
  | none => rfl
  | some c =>
    rcases hk with rfl | rfl | rfl
    · simp [eventActionRows, keysetQuery, targetRows_eq, isDirectZap]
    · simp [eventActionRows, keysetQuery, targetRows_eq, isDirectZap]
    · simp [eventActionRows, keysetQuery, zapRows_eq]

theorem raw_injective {a b : PageRow} (ha : a ∈ S.eventActionRows target kind none)
    (hb : b ∈ S.eventActionRows target kind none) (h : a.raw = b.raw) : a = b := by
  have hevent : ∀ r ∈ S.eventActionRows target kind none, ⟨r.eventID, r.raw⟩ ∈ S.events := by
    intro r hr
    have hjoin : ∃ createdAt id, r ∈ S.joinEvent createdAt id := by
      unfold eventActionRows targetRows zapRows at hr
      split_ifs at hr <;>
        exact (mem_filterMap.mp hr).elim fun x hx => ⟨_, _, hx.2⟩
    obtain ⟨createdAt, id, hj⟩ := hjoin
    obtain ⟨_, hid, hmem⟩ := mem_joinEvent hj
    rwa [hid]
  have hids : a.eventID = b.eventID :=
    congrArg StoredEvent.id (inj_on_of_nodup_map S.raws (hevent a ha) (hevent b hb) h)
  exact inj_on_of_nodup_map (nodup_eventActionRows target kind) ha hb hids

end ReadStore
end NostrMash
