import NostrMash.EventActions

/-!
# Following the pages of event actions

A client that follows the cursors of `listEventActions` sees every action once and in order for
reposts and reactions. For zaps this holds exactly when the receipts that name the event itself all
stand on the last page.
-/

namespace NostrMash
open KeysetPaging

namespace ReadStore

variable {S : ReadStore} {eventID : String} {kind limit : ℤ}

theorem actionLimit_pos (limit : ℤ) : 0 < actionLimit limit := by
  unfold actionLimit
  split_ifs <;> omega

theorem actionLimit_eq (h : 0 < limit) : actionLimit limit = (min limit 100).toNat := by
  unfold actionLimit
  split_ifs <;> omega

theorem listEventActions_eq (hk : kind = 6 ∨ kind = 7 ∨ kind = 9735)
    (he : S.eventExists (trimSpace eventID) = true) (cursor : Option EventOrderCursor) :
    S.listEventActions eventID kind limit cursor =
      .ok (((page PageRow.key (S.eventActionRows (trimSpace eventID) kind) (actionLimit limit)
          (cursorKey cursor)).1.map PageRow.raw),
        (page PageRow.key (S.eventActionRows (trimSpace eventID) kind) (actionLimit limit)
          (cursorKey cursor)).2.map fun k => ⟨(ofLex k).1, (ofLex k).2⟩) := by
  have hblank : trimSpace eventID ≠ "" := by
    intro h0
    obtain ⟨e, _, hid⟩ := List.any_eq_true.mp he
    rw [h0, decide_eq_true_eq] at hid
    exact e.id.text_ne_empty hid
  have hkind : ¬ (kind ≠ 6 ∧ kind ≠ 7 ∧ kind ≠ 9735) := by omega
  rw [listEventActions, if_neg hblank, if_neg hkind, if_neg (by simp [he])]

theorem cursorKey_row (r : PageRow) :
    cursorKey (some ⟨(ofLex r.key).1, (ofLex r.key).2⟩) = some r.key := by
  have htext : (ofLex r.key).2 = r.eventID.text := rfl
  rw [cursorKey, Option.bind_some, htext, trimSpace_of_isLowerHex r.eventID.hex,
    if_neg r.eventID.text_ne_empty]
  rfl

theorem collect_eq (hk : kind = 6 ∨ kind = 7 ∨ kind = 9735)
    (he : S.eventExists (trimSpace eventID) = true) (n : ℕ) (cursor : Option EventOrderCursor) :
    S.collect eventID kind limit n cursor =
      (follow PageRow.key (S.eventActionRows (trimSpace eventID) kind) (actionLimit limit) n
        (cursorKey cursor)).map (List.map PageRow.raw) := by
  induction n generalizing cursor with
  | zero => rfl
  | succ n ih =>
    rw [collect, listEventActions_eq hk he, follow]
    cases hp : page PageRow.key (S.eventActionRows (trimSpace eventID) kind) (actionLimit limit)
      (cursorKey cursor) with
    | mk out next =>
      cases next with
      | none => rfl
      | some k =>
        obtain ⟨r, -, rfl⟩ := page_cursor (congrArg Prod.snd hp)
        simp only [Option.map_some, ih, cursorKey_row, Option.map_map]
        congr 1
        funext rest
        simp

theorem map_injOn {α β : Type*} {f : α → β} {X Y : List α}
    (hf : ∀ x ∈ X, ∀ y ∈ Y, f x = f y → x = y) (h : X.map f = Y.map f) : X = Y := by
  induction X generalizing Y with
  | nil => exact (List.map_eq_nil_iff.mp h.symm).symm
  | cons x X ih =>
    cases Y with
    | nil => cases h
    | cons y Y =>
      obtain ⟨hxy, hrest⟩ := List.cons.inj h
      rw [hf x (.head _) y (.head _) hxy,
        ih (fun a ha b hb => hf a (List.mem_cons_of_mem x ha) b (List.mem_cons_of_mem y hb)) hrest]

/-- Following the cursors yields every action event of the kind exactly once, newest first, after
finitely many pages, exactly when no direct zap stands before the last page. -/
theorem collect_complete_iff (hk : kind = 6 ∨ kind = 7 ∨ kind = 9735) (hl : 0 < limit)
    (he : S.eventExists (trimSpace eventID) = true) : (∃ n, S.collect eventID kind limit n none =
      some ((S.eventActions (trimSpace eventID) kind).map PageRow.raw)) ↔
    ∀ r ∈ beforeLastPage (min limit 100).toNat (S.eventActions (trimSpace eventID) kind),
      S.isDirectZap (trimSpace eventID) kind r = false := by
  have hiff : (∃ n, follow PageRow.key (keysetQuery PageRow.key
      (S.eventActionRows (trimSpace eventID) kind none) (S.isDirectZap (trimSpace eventID) kind))
        (actionLimit limit) n none = some _) ↔ _ :=
    follow_iff (nodup_keys (trimSpace eventID) kind) (actionLimit_pos limit)
  rw [← eventActionRows_eq hk, actionLimit_eq hl] at hiff
  rw [eventActions, ← hiff]
  simp only [collect_eq hk he, actionLimit_eq hl]
  constructor
  · rintro ⟨n, hn⟩
    obtain ⟨X, hX, hraw⟩ := Option.map_eq_some_iff.mp hn
    have hrows : ∀ c, S.eventActionRows (trimSpace eventID) kind c ⊆
        S.eventActionRows (trimSpace eventID) kind none := by
      rw [eventActionRows_eq hk]
      exact keysetQuery_subset
    refine ⟨n, hX.trans (congrArg some (map_injOn (fun x hx y hy => ?_) hraw))⟩
    exact raw_injective (follow_subset hrows hX hx) ((perm_descending _).mem_iff.mp hy)
  · rintro ⟨n, hn⟩
    exact ⟨n, by rw [show cursorKey none = none from rfl, hn, Option.map_some]⟩

end ReadStore

def sampleID (c : Char) (h : isHexDigit c = true) : EventID :=
  ⟨String.ofList (List.replicate 64 c), by simp [isLowerHex, h]⟩

def sampleStore : ReadStore where
  events := [⟨sampleID 'a' rfl, "note"⟩, ⟨sampleID 'b' rfl, "r1"⟩,
    ⟨sampleID 'c' rfl, "r2"⟩, ⟨sampleID 'd' rfl, "z1"⟩,
    ⟨sampleID 'e' rfl, "z2"⟩]
  reactionEvents := [⟨sampleID 'b' rfl, (sampleID 'a' rfl).text, 1⟩,
    ⟨sampleID 'c' rfl, (sampleID 'a' rfl).text, 1⟩]
  repostEvents := []
  zapReceipts := [⟨sampleID 'd' rfl, some (sampleID 'a' rfl).text, "", 1⟩,
    ⟨sampleID 'e' rfl, some (sampleID 'a' rfl).text, "", 2⟩]
  replaceableState := []
  raws := by decide
  reactionIDs := by decide
  repostIDs := by decide
  zapIDs := by decide
  currentIDs := by decide

def sampleTarget : String := (sampleID 'a' rfl).text

theorem collect_complete_reactions : sampleStore.eventExists (trimSpace sampleTarget) = true ∧
    ((∃ n, sampleStore.collect sampleTarget 7 1 n none =
      some ((sampleStore.eventActions (trimSpace sampleTarget) 7).map PageRow.raw)) ↔
    ∀ r ∈ beforeLastPage (min 1 100 : ℤ).toNat
        (sampleStore.eventActions (trimSpace sampleTarget) 7),
      sampleStore.isDirectZap (trimSpace sampleTarget) 7 r = false) :=
  ⟨by decide,
    ReadStore.collect_complete_iff (.inr (.inl rfl)) (by decide) (by decide)⟩

/-- With pages of one, the newest direct zap comes back on every page: the older one is never
listed and the cursors never end. -/
theorem direct_zap_repeats_for_ever :
    (sampleStore.eventActions sampleTarget 9735).map PageRow.raw = ["z2", "z1"] ∧
    sampleStore.listEventActions sampleTarget 9735 1 none =
      .ok (["z2"], some ⟨2, (sampleID 'e' rfl).text⟩) ∧
    ∀ n, sampleStore.collect sampleTarget 9735 1 n none = none := by
  have hfirst : sampleStore.listEventActions sampleTarget 9735 1 none =
      .ok (["z2"], some ⟨2, (sampleID 'e' rfl).text⟩) := by decide
  have hagain : sampleStore.listEventActions sampleTarget 9735 1
      (some ⟨2, (sampleID 'e' rfl).text⟩) =
        .ok (["z2"], some ⟨2, (sampleID 'e' rfl).text⟩) := by decide
  have hloop : ∀ n, sampleStore.collect sampleTarget 9735 1 n
      (some ⟨2, (sampleID 'e' rfl).text⟩) = none := by
    intro n
    induction n with
    | zero => rfl
    | succ n ih =>
      rw [ReadStore.collect, hagain]
      simp [ih]
  refine ⟨by decide, hfirst, fun n => ?_⟩
  cases n with
  | zero => rfl
  | succ n =>
    rw [ReadStore.collect, hfirst]
    simp [hloop]

end NostrMash
