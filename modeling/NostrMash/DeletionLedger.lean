import NostrMash.DirectMessages

/-!
# The ledger of deletions

`ProjectDeletionEvents` keeps one row of `deletion_events` for a kind-5 event, with the first event
that its `e` tags name. The row is what the readers of the ledger go by, so a later tag of the
event deletes nothing by itself.
-/

namespace NostrMash.DirectMessages
open AuthorStats List KeyedTable

structure LedgerRow where
  deleterPubkey : String
  targetEventID : String
  createdAt : ℤ
  deriving DecidableEq

/-- `deletion_events` by the deleting event. -/
abbrev Ledger := KeyedTable String LedgerRow

def Ledger.deletions (ledger : Ledger) : List Deletion :=
  ledger.rows.map fun row => ⟨row.1, row.2.deleterPubkey, row.2.targetEventID⟩

def projectDeletionEvents (events : KeyedTable String StoredEvent) (ledger : Ledger)
    (eventID : String) : Except String Ledger :=
  if trimSpace eventID = "" then .error "event id is required"
  else
    match events.get (trimSpace eventID) with
    | none => .error "load interaction source event: no rows in result set"
    | some e =>
      match deletionTarget e.toEventContent with
      | some target =>
        if e.kind = 5 then
          let row : LedgerRow := ⟨e.pubkey, target, e.createdAt⟩
          .ok (ledger.upsert (trimSpace eventID) row fun _ => row)
        else .ok (ledger.delete fun id _ => id = trimSpace eventID)
      | none => .ok (ledger.delete fun id _ => id = trimSpace eventID)

def namedTarget (tag : Tag) : Option String :=
  match tag with
  | name :: value :: _ => if name ≠ "e" ∨ trimSpace value = "" then none else some (trimSpace value)
  | _ => none

def namedTargets (tags : List Tag) : List String := tags.filterMap namedTarget

/-- The ledger has the target as deleted by the author. -/
def Ledger.Deletes (ledger : Ledger) (target author : String) : Prop :=
  ∃ id row, ledger.get id = some row ∧ row.targetEventID = target ∧ row.deleterPubkey = author

theorem map_rawRef_id (i : ℕ) (tag : Tag) : (rawRef i tag).map (·.id) = namedTarget tag :=
  match tag with
  | [] => rfl
  | [_] => rfl
  | name :: value :: rest => by
    simp only [rawRef, namedTarget]
    split_ifs <;> rfl

theorem map_deriveETagReferences_id (tags : List Tag) :
    (deriveETagReferences tags).map (·.id) = namedTargets tags := by
  have hzip : tags.zipIdx.map Prod.fst = tags := zipIdx_map_fst 0 tags
  have hraw : (rawRefs tags).map (·.id) = namedTargets tags := by
    rw [rawRefs, map_filterMap]
    simp only [map_rawRef_id]
    rw [namedTargets]
    nth_rewrite 2 [← hzip]
    rw [filterMap_map]
    rfl
  rw [← hraw, deriveETagReferences, assignLegacyRelations, map_map]
  rfl

theorem namedTarget_normal {tag : Tag} {target : String} (h : namedTarget tag = some target) :
    trimSpace target = target ∧ target ≠ "" := by
  unfold namedTarget at h
  split at h
  · split_ifs at h with hvalue
    cases h
    exact ⟨trimSpace_trimSpace _, (not_or.mp hvalue).2⟩
  · cases h

theorem deletionTarget_eq (e : EventContent) : deletionTarget e = (namedTargets e.tags).head? := by
  have hnormal : ∀ target ∈ namedTargets e.tags, trimSpace target = target ∧ target ≠ "" := by
    intro target hmem
    obtain ⟨tag, -, htag⟩ := mem_filterMap.mp hmem
    exact namedTarget_normal htag
  have hmap : (deriveETagReferences e.tags).map (fun ref => trimSpace ref.id) =
      namedTargets e.tags := by
    have hcomp : (deriveETagReferences e.tags).map (fun ref => trimSpace ref.id) =
        ((deriveETagReferences e.tags).map (·.id)).map trimSpace := by
      rw [map_map]
      rfl
    rw [hcomp, map_deriveETagReferences_id]
    exact (map_congr_left fun t ht => (hnormal t ht).1).trans (map_id _)
  rw [deletionTarget, hmap]
  cases hlist : namedTargets e.tags with
  | nil => rfl
  | cons target rest =>
    have hne := (hnormal target (hlist ▸ (.head _))).2
    rw [List.find?_cons_of_pos (by simpa using hne), List.head?_cons]

theorem deletedByAuthor_iff {T : Tables} {ledger : Ledger} (hT : T.deletions = ledger.deletions)
    (target : String) (message : EventContent) :
    deletedByAuthor T target message = true ↔ ledger.Deletes target message.pubkey := by
  simp only [deletedByAuthor, hT, Ledger.deletions, Ledger.Deletes, any_map, any_eq_true,
    Function.comp_apply, decide_eq_true_eq, ← mem_rows, Prod.exists]

/-- After its projection a deletion event deletes everything it names exactly when everything it
names is the first target, or is deleted already by another event of the author. -/
theorem deletes_named_iff (events : KeyedTable String StoredEvent) (ledger : Ledger)
    (eventID : String) (e : StoredEvent) (hid : trimSpace eventID ≠ "")
    (hstored : events.get (trimSpace eventID) = some e) (hkind : e.kind = 5) :
    ∃ ledger', projectDeletionEvents events ledger eventID = .ok ledger' ∧
      ((∀ target ∈ namedTargets e.tags, ledger'.Deletes target e.pubkey ∧
          ∀ (T : Tables) (message : EventContent), T.deletions = ledger'.deletions →
            message.pubkey = e.pubkey → deletedByAuthor T target message = true) ↔
        ∀ target ∈ namedTargets e.tags, (namedTargets e.tags).head? = some target ∨
          ∃ id row, id ≠ trimSpace eventID ∧ ledger.get id = some row ∧
            row.targetEventID = target ∧ row.deleterPubkey = e.pubkey) := by
  have hconsumer : ∀ (ledger' : Ledger) target,
      (ledger'.Deletes target e.pubkey ∧
        ∀ (T : Tables) (message : EventContent), T.deletions = ledger'.deletions →
          message.pubkey = e.pubkey → deletedByAuthor T target message = true) ↔
      ledger'.Deletes target e.pubkey := fun ledger' target =>
    and_iff_left_of_imp fun h T message hT hauthor =>
      (deletedByAuthor_iff hT target message).mpr (hauthor ▸ h)
  simp only [projectDeletionEvents, if_neg hid, hstored, deletionTarget_eq, hkind, if_true,
    hconsumer]
  cases hfirst : (namedTargets e.tags).head? with
  | none =>
    rw [List.head?_eq_none_iff] at hfirst
    exact ⟨_, rfl, by simp [hfirst]⟩
  | some first =>
    refine ⟨_, rfl, forall₂_congr fun target _ => ?_⟩
    rw [Option.some.injEq]
    constructor
    · rintro ⟨id, row, hget, htarget, hauthor⟩
      rcases eq_or_ne id (trimSpace eventID) with rfl | hne
      · rw [get_upsert_self] at hget
        refine .inl ?_
        cases hold : ledger.get (trimSpace eventID) with
        | none =>
          rw [hold] at hget
          exact (congrArg LedgerRow.targetEventID (Option.some.inj hget)).trans htarget
        | some old =>
          rw [hold] at hget
          exact (congrArg LedgerRow.targetEventID (Option.some.inj hget)).trans htarget
      · rw [get_upsert_ne hne] at hget
        exact .inr ⟨id, row, hne, hget, htarget, hauthor⟩
    · rintro (rfl | ⟨id, row, hne, hget, htarget, hauthor⟩)
      · refine ⟨trimSpace eventID, ⟨e.pubkey, first, e.createdAt⟩, ?_, rfl, rfl⟩
        rw [get_upsert_self]
        cases ledger.get (trimSpace eventID) <;> rfl
      · exact ⟨id, row, (get_upsert_ne hne _ _).trans hget, htarget, hauthor⟩

def deletionOf (targets : List String) : KeyedTable String StoredEvent :=
  have htrimmed : trimSpace "p" = "p" := by decide
  KeyedTable.empty.upsert "d"
    ⟨⟨"p", 5, 7, targets.map fun t => ["e", t]⟩, htrimmed, (by decide : "p" ≠ "")⟩ id

theorem one_target_deleted : ∃ ledger',
    projectDeletionEvents (deletionOf ["a"]) KeyedTable.empty "d" = .ok ledger' ∧
      ledger'.Deletes "a" "p" := by
  obtain ⟨ledger', hok, hiff⟩ :=
    deletes_named_iff (deletionOf ["a"]) KeyedTable.empty "d" _ (by decide) rfl rfl
  have htargets : namedTargets [["e", "a"]] = ["a"] := by decide
  refine ⟨ledger', hok, (hiff.mpr (fun target hmem => .inl ?_) "a" (by decide)).1⟩
  exact congrArg some (mem_singleton.mp (htargets ▸ hmem)).symm

/-- The second target of a deletion is in no row. -/
theorem second_target_kept : ∃ ledger',
    projectDeletionEvents (deletionOf ["a", "b"]) KeyedTable.empty "d" = .ok ledger' ∧
      "b" ∈ namedTargets [["e", "a"], ["e", "b"]] ∧ ¬ledger'.Deletes "b" "p" := by
  refine ⟨⟨[("d", ⟨"p", "a", 7⟩)], by decide⟩, by rfl, by decide, ?_⟩
  rintro ⟨id, row, hget, htarget, -⟩
  obtain ⟨-, rfl⟩ : (id, row) = ("d", ⟨"p", "a", 7⟩) := by
    simpa using mem_rows.mpr hget
  exact nomatch htarget

end NostrMash.DirectMessages
