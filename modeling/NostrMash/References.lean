import NostrMash.Text

/-!
# References carried by the tags of an event

An `e` tag names another event, with an optional relay hint and an optional NIP-10 marker.
-/

namespace NostrMash
open List

abbrev Tag := List String

inductive Relation where
  | root
  | reply
  | mention
  deriving DecidableEq

structure ETagRef where
  id : String
  relation : Relation
  tagIndex : ℕ
  relayHint : String
  deriving DecidableEq

def parseRelationMarker (value : String) : Option Relation :=
  let marker := toLower (trimSpace value)
  if marker = "root" then some .root
  else if marker = "reply" then some .reply
  else if marker = "mention" then some .mention
  else none

structure RawRef where
  id : String
  marked : Option Relation
  tagIndex : ℕ
  relayHint : String
  deriving DecidableEq

def rawRef (tagIndex : ℕ) (tag : Tag) : Option RawRef :=
  match tag with
  | name :: value :: rest =>
    if name ≠ "e" ∨ trimSpace value = "" then none
    else some
      { id := trimSpace value
        marked := parseRelationMarker (trimSpace (rest.getD 1 ""))
        tagIndex := tagIndex
        relayHint := trimSpace (rest.getD 0 "") }
  | _ => none

def rawRefs (tags : List Tag) : List RawRef :=
  tags.zipIdx.filterMap fun p => rawRef p.2 p.1

def assignLegacyRelations (refs : List RawRef) : List ETagRef :=
  let unmarked := (refs.filter (·.marked.isNone)).map (·.tagIndex)
  let rootSet := refs.any (·.marked = some .root)
  let replySet := refs.any (·.marked = some .reply)
  refs.map fun ref =>
    let relation := ref.marked.getD <|
      if !replySet && decide (1 < unmarked.length) && unmarked.getLast? = some ref.tagIndex then
        .reply
      else if !rootSet && unmarked.head? = some ref.tagIndex then .root
      else .mention
    { id := ref.id, relation := relation, tagIndex := ref.tagIndex, relayHint := ref.relayHint }

def deriveETagReferences (tags : List Tag) : List ETagRef :=
  assignLegacyRelations (rawRefs tags)

def firstReferenceByRelation (refs : List ETagRef) (relation : Relation) : String :=
  ((refs.find? (·.relation = relation)).map (·.id)).getD ""

def replyParentEventID (refs : List ETagRef) : String :=
  let parent := firstReferenceByRelation refs .reply
  if parent ≠ "" then parent else firstReferenceByRelation refs .root

example :
    (deriveETagReferences [["e", "a"], ["p", "x"], ["e", " b ", "", "Mention"], ["e", "c"]]).map
    (fun r => (r.id, r.relation)) = [("a", .root), ("b", .mention), ("c", .reply)] := by decide

/-- An `e` tag with an id that is not blank. -/
def NamesEvent (tag : Tag) : Prop := tag.head? = some "e" ∧ trimSpace (tag.getD 1 "") ≠ ""

instance (tag : Tag) : Decidable (NamesEvent tag) :=
  inferInstanceAs (Decidable (_ ∧ _))

def tagMarker (tag : Tag) : Option Relation := parseRelationMarker (tag.getD 3 "")

def eTags (tags : List Tag) : List (Tag × ℕ) := tags.zipIdx.filter (NamesEvent ·.1)

def unmarkedIdx (tags : List Tag) : List ℕ :=
  ((eTags tags).filter (tagMarker ·.1 = none)).map (·.2)

def toRawRef (p : Tag × ℕ) : RawRef :=
  { id := trimSpace (p.1.getD 1 ""), marked := tagMarker p.1, tagIndex := p.2
    relayHint := trimSpace (p.1.getD 2 "") }

theorem parseRelationMarker_trimSpace (value : String) :
    parseRelationMarker (trimSpace value) = parseRelationMarker value := by
  unfold parseRelationMarker
  rw [trimSpace_trimSpace]

theorem rawRef_eq (i : ℕ) (tag : Tag) :
    rawRef i tag = if NamesEvent tag then some (toRawRef (tag, i)) else none := by
  match tag with
  | [] => simp [rawRef, NamesEvent]
  | [name] =>
    have hblank : trimSpace "" = "" := by decide
    simp [rawRef, NamesEvent, hblank]
  | name :: value :: rest =>
    have hhint : (name :: value :: rest).getD 2 "" = rest.getD 0 "" := rfl
    have hmarker : (name :: value :: rest).getD 3 "" = rest.getD 1 "" := rfl
    by_cases hnamed : NamesEvent (name :: value :: rest)
    · have hcode : ¬ (name ≠ "e" ∨ trimSpace value = "") := by
        simpa [NamesEvent] using hnamed
      rw [rawRef, if_neg hcode, if_pos hnamed, toRawRef, tagMarker, hhint, hmarker,
        parseRelationMarker_trimSpace]
      rfl
    · have hcode : name ≠ "e" ∨ trimSpace value = "" := by
        by_contra hneither
        exact hnamed (by simpa [NamesEvent] using hneither)
      rw [rawRef, if_pos hcode, if_neg hnamed]

theorem rawRefs_eq (tags : List Tag) : rawRefs tags = (eTags tags).map toRawRef := by
  rw [rawRefs, eTags, ← filterMap_eq_map, filterMap_filter]
  refine filterMap_congr fun p _ => ?_
  by_cases h : NamesEvent p.1 <;> simp [rawRef_eq, h]

/-- What NIP-10 asks of the references read from the tags of an event. -/
structure FollowsNip10 (tags : List Tag) (refs : List ETagRef) : Prop where
  complete : refs.map (·.tagIndex) = (eTags tags).map (·.2)
  increasing : (refs.map (·.tagIndex)).Pairwise (· < ·)
  names : ∀ ref ∈ refs, ∃ tag, tags[ref.tagIndex]? = some tag ∧ NamesEvent tag ∧
    ref.id = trimSpace (tag.getD 1 "") ∧ ref.relayHint = trimSpace (tag.getD 2 "")
  marked : ∀ ref ∈ refs, ∀ relation,
    tagMarker (tags.getD ref.tagIndex []) = some relation → ref.relation = relation
  root_iff : ∀ ref ∈ refs, tagMarker (tags.getD ref.tagIndex []) = none →
    (ref.relation = .root ↔ (unmarkedIdx tags).head? = some ref.tagIndex ∧
      ∀ p ∈ eTags tags, tagMarker p.1 ≠ some .root)
  reply_iff : ∀ ref ∈ refs, tagMarker (tags.getD ref.tagIndex []) = none →
    (ref.relation = .reply ↔ (unmarkedIdx tags).getLast? = some ref.tagIndex ∧
      2 ≤ (unmarkedIdx tags).length ∧ ∀ p ∈ eTags tags, tagMarker p.1 ≠ some .reply)

variable {tags : List Tag}

theorem eTags_getD {p : Tag × ℕ} (hp : p ∈ eTags tags) : tags[p.2]? = some p.1 :=
  List.mem_zipIdx_iff_getElem?.mp (mem_of_mem_filter hp)

theorem eTags_increasing (tags : List Tag) : ((eTags tags).map (·.2)).Pairwise (· < ·) := by
  have hsub : ((eTags tags).map (·.2)).Sublist (tags.zipIdx.map (·.2)) :=
    filter_sublist.map _
  refine List.Pairwise.sublist hsub ?_
  rw [zipIdx_map_snd]
  exact pairwise_lt_range'

theorem unmarkedIdx_head_ne_getLast {i : ℕ} (hlength : 2 ≤ (unmarkedIdx tags).length)
    (hlast : (unmarkedIdx tags).getLast? = some i) :
    (unmarkedIdx tags).head? ≠ some i := by
  have hincreasing : (unmarkedIdx tags).Pairwise (· < ·) :=
    (eTags_increasing tags).sublist (filter_sublist.map _)
  match hidx : unmarkedIdx tags with
  | [] => simp
  | [_] => simp [hidx] at hlength
  | a :: b :: rest =>
    rw [hidx] at hincreasing hlast
    have hmem : i ∈ b :: rest := List.mem_of_getLast? (by simpa using hlast)
    have hlt := (pairwise_cons.mp hincreasing).1 i hmem
    simp only [List.head?_cons, ne_eq, Option.some.injEq]
    omega

def positionalRelation (tags : List Tag) (i : ℕ) : Relation :=
  if (∀ p ∈ eTags tags, tagMarker p.1 ≠ some .reply) ∧ 2 ≤ (unmarkedIdx tags).length ∧
    (unmarkedIdx tags).getLast? = some i then .reply
  else if (∀ p ∈ eTags tags, tagMarker p.1 ≠ some .root) ∧ (unmarkedIdx tags).head? = some i then
    .root
  else .mention

theorem positionalRelation_eq_root_iff (tags : List Tag) (i : ℕ) :
    positionalRelation tags i = .root ↔ (unmarkedIdx tags).head? = some i ∧
      ∀ p ∈ eTags tags, tagMarker p.1 ≠ some .root := by
  unfold positionalRelation
  split_ifs with hreply hroot
  · refine iff_of_false nofun fun h => ?_
    exact unmarkedIdx_head_ne_getLast hreply.2.1 hreply.2.2 h.1
  · exact iff_of_true rfl hroot.symm
  · exact iff_of_false nofun fun h => hroot h.symm

theorem positionalRelation_eq_reply_iff (tags : List Tag) (i : ℕ) :
    positionalRelation tags i = .reply ↔ (unmarkedIdx tags).getLast? = some i ∧
      2 ≤ (unmarkedIdx tags).length ∧ ∀ p ∈ eTags tags, tagMarker p.1 ≠ some .reply := by
  unfold positionalRelation
  split_ifs with hreply hroot
  · exact iff_of_true rfl ⟨hreply.2.2, hreply.2.1, hreply.1⟩
  all_goals exact iff_of_false nofun fun h => hreply ⟨h.2.2, h.2.1, h.1⟩

def toETagRef (tags : List Tag) (p : Tag × ℕ) : ETagRef :=
  { id := trimSpace (p.1.getD 1 "")
    relation := (tagMarker p.1).getD (positionalRelation tags p.2)
    tagIndex := p.2
    relayHint := trimSpace (p.1.getD 2 "") }

theorem deriveETagReferences_eq (tags : List Tag) :
    deriveETagReferences tags = (eTags tags).map (toETagRef tags) := by
  have hunmarked : ((rawRefs tags).filter (·.marked.isNone)).map (·.tagIndex) =
      unmarkedIdx tags := by
    rw [rawRefs_eq, unmarkedIdx, filter_map, map_map]
    refine congrArg (List.map _) (filter_congr fun p _ => ?_)
    cases hmarker : tagMarker p.1 <;> simp [toRawRef, hmarker]
  have hany (relation : Relation) : ((rawRefs tags).any (·.marked = some relation)) =
      !decide (∀ p ∈ eTags tags, tagMarker p.1 ≠ some relation) := by
    rw [rawRefs_eq, ← Bool.coe_iff_coe]
    simp [toRawRef]
  rw [deriveETagReferences, assignLegacyRelations, hunmarked, hany, hany, rawRefs_eq, map_map]
  refine map_congr_left fun p _ => ?_
  have hreply (q r : Prop) [Decidable q] [Decidable r] (n : ℕ) :
      (!!decide q && decide (1 < n) && decide r) = true ↔ q ∧ 2 ≤ n ∧ r := by
    simp [and_assoc, Nat.succ_le_iff]
  have hroot (q r : Prop) [Decidable q] [Decidable r] :
      (!!decide q && decide r) = true ↔ q ∧ r := by
    simp
  simp only [Function.comp_apply, toETagRef, toRawRef, positionalRelation, hreply, hroot]
  congr

theorem firstReferenceByRelation_ne_iff {refs : List ETagRef} (hid : ∀ ref ∈ refs, ref.id ≠ "")
    (relation : Relation) :
    firstReferenceByRelation refs relation ≠ "" ↔ ∃ ref ∈ refs, ref.relation = relation := by
  unfold firstReferenceByRelation
  cases hfind : refs.find? (·.relation = relation) with
  | none => simpa using hfind
  | some ref =>
    have hrelation : ref.relation = relation := by simpa using List.find?_some hfind
    have hmem := List.mem_of_find?_eq_some hfind
    exact iff_of_true (hid ref hmem) ⟨ref, hmem, hrelation⟩

/-- The references of an event follow NIP-10, and it has a parent exactly when one of them is a
root or a reply. -/
theorem deriveETagReferences_followsNip10 (tags : List Tag) :
    FollowsNip10 tags (deriveETagReferences tags) ∧
      (replyParentEventID (deriveETagReferences tags) ≠ "" ↔
        ∃ ref ∈ deriveETagReferences tags, ref.relation = .root ∨ ref.relation = .reply) := by
  have hids : (deriveETagReferences tags).map (·.tagIndex) = (eTags tags).map (·.2) := by
    rw [deriveETagReferences_eq, map_map]
    rfl
  have hof : ∀ ref ∈ deriveETagReferences tags, ∃ p ∈ eTags tags, toETagRef tags p = ref := by
    intro ref href
    rwa [deriveETagReferences_eq, mem_map] at href
  have hnamed {p : Tag × ℕ} (hp : p ∈ eTags tags) : NamesEvent p.1 := by
    simpa using of_mem_filter hp
  have htag {p : Tag × ℕ} (hp : p ∈ eTags tags) : tags.getD p.2 [] = p.1 := by
    rw [getD_eq_getElem?_getD, eTags_getD hp, Option.getD_some]
  refine ⟨⟨hids, hids ▸ eTags_increasing tags, ?_, ?_, ?_, ?_⟩, ?_⟩
  · intro ref href
    obtain ⟨p, hp, rfl⟩ := hof ref href
    exact ⟨p.1, eTags_getD hp, hnamed hp, rfl, rfl⟩
  · intro ref href relation hmarker
    obtain ⟨p, hp, rfl⟩ := hof ref href
    have hp1 : tagMarker p.1 = some relation := htag hp ▸ hmarker
    simp [toETagRef, hp1]
  · intro ref href hmarker
    obtain ⟨p, hp, rfl⟩ := hof ref href
    have hp1 : tagMarker p.1 = none := htag hp ▸ hmarker
    simpa [toETagRef, hp1] using positionalRelation_eq_root_iff tags p.2
  · intro ref href hmarker
    obtain ⟨p, hp, rfl⟩ := hof ref href
    have hp1 : tagMarker p.1 = none := htag hp ▸ hmarker
    simpa [toETagRef, hp1] using positionalRelation_eq_reply_iff tags p.2
  · have hid : ∀ ref ∈ deriveETagReferences tags, ref.id ≠ "" := by
      intro ref href
      obtain ⟨p, hp, rfl⟩ := hof ref href
      exact (hnamed hp).2
    have hroot := firstReferenceByRelation_ne_iff hid .root
    have hreply := firstReferenceByRelation_ne_iff hid .reply
    unfold replyParentEventID
    grind

end NostrMash
