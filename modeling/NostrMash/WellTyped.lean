import NostrMash.Validator

/-!
# Accepted payloads and the documents they leave

The document of an accepted payload is kept and decoded again by others.
-/

namespace NostrMash.Nostr
open List Option

set_option maxRecDepth 1000

/-- The document is an object with the fields of the event, each of its own JSON type. -/
def WellTyped (doc : Json) (e : Event) : Prop :=
  ∃ fields, doc = .obj fields ∧
    Json.field fields "id" = some (.str e.id) ∧
    Json.field fields "pubkey" = some (.str e.pubkey) ∧
    Json.field fields "created_at" = some (.int e.createdAt) ∧
    Json.field fields "kind" = some (.int e.kind) ∧
    Json.field fields "tags" = some (.arr (e.tags.map fun tag => .arr (tag.map .str))) ∧
    Json.field fields "content" = some (.str e.content) ∧
    Json.field fields "sig" = some (.str e.sig) ∧ ∀ tag ∈ e.tags, tag ≠ []

/-- No field of an event and no item of a tag is `null`. -/
def NullFree (fields : Fields) : Prop :=
  (∀ name ∈ requiredFields, Json.field fields name ≠ some .null) ∧
    ∀ items, Json.field fields "tags" = some (.arr items) → ∀ values, .arr values ∈ items →
      .null ∉ values

/-- The object that a payload spells is free of `null`. -/
def Payload.NullFree (payload : Payload) : Prop :=
  ∀ doc ∈ payload.trimmed, ∀ fields ∈ doc.decodeObject, Nostr.NullFree fields

section
variable {fields : Fields} {name s : String} {json raw : Json} {items : List Json} {tags : List Tag}

theorem decodeString_of_ne_null (h : json.decodeString = some s) (hn : json ≠ .null) :
    json = .str s := by
  cases json with
  | null => exact absurd rfl hn
  | str t => exact congrArg Json.str (some.inj h)
  | _ => cases h

theorem decodeInt64_of_ne_null {n : ℤ} (h : json.decodeInt64 = some n) (hn : json ≠ .null) :
    json = .int n := by
  cases json with
  | null => exact absurd rfl hn
  | int m =>
    simp only [Json.decodeInt64, Json.decodeInt64Into] at h
    split_ifs at h
    exact congrArg Json.int (some.inj h)
  | _ => cases h

theorem parseField_eq_ok {α : Type} {decode : Json → Option α} {type : String} {value : α} :
    parseField decode type name fields = .ok value ↔
      ∃ json, Json.field fields name = some json ∧ decode json = some value := by
  unfold parseField
  cases Json.field fields name with
  | none => simp
  | some json =>
    cases hd : decode json with
    | none => simp [hd]
    | some v => simp [hd]

theorem field_of_parseStringField (h : parseStringField name fields = .ok s)
    (hn : Json.field fields name ≠ some .null) : Json.field fields name = some (.str s) := by
  obtain ⟨json, hj, hd⟩ := parseField_eq_ok.mp h
  rw [hj, decodeString_of_ne_null hd fun he => hn (he ▸ hj)]

theorem field_of_parseInt64Field {n : ℤ} (h : parseInt64Field name fields = .ok n)
    (hn : Json.field fields name ≠ some .null) : Json.field fields name = some (.int n) := by
  obtain ⟨json, hj, hd⟩ := parseField_eq_ok.mp h
  rw [hj, decodeInt64_of_ne_null hd fun he => hn (he ▸ hj)]

theorem items_of_mapM_decodeString {values : List String}
    (h : items.mapM Json.decodeString = some values) (hn : .null ∉ items) :
    items = values.map .str := by
  induction items generalizing values with
  | nil =>
    obtain rfl : [] = values := by simpa using h
    rfl
  | cons item items ih =>
    simp only [mapM_cons, Option.bind_eq_bind, Option.bind_eq_some_iff, Option.pure_def,
      Option.some.injEq] at h
    obtain ⟨s, hs, rest, hrest, rfl⟩ := h
    rw [mem_cons, not_or] at hn
    rw [decodeString_of_ne_null hs (Ne.symm hn.1), ih hrest hn.2]
    rfl

theorem parseTag_eq_ok {index : ℕ} {tag : Tag} (h : parseTag raw index = .ok tag) :
    raw.decodeStrings = some tag ∧ tag ≠ [] := by
  unfold parseTag at h
  cases hd : raw.decodeStrings with
  | none => simp [hd] at h
  | some values =>
    cases values with
    | nil => simp [hd] at h
    | cons v vs =>
      obtain rfl : v :: vs = tag := by simpa [hd] using h
      exact ⟨rfl, cons_ne_nil v vs⟩

theorem arr_of_decodeStrings {tag : Tag} (h : raw.decodeStrings = some tag) (hne : tag ≠ [])
    (hn : ∀ values, raw = .arr values → .null ∉ values) :
    raw = .arr (tag.map .str) := by
  cases raw with
  | null =>
    obtain rfl : [] = tag := by simpa [Json.decodeStrings, Json.decodeArray] using h
    exact absurd rfl hne
  | arr values =>
    exact congrArg Json.arr (items_of_mapM_decodeString h (hn values rfl))
  | _ => cases h

theorem items_of_mapM_parseTag {k : ℕ}
    (h : (items.zipIdx k).mapM (fun p => parseTag p.1 p.2) = .ok tags)
    (hn : ∀ values, .arr values ∈ items → .null ∉ values) :
    items = tags.map (fun tag => .arr (tag.map .str)) ∧ ∀ tag ∈ tags, tag ≠ [] := by
  induction items generalizing tags k with
  | nil =>
    obtain rfl : [] = tags := Except.ok.inj h
    exact ⟨rfl, fun _ ht => nomatch ht⟩
  | cons item items ih =>
    simp only [zipIdx_cons, mapM_cons, bind_eq_ok] at h
    obtain ⟨tag, htag, rest, hrest, hpure⟩ := h
    cases hpure
    obtain ⟨hd, hne⟩ := parseTag_eq_ok htag
    obtain ⟨hitems, htags⟩ := ih hrest fun values hv => hn values (mem_cons_of_mem item hv)
    have hitem := arr_of_decodeStrings hd hne fun values hv => hn values (hv ▸ (.head _))
    refine ⟨by rw [hitem, hitems]; rfl, forall_mem_cons.mpr ⟨hne, htags⟩⟩

theorem field_of_parseTags (h : parseTags fields = .ok tags) (hn : NullFree fields) :
    Json.field fields "tags" = some (.arr (tags.map fun tag => .arr (tag.map .str))) ∧
      ∀ tag ∈ tags, tag ≠ [] := by
  unfold parseTags at h
  cases hf : Json.field fields "tags" with
  | none => simp [hf] at h
  | some json =>
    cases json with
    | null => exact absurd hf (hn.1 "tags" (by decide))
    | arr items =>
      simp only [hf, bind_some, Json.decodeArray] at h
      obtain ⟨hitems, htags⟩ := items_of_mapM_parseTag h (hn.2 items hf)
      exact ⟨by rw [hitems], htags⟩
    | _ => simp [hf, Json.decodeArray] at h

end

section
variable {crypto : Crypto} {options : Options} {fields : Fields} {payload : Payload} {e : Event}
  {doc : Json}

theorem parses_of_parseCanonical (h : parseCanonical crypto fields = .ok e) :
    parseStringField "id" fields = .ok e.id ∧ parseStringField "pubkey" fields = .ok e.pubkey ∧
      parseInt64Field "created_at" fields = .ok e.createdAt ∧
      parseIntField "kind" fields = .ok e.kind ∧ parseTags fields = .ok e.tags ∧
      parseStringField "content" fields = .ok e.content ∧
      parseStringField "sig" fields = .ok e.sig := by
  simp only [parseCanonical, bind_eq_ok] at h
  obtain ⟨id, hid, pubkey, hpubkey, createdAt, hcreated, kind, hkind, tags, htags, content,
    hcontent, sig, hsig, -, -, -, -, -, -, -, -, -, -, -, -, -, -, -, -, hpure⟩ := h
  cases hpure
  exact ⟨hid, hpubkey, hcreated, hkind, htags, hcontent, hsig⟩

theorem object_of_accepted (h : (parseAndValidate crypto options payload).outcome = .ok e) :
    ∃ doc fields, payload.trimmed = some doc ∧ doc.decodeObject = some fields ∧
      (parseAndValidate crypto options payload).rawJSON = some doc ∧
      checkRequiredFields fields = .ok () ∧ parseCanonical crypto fields = .ok e := by
  unfold parseAndValidate at h ⊢
  dsimp only at h ⊢
  split_ifs at h ⊢
  cases hdoc : payload.trimmed with
  | none => simp [hdoc] at h
  | some doc =>
    cases hfields : doc.decodeObject with
    | none => simp [hdoc, hfields] at h
    | some fields =>
      simp only [hdoc, hfields, validateObject, bind_eq_ok] at h
      obtain ⟨u, hrequired, e', hcanonical, -, -, -, -, hpure⟩ := h
      cases hpure
      exact ⟨doc, fields, rfl, hfields, by simp [hfields], hrequired, hcanonical⟩

theorem obj_of_required (hfields : doc.decodeObject = some fields)
    (h : checkRequiredFields fields = .ok ()) : doc = .obj fields := by
  cases doc with
  | null =>
    cases hfields
    simp [checkRequiredFields, requiredFields, Json.field] at h
  | obj fields' => exact congrArg Json.obj (some.inj hfields)
  | _ => cases hfields

theorem wellTyped_of_nullFree (hobj : doc = .obj fields)
    (hc : parseCanonical crypto fields = .ok e) (hn : NullFree fields) : WellTyped doc e := by
  obtain ⟨hid, hpubkey, hcreated, hkind, htags, hcontent, hsig⟩ := parses_of_parseCanonical hc
  obtain ⟨htagsField, hne⟩ := field_of_parseTags htags hn
  exact ⟨fields, hobj, field_of_parseStringField hid (hn.1 _ (by decide)),
    field_of_parseStringField hpubkey (hn.1 _ (by decide)),
    field_of_parseInt64Field hcreated (hn.1 _ (by decide)),
    field_of_parseInt64Field hkind (hn.1 _ (by decide)), htagsField,
    field_of_parseStringField hcontent (hn.1 _ (by decide)),
    field_of_parseStringField hsig (hn.1 _ (by decide)), hne⟩

theorem nullFree_of_wellTyped (h : WellTyped (.obj fields) e) : NullFree fields := by
  obtain ⟨fields', hobj, hid, hpubkey, hcreated, hkind, htags, hcontent, hsig, -⟩ := h
  cases hobj
  refine ⟨?_, ?_⟩
  · simp only [requiredFields, forall_mem_cons, hid, hpubkey, hcreated, hkind, htags, hcontent,
      hsig]
    simp
  · intro items hitems values hvalues
    obtain rfl := Json.arr.inj (some.inj (htags.symm.trans hitems))
    obtain ⟨tag, -, htag⟩ := mem_map.mp hvalues
    cases htag
    simp

end

def emptyNote : Event :=
  { id := "9560462663421aa1f41a817b052e43987b465cca609fe3b642d5f792e4c939b6"
    pubkey := "f9308a019258c31049344f85f89d5229b531c845836f99b08601f113bce036f9"
    createdAt := 1700000000
    kind := 1
    tags := []
    content := ""
    sig := "630b3b4a5e1d5216f707e4f1077b9da020a58be2045dd9ab0e68f99876dcfb46" ++
      "c78b6f24ecadf9bb7c770a3e8ce582942203b81233e3b86e6e370b949fc51617" }

def emptyNoteCrypto : Crypto where
  sha256 text :=
    if text = marshalCanonical emptyNote.pubkey 1700000000 1 [] "" then emptyNote.id else ""
  parsePubKey pubkey := pubkey = emptyNote.pubkey
  parseSignature sig := sig = emptyNote.sig
  verify sig id pubkey := sig = emptyNote.sig && id = emptyNote.id && pubkey = emptyNote.pubkey

def emptyNoteFields (content : Json) : Fields :=
  [("id", .str emptyNote.id), ("pubkey", .str emptyNote.pubkey), ("created_at", .int 1700000000),
    ("kind", .int 1), ("tags", .arr []), ("content", content), ("sig", .str emptyNote.sig)]

def emptyNotePayload (size : ℕ) (content : Json) : Payload :=
  { size := size, json := some (.obj (emptyNoteFields content)),
    trimmed := some (.obj (emptyNoteFields content)), trimmed_of_json := fun _ h => h }

end NostrMash.Nostr
