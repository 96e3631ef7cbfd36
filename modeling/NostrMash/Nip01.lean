import Mathlib
import NostrMash.Validator

/-!
# The canonical serialization and NIP-01

NIP-01 hashes the array of an event's fields without white space and escapes seven characters, with
the other control characters written as `\u00XX`. Go's encoder also escapes the line separators
U+2028 and U+2029.
-/

namespace NostrMash.Nostr
open List

def nip01Rune (c : Char) : List Char :=
  if c = '"' then ['\\', '"']
  else if c = '\\' then ['\\', '\\']
  else if c = '\n' then ['\\', 'n']
  else if c = '\r' then ['\\', 'r']
  else if c = '\t' then ['\\', 't']
  else if c.toNat = 0x08 then ['\\', 'b']
  else if c.toNat = 0x0C then ['\\', 'f']
  else if c.toNat < 0x20 then
    ['\\', 'u', '0', '0', Nat.digitChar (c.toNat / 16), Nat.digitChar (c.toNat % 16)]
  else [c]

def nip01String (s : String) : List Char := '"' :: s.toList.flatMap nip01Rune ++ ['"']

def nip01Serialization (pubkey : String) (createdAt kind : ℤ) (tags : List Tag)
    (content : String) : String :=
  String.ofList <| Json.encodeArray
    [['0'], nip01String pubkey, Json.encodeInt createdAt, Json.encodeInt kind,
      Json.encodeArray (tags.map fun tag => Json.encodeArray (tag.map nip01String)),
      nip01String content]

structure Spells (fields : Fields) (e : Event) : Prop where
  id : parseStringField "id" fields = .ok e.id
  pubkey : parseStringField "pubkey" fields = .ok e.pubkey
  createdAt : parseInt64Field "created_at" fields = .ok e.createdAt
  kind : parseIntField "kind" fields = .ok e.kind
  tags : parseTags fields = .ok e.tags
  content : parseStringField "content" fields = .ok e.content
  sig : parseStringField "sig" fields = .ok e.sig

/-- The event is serialized as NIP-01 says, and no object that spells it with its NIP-01 hash as the
identifier is rejected for its identifier. -/
def FollowsNip01 (pubkey : String) (createdAt kind : ℤ) (tags : List Tag) (content : String) :
    Prop :=
  marshalCanonical pubkey createdAt kind tags content =
      nip01Serialization pubkey createdAt kind tags content ∧
    ∀ (crypto : Crypto) (fields : Fields) (sig : String) (err : ValidationError),
      Spells fields
        { id := crypto.sha256 (nip01Serialization pubkey createdAt kind tags content)
          pubkey := pubkey, createdAt := createdAt, kind := kind, tags := tags, content := content
          sig := sig } →
      parseCanonical crypto fields = .error err → err.code ≠ .canonicalIDMismatch

def isLineSeparator (c : Char) : Bool := c.toNat = 0x2028 || c.toNat = 0x2029

def SeparatorFree (s : String) : Prop := ∀ c ∈ s.toList, isLineSeparator c = false

def excess (s : String) : ℕ := 5 * s.toList.countP isLineSeparator

variable {s : String}

theorem excess_eq_zero_iff : excess s = 0 ↔ SeparatorFree s := by
  unfold excess SeparatorFree
  rw [Nat.mul_eq_zero, or_iff_right (by decide), countP_eq_zero]
  simp only [Bool.not_eq_true]

theorem escapeRune_of_not_separator {c : Char} (h : isLineSeparator c = false) :
    Json.escapeRune c = nip01Rune c := by
  simp only [isLineSeparator, Bool.or_eq_false_iff, decide_eq_false_iff_not] at h
  simp only [Json.escapeRune, nip01Rune, if_neg h.1, if_neg h.2]

theorem length_escapeRune (c : Char) :
    (Json.escapeRune c).length = (nip01Rune c).length + if isLineSeparator c then 5 else 0 := by
  cases h : isLineSeparator c with
  | false => simp [escapeRune_of_not_separator h]
  | true =>
    simp only [isLineSeparator, Bool.or_eq_true, decide_eq_true_eq] at h
    rcases h with h | h
    · obtain rfl : c = '\u2028' := Char.toNat_inj.mp h
      decide
    · obtain rfl : c = '\u2029' := Char.toNat_inj.mp h
      decide

theorem length_encodeString (s : String) :
    (Json.encodeString s).length = (nip01String s).length + excess s := by
  have hflat : ∀ cs : List Char, (cs.flatMap Json.escapeRune).length =
      (cs.flatMap nip01Rune).length + 5 * cs.countP isLineSeparator := by
    intro cs
    induction cs with
    | nil => rfl
    | cons c cs ih =>
      simp only [flatMap_cons, length_append, ih, length_escapeRune, countP_cons]
      split_ifs
      · omega
      · omega
  simp only [Json.encodeString, nip01String, excess, length_cons, length_append, hflat]
  omega

theorem length_encodeArray_cons (item : List Char) (items : List (List Char)) :
    (Json.encodeArray (item :: items)).length =
      item.length + (items.map (·.length + 1)).sum + 2 := by
  have hrest : ∀ item : List Char, ([','].intercalate (item :: items)).length =
      item.length + (items.map (·.length + 1)).sum := by
    induction items with
    | nil => simp [List.intercalate]
    | cons next items ih =>
      intro item
      rw [intercalate_cons_of_ne_nil (cons_ne_nil next items)]
      simp only [length_append, length_singleton, ih next, map_cons, sum_cons]
      omega
  simp [Json.encodeArray, hrest]

theorem length_encodeArray_map {α : Type} {f g : α → List Char} {k : α → ℕ}
    (h : ∀ a, (f a).length = (g a).length + k a) (items : List α) :
    (Json.encodeArray (items.map f)).length =
      (Json.encodeArray (items.map g)).length + (items.map k).sum := by
  have hsum : ∀ items : List α, ((items.map f).map (·.length + 1)).sum =
      ((items.map g).map (·.length + 1)).sum + (items.map k).sum := by
    intro items
    induction items with
    | nil => rfl
    | cons a items ih =>
      simp only [map_cons, sum_cons, ih, h a]
      omega
  cases items with
  | nil => rfl
  | cons a items =>
    simp only [map_cons, length_encodeArray_cons, hsum, h a, sum_cons]
    omega

variable (pubkey : String) (createdAt kind : ℤ) (tags : List Tag) (content : String)
  {err : ValidationError}

theorem length_marshalCanonical :
    (marshalCanonical pubkey createdAt kind tags content).toList.length =
      (nip01Serialization pubkey createdAt kind tags content).toList.length +
        (excess pubkey + (tags.map fun tag => (tag.map excess).sum).sum + excess content) := by
  have htag : ∀ tag : Tag, (Json.encodeArray (tag.map Json.encodeString)).length =
      (Json.encodeArray (tag.map nip01String)).length + (tag.map excess).sum := fun tag =>
    length_encodeArray_map length_encodeString tag
  have htags := length_encodeArray_map htag tags
  simp only [marshalCanonical, nip01Serialization, String.toList_ofList, length_encodeArray_cons,
    map_cons, map_nil, sum_cons, sum_nil, length_encodeString, htags]
  omega

theorem encodeString_of_separatorFree (h : SeparatorFree s) :
    Json.encodeString s = nip01String s := by
  have hflat : s.toList.flatMap Json.escapeRune = s.toList.flatMap nip01Rune :=
    flatMap_congr fun c hc => escapeRune_of_not_separator (h c hc)
  rw [Json.encodeString, nip01String, hflat]

theorem marshalCanonical_eq_iff : marshalCanonical pubkey createdAt kind tags content =
        nip01Serialization pubkey createdAt kind tags content ↔
      SeparatorFree pubkey ∧ (∀ tag ∈ tags, ∀ s ∈ tag, SeparatorFree s) ∧
        SeparatorFree content := by
  constructor
  · intro h
    have hlength := length_marshalCanonical pubkey createdAt kind tags content
    rw [h] at hlength
    have htags : (tags.map fun tag => (tag.map excess).sum).sum = 0 := by omega
    simp only [sum_eq_zero_iff, forall_mem_map] at htags
    refine ⟨excess_eq_zero_iff.mp (by omega), fun tag htag s hs => ?_,
      excess_eq_zero_iff.mp (by omega)⟩
    exact excess_eq_zero_iff.mp (htags tag htag s hs)
  · rintro ⟨hpubkey, htags, hcontent⟩
    have htags' : tags.map (fun tag => Json.encodeArray (tag.map Json.encodeString)) =
        tags.map fun tag => Json.encodeArray (tag.map nip01String) := by
      refine map_congr_left fun tag htag => ?_
      rw [map_congr_left fun s hs => encodeString_of_separatorFree (htags tag htag s hs)]
    rw [marshalCanonical, nip01Serialization, encodeString_of_separatorFree hpubkey, htags',
      encodeString_of_separatorFree hcontent]

theorem check_bind_eq_error {α : Type} {holds : Bool} {code : ErrorCode} {message : String}
    {stage : Stage} {f : Unit → Except ValidationError α}
    (h : (check holds code message stage >>= f) = .error err) :
    err.code = code ∨ holds = true ∧ f () = .error err := by
  cases holds with
  | false => exact .inl (by rw [← Except.error.inj h])
  | true => exact .inr ⟨rfl, h⟩

theorem code_of_parseCanonical {crypto : Crypto} {fields : Fields} {e : Event}
    (hs : Spells fields e)
    (hid : crypto.sha256 (marshalCanonical e.pubkey e.createdAt e.kind e.tags e.content) = e.id)
    (h : parseCanonical crypto fields = .error err) : err.code ≠ .canonicalIDMismatch := by
  have hok : ∀ {α β : Type} (a : α) (f : α → Except ValidationError β),
      ((Except.ok a : Except ValidationError α) >>= f) = f a := fun _ _ => rfl
  simp only [parseCanonical, hs.id, hs.pubkey, hs.createdAt, hs.kind, hs.tags, hs.content, hs.sig,
    hok] at h
  iterate 7
    obtain hcode | ⟨-, h⟩ := check_bind_eq_error h
    · rw [hcode]
      decide
  simp only [hid, check] at h
  cases h

/-- The serialization follows NIP-01 exactly for the events without line separators. -/
theorem followsNip01_iff_separatorFree (pubkey : String) (createdAt kind : ℤ) (tags : List Tag)
    (content : String) : FollowsNip01 pubkey createdAt kind tags content ↔
      SeparatorFree pubkey ∧ (∀ tag ∈ tags, ∀ s ∈ tag, SeparatorFree s) ∧
        SeparatorFree content := by
  rw [← marshalCanonical_eq_iff pubkey createdAt kind tags content]
  refine ⟨And.left, fun h => ⟨h, fun crypto fields sig err hs herr => ?_⟩⟩
  exact code_of_parseCanonical hs (by rw [h]) herr

/-- A note with a line separator between two letters. -/
theorem line_separator_escaped :
    ¬ FollowsNip01 "f9308a019258c31049344f85f89d5229b531c845836f99b08601f113bce036f9" 1700000000
      1 [] "a\u2028b" := by
  intro h
  exact absurd h.1 (by decide)

end NostrMash.Nostr
