import NostrMash.Json
import NostrMash.References

/-!
# Validation of relay payloads

A payload passes four stages: it is a bounded JSON object with the seven fields of an event, the
fields have their types and formats and the identifier is the hash of the canonical serialization,
the signature verifies, and the content is safe to keep.
-/

namespace NostrMash.Nostr

structure Event where
  id : String
  pubkey : String
  createdAt : ℤ
  kind : ℤ
  tags : List Tag
  content : String
  sig : String
  deriving DecidableEq

inductive Stage where
  | structural
  | canonical
  | signature
  | safety
  deriving DecidableEq

inductive ErrorCode where
  | payloadEmpty
  | payloadTooLarge
  | invalidJSON
  | jsonNotObject
  | missingField
  | fieldTypeInvalid
  | idFormatInvalid
  | pubkeyFormatInvalid
  | sigFormatInvalid
  | createdAtInvalid
  | kindInvalid
  | tagsInvalid
  | canonicalIDMismatch
  | signatureInvalid
  | contentControlChars
  | contentTooLarge
  deriving DecidableEq

def ErrorCode.text : ErrorCode → String
  | .payloadEmpty => "payload_empty"
  | .payloadTooLarge => "payload_too_large"
  | .invalidJSON => "invalid_json"
  | .jsonNotObject => "json_not_object"
  | .missingField => "missing_field"
  | .fieldTypeInvalid => "field_type_invalid"
  | .idFormatInvalid => "id_format_invalid"
  | .pubkeyFormatInvalid => "pubkey_format_invalid"
  | .sigFormatInvalid => "sig_format_invalid"
  | .createdAtInvalid => "created_at_invalid"
  | .kindInvalid => "kind_invalid"
  | .tagsInvalid => "tags_invalid"
  | .canonicalIDMismatch => "canonical_id_mismatch"
  | .signatureInvalid => "signature_invalid"
  | .contentControlChars => "content_control_chars"
  | .contentTooLarge => "content_too_large"

structure ValidationError where
  code : ErrorCode
  message : String
  stage : Stage
  deriving DecidableEq

def ValidationError.error (e : ValidationError) : String := e.code.text ++ ": " ++ e.message

structure ValidationResult where
  outcome : Except ValidationError Event
  /-- The document, kept only when the payload is a bounded JSON object. -/
  rawJSON : Option Json

structure Options where
  maxRawJSONBytes : ℤ
  maxContentBytes : ℤ

def Options.withDefaults (o : Options) : Options :=
  { maxRawJSONBytes := if o.maxRawJSONBytes ≤ 0 then 256 * 1024 else o.maxRawJSONBytes
    maxContentBytes := if o.maxContentBytes ≤ 0 then 64 * 1024 else o.maxContentBytes }

/-- The bytes of a relay message, as their number and the document that they spell. -/
structure Payload where
  size : ℕ
  json : Option Json
  trimmed : Option Json
  trimmed_of_json : ∀ doc, json = some doc → trimmed = some doc

/-- The hash and the signature scheme, on the hexadecimal text of their bytes. -/
structure Crypto where
  sha256 : String → String
  parsePubKey : String → Bool
  parseSignature : String → Bool
  verify : (sig id pubkey : String) → Bool

abbrev Fields := List (String × Json)

def parseField {α : Type} (decode : Json → Option α) (type name : String) (fields : Fields) :
    Except ValidationError α :=
  match (Json.field fields name).bind decode with
  | some value => .ok value
  | none => .error ⟨.fieldTypeInvalid, "field " ++ name ++ " must be " ++ type, .canonical⟩

def parseStringField : String → Fields → Except ValidationError String :=
  parseField Json.decodeString "a string"

def parseInt64Field : String → Fields → Except ValidationError ℤ :=
  parseField Json.decodeInt64 "an integer"

/-- Go's `int` has 64 bits on the platforms the program is built for. -/
def parseIntField : String → Fields → Except ValidationError ℤ :=
  parseField Json.decodeInt64 "an integer"

def parseTag (raw : Json) (index : ℕ) : Except ValidationError Tag :=
  match raw.decodeStrings with
  | none =>
    .error ⟨.tagsInvalid, "tag at index " ++ toString index ++ " must be an array of strings",
      .canonical⟩
  | some [] =>
    .error ⟨.tagsInvalid, "tag at index " ++ toString index ++ " must contain at least one string",
      .canonical⟩
  | some values => .ok values

def parseTags (fields : Fields) : Except ValidationError (List Tag) :=
  match (Json.field fields "tags").bind Json.decodeArray with
  | none => .error ⟨.fieldTypeInvalid, "field tags must be an array", .canonical⟩
  | some list => list.zipIdx.mapM fun p => parseTag p.1 p.2

def maxUnixCreatedAt : ℤ := 4102444800

def requiredFields : List String :=
  ["id", "pubkey", "created_at", "kind", "tags", "content", "sig"]

def marshalCanonical (pubkey : String) (createdAt kind : ℤ) (tags : List Tag) (content : String) :
    String :=
  String.ofList <| Json.encodeArray
    [['0'], Json.encodeString pubkey, Json.encodeInt createdAt, Json.encodeInt kind,
      Json.encodeArray (tags.map fun tag => Json.encodeArray (tag.map Json.encodeString)),
      Json.encodeString content]

def check (holds : Bool) (code : ErrorCode) (message : String) (stage : Stage) :
    Except ValidationError Unit :=
  if holds then .ok () else .error ⟨code, message, stage⟩

def parseCanonical (crypto : Crypto) (fields : Fields) : Except ValidationError Event := do
  let id ← parseStringField "id" fields
  let pubkey ← parseStringField "pubkey" fields
  let createdAt ← parseInt64Field "created_at" fields
  let kind ← parseIntField "kind" fields
  let tags ← parseTags fields
  let content ← parseStringField "content" fields
  let sig ← parseStringField "sig" fields
  check (isLowerHex id 64) .idFormatInvalid "id must be 64 lowercase hex characters" .canonical
  check (isLowerHex pubkey 64) .pubkeyFormatInvalid "pubkey must be 64 lowercase hex characters"
    .canonical
  check (isLowerHex sig 128) .sigFormatInvalid "sig must be 128 lowercase hex characters" .canonical
  check (0 ≤ createdAt) .createdAtInvalid "created_at must be a non-negative unix timestamp"
    .canonical
  check (createdAt ≤ maxUnixCreatedAt) .createdAtInvalid
    "created_at is out of range for a unix timestamp" .canonical
  check (0 ≤ kind) .kindInvalid "kind must be a non-negative integer" .canonical
  check (kind ≤ 65535) .kindInvalid "kind must be <= 65535" .canonical
  check (crypto.sha256 (marshalCanonical pubkey createdAt kind tags content) = id)
    .canonicalIDMismatch "id does not match canonical event hash" .canonical
  return { id, pubkey, createdAt, kind, tags, content, sig }

def verifySignature (crypto : Crypto) (e : Event) : Except ValidationError Unit := do
  check (crypto.parsePubKey e.pubkey) .signatureInvalid
    "pubkey could not be parsed for schnorr verification" .signature
  check (crypto.parseSignature e.sig) .signatureInvalid
    "sig could not be parsed for schnorr verification" .signature
  check (crypto.verify e.sig e.id e.pubkey) .signatureInvalid
    "signature does not verify against id and pubkey" .signature

def isSafeRune (c : Char) : Bool := 0x20 ≤ c.toNat || c = '\n' || c = '\r' || c = '\t'

def checkContentSafety (opts : Options) (e : Event) : Except ValidationError Unit := do
  check (e.content.utf8ByteSize ≤ opts.maxContentBytes) .contentTooLarge
    ("content exceeds " ++ toString opts.maxContentBytes ++ " bytes") .safety
  check (e.content.toList.all isSafeRune) .contentControlChars
    "content contains disallowed control characters" .safety

def checkRequiredFields (fields : Fields) : Except ValidationError Unit :=
  match requiredFields.find? fun key => (Json.field fields key).isNone with
  | some key => .error ⟨.missingField, "missing required field: " ++ key, .structural⟩
  | none => .ok ()

def validateObject (crypto : Crypto) (opts : Options) (fields : Fields) :
    Except ValidationError Event := do
  checkRequiredFields fields
  let event ← parseCanonical crypto fields
  verifySignature crypto event
  checkContentSafety opts event
  return event

def parseAndValidate (crypto : Crypto) (options : Options) (payload : Payload) :
    ValidationResult :=
  let opts := options.withDefaults
  let reject (code : ErrorCode) (message : String) : ValidationResult :=
    { outcome := .error ⟨code, message, .structural⟩, rawJSON := none }
  if payload.size = 0 then reject .payloadEmpty "payload is empty"
  else if opts.maxRawJSONBytes < payload.size then
    reject .payloadTooLarge ("payload exceeds " ++ toString opts.maxRawJSONBytes ++ " bytes")
  else
    match payload.trimmed with
    | none => reject .invalidJSON "payload is not valid JSON"
    | some doc =>
      match doc.decodeObject with
      | none => reject .jsonNotObject "payload must be a JSON object"
      | some fields => { outcome := validateObject crypto opts fields, rawJSON := some doc }

structure WellFormed (crypto : Crypto) (options : Options) (e : Event) : Prop where
  id_hex : isLowerHex e.id 64 = true
  pubkey_hex : isLowerHex e.pubkey 64 = true
  sig_hex : isLowerHex e.sig 128 = true
  createdAt_nonneg : 0 ≤ e.createdAt
  createdAt_le : e.createdAt ≤ maxUnixCreatedAt
  kind_nonneg : 0 ≤ e.kind
  kind_le : e.kind ≤ 65535
  id_hash : crypto.sha256 (marshalCanonical e.pubkey e.createdAt e.kind e.tags e.content) = e.id
  signed : crypto.verify e.sig e.id e.pubkey = true
  content_bounded : e.content.utf8ByteSize ≤ options.withDefaults.maxContentBytes
  content_safe : ∀ c ∈ e.content.toList, isSafeRune c = true

theorem bind_eq_ok {ε α β : Type} {x : Except ε α} {f : α → Except ε β} {b : β} :
    (x >>= f) = .ok b ↔ ∃ a, x = .ok a ∧ f a = .ok b := by
  cases x with
  | error e => simp [bind, Except.bind]
  | ok a => simp [bind, Except.bind]

theorem check_eq_ok {holds : Bool} {code : ErrorCode} {message : String} {stage : Stage}
    {u : Unit} : check holds code message stage = .ok u ↔ holds = true := by
  cases holds with
  | true => simp [check]
  | false => simp [check]

variable {crypto : Crypto} {options : Options} {fields : Fields} {e : Event} {payload : Payload}

theorem wellFormed_of_validateObject
    (h : validateObject crypto options.withDefaults fields = .ok e) :
    WellFormed crypto options e := by
  simp only [validateObject, verifySignature, checkContentSafety, bind_eq_ok, check_eq_ok] at h
  obtain ⟨-, -, e', hc, -, ⟨-, -, -, -, hsigned⟩, -, ⟨-, hsize, hsafe⟩, hpure⟩ := h
  obtain rfl : e' = e := Except.ok.inj hpure
  simp only [parseCanonical, bind_eq_ok, check_eq_ok] at hc
  obtain ⟨id, -, pubkey, -, createdAt, -, kind, -, tags, -, content, -, sig, -, -, hid, -, hpubkey,
    -, hsig, -, hlow, -, hhigh, -, hkind, -, hkind', -, hhash, hevent⟩ := hc
  cases hevent
  exact
    { id_hex := hid
      pubkey_hex := hpubkey
      sig_hex := hsig
      createdAt_nonneg := of_decide_eq_true hlow
      createdAt_le := of_decide_eq_true hhigh
      kind_nonneg := of_decide_eq_true hkind
      kind_le := of_decide_eq_true hkind'
      id_hash := of_decide_eq_true hhash
      signed := hsigned
      content_bounded := of_decide_eq_true hsize
      content_safe := List.all_eq_true.mp hsafe }

theorem wellFormed_of_parseAndValidate
    (h : (parseAndValidate crypto options payload).outcome = .ok e) :
    WellFormed crypto options e := by
  simp only [parseAndValidate] at h
  split_ifs at h
  split at h
  · cases h
  · split at h
    · cases h
    · exact wellFormed_of_validateObject h

theorem accepted_of_toOption
    (h : (parseAndValidate crypto options payload).outcome.toOption = some e) :
    (parseAndValidate crypto options payload).outcome = .ok e := by
  cases ho : (parseAndValidate crypto options payload).outcome with
  | error err => simp [ho, Except.toOption] at h
  | ok e' => simpa [ho, Except.toOption] using h

end NostrMash.Nostr
