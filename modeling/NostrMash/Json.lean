import NostrMash.Text

/-!
# JSON values as Go decodes and encodes them

A document is read by `encoding/json` into Go values. A `null` leaves the Go value as it is, which
for a fresh value is its zero value.
-/

namespace NostrMash

/-- A JSON document. -/
inductive Json where
  | null
  | bool (b : Bool)
  | int (n : ℤ)
  | float (literal : String)
  | str (s : String)
  | arr (items : List Json)
  | obj (fields : List (String × Json))

namespace Json

def decodeStringInto (old : String) : Json → Option String
  | .null => some old
  | .str s => some s
  | _ => none

def decodeInt64Into (old : ℤ) : Json → Option ℤ
  | .null => some old
  | .int n => if inInt64 n then some n else none
  | _ => none

def decodeString : Json → Option String := decodeStringInto ""

def decodeInt64 : Json → Option ℤ := decodeInt64Into 0

def decodeArray : Json → Option (List Json)
  | .null => some []
  | .arr items => some items
  | _ => none

def decodeStrings (json : Json) : Option (List String) :=
  json.decodeArray.bind fun items => items.mapM decodeString

def decodeObject : Json → Option (List (String × Json))
  | .null => some []
  | .obj fields => some fields
  | _ => none

def field (fields : List (String × Json)) (name : String) : Option Json :=
  (fields.reverse.find? (·.1 = name)).map (·.2)

/-- The key under which `encoding/json` looks up a struct field, for names without `k` and `s`. -/
def foldName (key : String) : String := String.ofList (key.toList.map Char.toLower)

def escapeRune (c : Char) : List Char :=
  if c = '"' then ['\\', '"']
  else if c = '\\' then ['\\', '\\']
  else if c = '\n' then ['\\', 'n']
  else if c = '\r' then ['\\', 'r']
  else if c = '\t' then ['\\', 't']
  else if c.toNat = 0x08 then ['\\', 'b']
  else if c.toNat = 0x0C then ['\\', 'f']
  else if c.toNat < 0x20 then
    ['\\', 'u', '0', '0', Nat.digitChar (c.toNat / 16), Nat.digitChar (c.toNat % 16)]
  else if c.toNat = 0x2028 then ['\\', 'u', '2', '0', '2', '8']
  else if c.toNat = 0x2029 then ['\\', 'u', '2', '0', '2', '9']
  else [c]

def encodeString (s : String) : List Char := '"' :: s.toList.flatMap escapeRune ++ ['"']

def encodeInt (n : ℤ) : List Char := (toString n).toList

def encodeArray (items : List (List Char)) : List Char := '[' :: [','].intercalate items ++ [']']

end Json
end NostrMash
