import Mathlib
import NostrMash.References

/-!
# Senders and amounts of zap receipts

A kind 9735 receipt is signed by a lightning service. Its payer is the author of the zap request in
its `description` tag, then its `P` tag.
-/

namespace NostrMash

def firstTagValue (tags : List Tag) (tagName : String) : String :=
  (tags.findSome? fun tag =>
    match tag with
    | name :: value :: _ =>
      if name = tagName ∧ trimSpace value ≠ "" then some (trimSpace value) else none
    | _ => none).getD ""

def firstReferencedEventID (tags : List Tag) : String := firstTagValue tags "e"

def descriptions (tags : List Tag) : List String :=
  tags.filterMap fun tag =>
    match tag with
    | name :: value :: _ => if name = "description" then some value else none
    | _ => none

def isHexLetter (c : Char) : Bool :=
  ('0' ≤ c && c ≤ '9') || ('a' ≤ c && c ≤ 'f') || ('A' ≤ c && c ≤ 'F')

def canonicalHexPubkey (value : String) : String :=
  if (trimSpace value).utf8ByteSize = 64 ∧ (trimSpace value).toList.all isHexLetter = true then
    toLower (trimSpace value)
  else ""

/-- What `json.Unmarshal` reads from a zap request: its `pubkey` alone, and its `tags` alone. -/
structure RequestReader where
  pubkey : String → Option String
  tags : String → Option (List Tag)

def zapReceiptSender (reader : RequestReader) (receiptPubkey : String) (tags : List Tag) :
    String :=
  let requested := (descriptions tags).findSome? fun raw =>
    (reader.pubkey raw).bind fun pubkey =>
      if canonicalHexPubkey pubkey ≠ "" then some (canonicalHexPubkey pubkey) else none
  match requested with
  | some pubkey => pubkey
  | none =>
    if canonicalHexPubkey (firstTagValue tags "P") ≠ "" then
      canonicalHexPubkey (firstTagValue tags "P")
    else if canonicalHexPubkey (trimSpace receiptPubkey) ≠ "" then
      canonicalHexPubkey (trimSpace receiptPubkey)
    else trimSpace receiptPubkey

def parseZapAmountSats (raw : String) : ℤ :=
  match parseInt64 (trimSpace raw) with
  | none => 0
  | some amount => if amount ≤ 0 then 0 else if 1000 ≤ amount then amount / 1000 else amount

def descriptionZapAmountSats (reader : RequestReader) (raw : String) : ℤ :=
  if trimSpace raw = "" then 0
  else match reader.tags (trimSpace raw) with
    | none => 0
    | some tags => parseZapAmountSats (firstTagValue tags "amount")

def bolt11SatsScale (mult : Option Char) : ℕ × ℕ :=
  match mult with
  | some 'm' => (100000, 1)
  | some 'u' => (100, 1)
  | some 'n' => (1, 10)
  | some 'p' => (1, 10000)
  | _ => (100000000, 1)

def splitBolt11Decimal (raw : List Char) : Option (List Char × List Char) :=
  let whole := raw.takeWhile (· ≠ '.')
  let frac := (raw.dropWhile (· ≠ '.')).drop 1
  if raw = [] ∨ 1 < raw.count '.' ∨ (whole = [] ∧ frac = []) then none
  else if (whole ++ frac).all Char.isDigit then some (if whole = [] then ['0'] else whole, frac)
  else none

def bolt11DecimalToSats (raw : List Char) (num den : ℕ) : ℤ :=
  match splitBolt11Decimal raw with
  | none => 0
  | some (whole, frac) =>
    let digits := (whole ++ frac).dropWhile (· = '0')
    if digits = [] ∨ 30 < digits.length then 0
    else
      let value : ℤ := (((parseDigits digits).getD 0 * num / (10 ^ frac.length * den) : ℕ) : ℤ)
      if inInt64 value then value else 0

def bolt11Prefixes : List String := ["lnbcrt", "lnbc", "lntb"]

def parseBolt11AmountSats (invoice : String) : ℤ :=
  let text := (trimSpace invoice).toList
  let hrp := (toLower (String.ofList ((text.reverse.dropWhile (· ≠ '1')).drop 1).reverse)).toList
  match bolt11Prefixes.find? (fun p => p.toList.isPrefixOf hrp) with
  | none => 0
  | some chain =>
    let amount := hrp.drop chain.toList.length
    let mult := amount.getLast?.filter fun c => c = 'm' || c = 'u' || c = 'n' || c = 'p'
    let decimal := if mult.isSome then amount.dropLast else amount
    bolt11DecimalToSats decimal (bolt11SatsScale mult).1 (bolt11SatsScale mult).2

def zapAmounts (reader : RequestReader) (tags : List Tag) : List ℤ :=
  parseZapAmountSats (firstTagValue tags "amount") ::
    (descriptions tags).map (descriptionZapAmountSats reader) ++
    [parseBolt11AmountSats (firstTagValue tags "bolt11")]

def zapReceiptAmountSats (reader : RequestReader) (tags : List Tag) : ℤ :=
  ((zapAmounts reader tags).find? (0 < ·)).getD 0

/-- The amount in millisatoshis, in 64 bits. -/
def zapMsats (reader : RequestReader) (tags : List Tag) : ℤ :=
  (zapReceiptAmountSats reader tags * 1000).bmod (2 ^ 64)

theorem zapReceiptAmountSats_nonneg (reader : RequestReader) (tags : List Tag) :
    0 ≤ zapReceiptAmountSats reader tags := by
  rw [zapReceiptAmountSats]
  cases h : (zapAmounts reader tags).find? (0 < ·) with
  | none => rfl
  | some sats =>
    have hpos : 0 < sats := by simpa using List.find?_some h
    exact hpos.le

theorem zapMsats_of_fits {reader : RequestReader} {tags : List Tag}
    (h : zapReceiptAmountSats reader tags * 1000 < 2 ^ 63) :
    zapMsats reader tags = zapReceiptAmountSats reader tags * 1000 := by
  have hnn := zapReceiptAmountSats_nonneg reader tags
  rw [zapMsats, Int.bmod_eq_of_le] <;> omega

example : parseBolt11AmountSats "lnbc2500u1pvjluez" = 250000 := by decide

end NostrMash
