import NostrMash.AuthorStats
import NostrMash.Bolt11

/-!
# Sources of a zap amount

The amount of a receipt is the first positive one of its `amount` tag, of the requests in its
descriptions and of its invoice. The sources are compared with each other, and with the 64 bits in
which the amount is counted.
-/

namespace NostrMash
open Bolt11 AuthorStats Counters Option

section
variable {reader : RequestReader} {tags : List Tag}

theorem parseZapAmountSats_bounds (raw : String) :
    0 ≤ parseZapAmountSats raw ∧ parseZapAmountSats raw * 1000 < 2 ^ 63 := by
  unfold parseZapAmountSats
  cases hparse : parseInt64 (trimSpace raw) with
  | none => simp
  | some amount =>
    have hin : inInt64 amount = true := (filter_eq_some_iff.mp hparse).2
    rw [inInt64, Bool.and_eq_true, decide_eq_true_eq, decide_eq_true_eq] at hin
    dsimp only
    split_ifs <;> omega

theorem descriptionZapAmountSats_bounds (raw : String) : 0 ≤ descriptionZapAmountSats reader raw ∧
      descriptionZapAmountSats reader raw * 1000 < 2 ^ 63 := by
  unfold descriptionZapAmountSats
  split_ifs
  · simp
  · split
    · simp
    · exact parseZapAmountSats_bounds _

theorem parseBolt11AmountSats_nonneg (invoice : String) : 0 ≤ parseBolt11AmountSats invoice := by
  by_cases h : parseBolt11AmountSats invoice = 0
  · exact h.ge
  · obtain ⟨raw, mult, henc⟩ := exists_encodes h
    rw [parseBolt11AmountSats_of_encodes henc]
    split_ifs <;> omega

/-- Neither the receipt nor a request in it has an amount tag that counts. -/
def NoTagAmount (reader : RequestReader) (tags : List Tag) : Prop :=
  parseZapAmountSats (firstTagValue tags "amount") = 0 ∧
    ∀ raw ∈ descriptions tags, descriptionZapAmountSats reader raw = 0

theorem zapReceiptAmountSats_of_first (before : List ℤ) {after : List ℤ} {sats : ℤ}
    (h : zapAmounts reader tags = before ++ sats :: after) (hbefore : ∀ n ∈ before, n = 0)
    (hpos : 0 < sats) : zapReceiptAmountSats reader tags = sats := by
  have hfind : (zapAmounts reader tags).find? (0 < ·) = some sats := by
    refine List.find?_eq_some_iff_append.mpr ⟨by simpa using hpos, before, after, h, ?_⟩
    intro n hn
    simp [hbefore n hn]
  rw [zapReceiptAmountSats, hfind, getD_some]

theorem zapReceiptAmountSats_of_invoice (h : NoTagAmount reader tags) :
    zapReceiptAmountSats reader tags = parseBolt11AmountSats (firstTagValue tags "bolt11") := by
  have hzero : ∀ n ∈ parseZapAmountSats (firstTagValue tags "amount") ::
      (descriptions tags).map (descriptionZapAmountSats reader), n = 0 := by
    simpa [NoTagAmount] using h
  rcases (parseBolt11AmountSats_nonneg (firstTagValue tags "bolt11")).eq_or_lt with hb | hb
  · have hnone : (zapAmounts reader tags).find? (0 < ·) = none := by
      rw [zapAmounts, List.find?_eq_none]
      intro n hn
      rcases List.mem_append.mp hn with hn | hn
      · simp [hzero n hn]
      · simp [List.mem_singleton.mp hn, ← hb]
    rw [zapReceiptAmountSats, hnone, ← hb, getD_none]
  · exact zapReceiptAmountSats_of_first _ rfl hzero hb

theorem zapReceiptAmountSats_fits (h : ¬ NoTagAmount reader tags) :
    zapReceiptAmountSats reader tags * 1000 < 2 ^ 63 := by
  have hbounds : ∀ n ∈ parseZapAmountSats (firstTagValue tags "amount") ::
      (descriptions tags).map (descriptionZapAmountSats reader), 0 ≤ n ∧ n * 1000 < 2 ^ 63 := by
    simp only [List.forall_mem_cons, List.forall_mem_map]
    exact ⟨parseZapAmountSats_bounds _, fun raw _ => descriptionZapAmountSats_bounds raw⟩
  rw [zapReceiptAmountSats, zapAmounts, List.find?_append]
  cases hfind : (parseZapAmountSats (firstTagValue tags "amount") ::
      (descriptions tags).map (descriptionZapAmountSats reader)).find? (0 < ·) with
  | some sats => exact (hbounds sats (List.mem_of_find?_eq_some hfind)).2
  | none =>
    refine absurd ?_ h
    have hzero : ∀ n ∈ parseZapAmountSats (firstTagValue tags "amount") ::
        (descriptions tags).map (descriptionZapAmountSats reader), n = 0 := by
      intro n hn
      have hle : ¬ 0 < n := by simpa using List.find?_eq_none.mp hfind n hn
      exact le_antisymm (not_lt.mp hle) (hbounds n hn).1
    simpa [NoTagAmount] using hzero

end

/-- The text is a decimal numeral of the amount, in millisatoshis. -/
def Writes (text : String) (amount : ℕ) : Prop :=
  text.toList ≠ [] ∧ (∀ c ∈ text.toList, c.isDigit = true) ∧ digitsValue text.toList = amount

/-- The receipt carries the amount in its `amount` tag, in the `amount` tag of the first request
that has one, or in its invoice. -/
inductive Carries (reader : RequestReader) (amount : ℕ) (tags : List Tag) : Prop
  | amountTag (h : Writes (firstTagValue tags "amount") amount)
  | description (before after : List String) (raw : String) (request : List Tag)
      (hnone : parseZapAmountSats (firstTagValue tags "amount") = 0)
      (hsplit : descriptions tags = before ++ raw :: after)
      (hbefore : ∀ other ∈ before, descriptionZapAmountSats reader other = 0)
      (hraw : trimSpace raw ≠ "") (hrequest : reader.tags (trimSpace raw) = some request)
      (h : Writes (firstTagValue request "amount") amount)
  | invoice (raw : List Char) (mult : Option Char) (hnone : NoTagAmount reader tags)
      (hencodes : Encodes (firstTagValue tags "bolt11") raw mult)
      (hdigits : significantDigits raw ≤ 30)
      (h : (digitsValue (raw.erase '.') : ℚ) / 10 ^ (fraction raw).length * satsPerUnit mult * 1000
        = amount)

theorem parseZapAmountSats_of_writes {text : String} {amount : ℕ} (h : Writes text amount)
    (hmin : 1000 ≤ amount) (hmax : amount < 2 ^ 63) :
    parseZapAmountSats text = (amount / 1000 : ℕ) := by
  obtain ⟨hne, hdigits, hvalue⟩ := h
  have htrim : trimSpace text = text :=
    trimSpace_of_forall fun c hc => isSpace_of_isDigit (hdigits c hc)
  have hparse : parseInt64 text = some (amount : ℤ) :=
    parseInt64_of_parseDigits ((parseDigits_eq hne hdigits).trans (congrArg some hvalue)) hmax
  rw [parseZapAmountSats, htrim, hparse]
  dsimp only
  rw [if_neg (by omega), if_pos (by omega)]
  omega

theorem zapReceiptAmountSats_of_carries {reader : RequestReader} {amount : ℕ} {tags : List Tag}
    (h : Carries reader amount tags) (hmin : 1000 ≤ amount) (hmax : amount < 2 ^ 63) :
    zapReceiptAmountSats reader tags = (amount / 1000 : ℕ) := by
  have hpos : (0 : ℤ) < (amount / 1000 : ℕ) := by omega
  cases h with
  | amountTag h =>
    have hsats := parseZapAmountSats_of_writes h hmin hmax
    exact zapReceiptAmountSats_of_first [] (congrArg (· :: _) hsats) nofun hpos
  | description before after raw request hnone hsplit hbefore hraw hrequest h =>
    have hsats : descriptionZapAmountSats reader raw = (amount / 1000 : ℕ) := by
      rw [descriptionZapAmountSats, if_neg hraw, hrequest]
      exact parseZapAmountSats_of_writes h hmin hmax
    have hamounts : zapAmounts reader tags = (0 :: before.map (descriptionZapAmountSats reader)) ++
        ((amount / 1000 : ℕ) : ℤ) :: (after.map (descriptionZapAmountSats reader) ++
          [parseBolt11AmountSats (firstTagValue tags "bolt11")]) := by
      rw [zapAmounts, hnone, hsplit, List.map_append, List.map_cons, hsats]
      simp
    exact zapReceiptAmountSats_of_first _ hamounts (by simpa using hbefore) hpos
  | invoice raw mult hnone hencodes hdigits h =>
    have hsats : sats raw mult = amount / 1000 := by
      have hvalue : (digitsValue (raw.erase '.') : ℚ) / 10 ^ (fraction raw).length *
          satsPerUnit mult = (amount : ℚ) / (1000 : ℕ) := by
        rw [← h]
        simp
      rw [sats, hvalue, Nat.floor_div_eq_div]
    rw [zapReceiptAmountSats_of_invoice hnone, parseBolt11AmountSats_of_encodes hencodes, hsats,
      if_pos ⟨hdigits, by omega⟩]

/-- The sources agree on amounts of at least one satoshi that fit in 64 bits. -/
theorem zap_sources_agree (reader : RequestReader) :
    (∀ amount tags, 1000 ≤ amount → amount < 2 ^ 63 → Carries reader amount tags →
      zapReceiptAmountSats reader tags = (amount / 1000 : ℕ)) ∧
    ∀ amount larger tags tags', 1000 ≤ amount → amount ≤ larger → larger < 2 ^ 63 →
      Carries reader amount tags → Carries reader larger tags' →
      zapReceiptAmountSats reader tags ≤ zapReceiptAmountSats reader tags' := by
  refine ⟨fun amount tags hmin hmax h => zapReceiptAmountSats_of_carries h hmin hmax, ?_⟩
  intro amount larger tags tags' hmin hle hmax h h'
  rw [zapReceiptAmountSats_of_carries h hmin (by omega),
    zapReceiptAmountSats_of_carries h' (by omega) hmax]
  exact Int.ofNat_le.mpr (Nat.div_le_div_right hle)

def emptyReader : RequestReader := ⟨fun _ => none, fun _ => none⟩

/-- Below 1000 an `amount` tag is read as satoshis, and from 2 ^ 63 on it is not read. -/
theorem small_and_large_amounts : (Carries emptyReader 500 [["amount", "500"]] ∧
      zapReceiptAmountSats emptyReader [["amount", "500"]] = 500) ∧
    Carries emptyReader (2 ^ 63) [["amount", "9223372036854775808"]] ∧
      zapReceiptAmountSats emptyReader [["amount", "9223372036854775808"]] = 0 :=
  ⟨⟨.amountTag ⟨by decide, List.all_eq_true.mp (by decide), by decide⟩, by decide⟩,
    .amountTag ⟨by decide, List.all_eq_true.mp (by decide), by decide⟩, by decide⟩

variable (reader : RequestReader) (lookup : String → Option String) (e : EventContent)

/-- The receiver's rows change by the exact amount, and no row is lowered. -/
def ZapsExact : Prop :=
  ∀ receiver, zapReceiver reader e = some receiver →
    amount (computeActivityDailyDeltas reader lookup e) (dailyKey receiver e.createdAt)
      .zapMsatsReceived = 1000 * zapReceiptAmountSats reader e.tags ∧
    amount (computeHourlyActivityDeltas reader lookup e) (hourlyKey receiver e.createdAt)
      .zapMsatsReceived = 1000 * zapReceiptAmountSats reader e.tags ∧
    NonNeg (computeActivityDailyDeltas reader lookup e) ∧
    NonNeg (computeHourlyActivityDeltas reader lookup e)

variable {reader e} in
theorem amount_zapMsats {receiver : String} (h : zapReceiver reader e = some receiver) :
    amount (computeActivityDailyDeltas reader lookup e) (dailyKey receiver e.createdAt)
      .zapMsatsReceived = zapMsats reader e.tags ∧
    amount (computeHourlyActivityDeltas reader lookup e) (hourlyKey receiver e.createdAt)
      .zapMsatsReceived = zapMsats reader e.tags := by
  simp only [zapReceiver, ite_none_right_eq_some, Option.some.injEq] at h
  obtain ⟨⟨hkind, hne, hself⟩, rfl⟩ := h
  have hsender : dailyKey (zapReceiptSender reader e.pubkey e.tags) e.createdAt ≠
      dailyKey (firstTagValue e.tags "p") e.createdAt :=
    fun hkey => hself (congrArg DailyKey.pubkey hkey).symm
  constructor
  · simp [computeActivityDailyDeltas, hkind, hne, hself, amount_cons, hsender]
  · simp [computeHourlyActivityDeltas, hkind, hne, hself, amount_cons]

/-- A zap is counted exactly unless its amount comes from an invoice and does not fit in 64 bits. -/
theorem zapsExact_iff_invoiceFits : ZapsExact reader lookup e ↔
    ((zapReceiver reader e).isSome → NoTagAmount reader e.tags →
      parseBolt11AmountSats (firstTagValue e.tags "bolt11") * 1000 < 2 ^ 63) := by
  constructor
  · intro h hsome hnone
    obtain ⟨receiver, hreceiver⟩ := isSome_iff_exists.mp hsome
    have hexact := (h receiver hreceiver).1
    rw [(amount_zapMsats lookup hreceiver).1, zapMsats] at hexact
    rw [← zapReceiptAmountSats_of_invoice hnone]
    have hlt := @Int.bmod_lt (zapReceiptAmountSats reader e.tags * 1000) (2 ^ 64) (by decide)
    omega
  · intro h receiver hreceiver
    have hfits : zapReceiptAmountSats reader e.tags * 1000 < 2 ^ 63 := by
      by_cases hnone : NoTagAmount reader e.tags
      · rw [zapReceiptAmountSats_of_invoice hnone]
        exact h (by simp [hreceiver]) hnone
      · exact zapReceiptAmountSats_fits hnone
    have hnonneg : (zapReceiver reader e).isSome → 0 ≤ zapMsats reader e.tags := by
      rw [zapMsats_of_fits hfits]
      have := zapReceiptAmountSats_nonneg reader e.tags
      omega
    obtain ⟨hdaily, hhourly⟩ := amount_zapMsats lookup hreceiver
    rw [hdaily, hhourly, zapMsats_of_fits hfits, mul_comm]
    exact ⟨rfl, rfl, computeActivityDailyDeltas_nonneg reader lookup e hnonneg,
      computeHourlyActivityDeltas_nonneg reader lookup e hnonneg⟩

def largeZap : EventContent where
  pubkey := "wallet"
  kind := 9735
  createdAt := 0
  tags := [["p", "alice"], ["bolt11", "lnbc922337211pw"]]

/-- The receiver of a zap of 92233721 bitcoin loses. -/
theorem largeZap_lowers : ¬ ZapsExact emptyReader (fun _ => none) largeZap ∧
    amount (computeActivityDailyDeltas emptyReader (fun _ => none) largeZap)
      (dailyKey "alice" 0) .zapMsatsReceived = -9223371973709551616 := by
  have hlost : amount (computeActivityDailyDeltas emptyReader (fun _ => none) largeZap)
      (dailyKey "alice" 0) .zapMsatsReceived = -9223371973709551616 := by decide
  refine ⟨fun h => ?_, hlost⟩
  have hexact := (h "alice" (by decide)).1
  have hpos := zapReceiptAmountSats_nonneg emptyReader largeZap.tags
  have heq : (-9223371973709551616 : ℤ) = 1000 * zapReceiptAmountSats emptyReader largeZap.tags :=
    hlost.symm.trans hexact
  omega

end NostrMash
