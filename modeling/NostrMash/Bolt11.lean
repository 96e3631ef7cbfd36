import NostrMash.ZapReceipt

/-!
# Amounts of BOLT11 invoices

The amount read from an invoice is compared with exact rational arithmetic on the numeral and the
multiplier of its human-readable part.
-/

namespace NostrMash.Bolt11
open List Option

/-- Digits, with at most one point before, among or behind them. -/
def IsNumeral (raw : List Char) : Prop :=
  raw.erase '.' ≠ [] ∧ ∀ c ∈ raw.erase '.', c.isDigit = true

def digitsValue (digits : List Char) : ℕ :=
  Nat.ofDigits 10 (digits.reverse.map (·.toNat - 48))

def fraction (raw : List Char) : List Char := (raw.dropWhile (· ≠ '.')).drop 1

def significantDigits (raw : List Char) : ℕ := ((raw.erase '.').dropWhile (· = '0')).length

def satsPerUnit : Option Char → ℚ
  | some 'm' => 10 ^ 5
  | some 'u' => 10 ^ 2
  | some 'n' => 1 / 10
  | some 'p' => 1 / 10 ^ 4
  | _ => 10 ^ 8

/-- The satoshis that a numeral and a multiplier stand for, rounded down. -/
def sats (raw : List Char) (mult : Option Char) : ℕ :=
  ⌊(digitsValue (raw.erase '.') : ℚ) / 10 ^ (fraction raw).length * satsPerUnit mult⌋₊

def isMultiplier (c : Char) : Bool := c = 'm' || c = 'u' || c = 'n' || c = 'p'

/-- The trimmed invoice is a lightning prefix, a numeral and a multiplier, in any letter case, then
the separator and data without a further `1`. -/
def Encodes (invoice : String) (raw : List Char) (mult : Option Char) : Prop :=
  IsNumeral raw ∧ (∀ c ∈ mult, isMultiplier c = true) ∧
    ∃ head data, (trimSpace invoice).toList = head ++ '1' :: data ∧ '1' ∉ data ∧
      ∃ chain ∈ bolt11Prefixes, head.map lowerRune = chain.toList ++ (raw ++ mult.toList)

theorem parseDigits_eq {digits : List Char} (hne : digits ≠ [])
    (hdigits : ∀ c ∈ digits, c.isDigit = true) :
    parseDigits digits = some (digitsValue digits) := by
  rw [parseDigits, if_pos ⟨hne, all_eq_true.mpr hdigits⟩, digitsValue,
    Nat.ofDigits_eq_foldr, foldr_map, foldr_reverse]
  simp [add_comm]

theorem digitsValue_dropWhile_zero (digits : List Char) :
    digitsValue (digits.dropWhile (· = '0')) = digitsValue digits := by
  induction digits with
  | nil => rfl
  | cons c digits ih =>
    by_cases hc : c = '0'
    · rw [hc, dropWhile_cons_of_pos (by simp), ih]
      simp [digitsValue, Nat.ofDigits_append]
    · rw [dropWhile_cons_of_neg (by simpa using hc)]

theorem erase_point (raw : List Char) :
    raw.takeWhile (· ≠ '.') ++ fraction raw = raw.erase '.' := by
  unfold fraction
  induction raw with
  | nil => rfl
  | cons c raw ih => by_cases hc : c = '.' <;> simp_all

variable {raw : List Char}

theorem mem_numeral (hraw : IsNumeral raw) {c : Char} (hc : c ∈ raw) :
    c.isDigit = true ∨ c = '.' := by
  by_cases hpoint : c = '.'
  · exact .inr hpoint
  · exact .inl (hraw.2 c ((mem_erase_of_ne hpoint).mpr hc))

theorem splitBolt11Decimal_of_isNumeral (hraw : IsNumeral raw) :
    splitBolt11Decimal raw = some
      (if raw.takeWhile (· ≠ '.') = [] then ['0'] else raw.takeWhile (· ≠ '.'), fraction raw) := by
  have hcount : raw.count '.' ≤ 1 := by
    have hnone : (raw.erase '.').count '.' = 0 :=
      count_eq_zero.mpr fun hmem => nomatch (hraw.2 '.' hmem)
    rw [count_erase_self] at hnone
    omega
  have hne : raw ≠ [] := fun hnil => hraw.1 (by rw [hnil]; rfl)
  have hparts : ¬ (raw.takeWhile (· ≠ '.') = [] ∧ fraction raw = []) := by
    rw [← append_eq_nil_iff, erase_point]
    exact hraw.1
  simp only [splitBolt11Decimal]
  rw [← fraction, if_neg, erase_point, if_pos (all_eq_true.mpr hraw.2)]
  rintro (hnil | hmany | hboth)
  exacts [hne hnil, absurd hmany (not_lt.mpr hcount), hparts hboth]

theorem isNumeral_of_split (h : splitBolt11Decimal raw ≠ none) :
    IsNumeral raw := by
  simp only [splitBolt11Decimal] at h
  rw [← fraction, erase_point] at h
  split_ifs at h with hbad hdigits
  all_goals first
    | exact absurd rfl h
    | exact ⟨fun hnil => hbad (.inr (.inr (append_eq_nil_iff.mp (erase_point raw ▸ hnil)))),
        all_eq_true.mp hdigits⟩

theorem dropWhile_zero_padded (whole frac : List Char) :
    ((if whole = [] then ['0'] else whole) ++ frac).dropWhile (· = '0') =
      (whole ++ frac).dropWhile (· = '0') := by
  split_ifs with hnil
  · subst hnil
    exact dropWhile_cons_of_pos (by simp)
  · rfl

theorem bolt11DecimalToSats_of_isNumeral (hraw : IsNumeral raw) {num den n : ℕ}
    (hn : digitsValue (raw.erase '.') * num / (10 ^ (fraction raw).length * den) = n) :
    bolt11DecimalToSats raw num den =
      if significantDigits raw ≤ 30 ∧ n < 2 ^ 63 then (n : ℤ) else 0 := by
  simp only [bolt11DecimalToSats, splitBolt11Decimal_of_isNumeral hraw, dropWhile_zero_padded]
  rw [erase_point, significantDigits]
  have hvalue := digitsValue_dropWhile_zero (raw.erase '.')
  by_cases hzero : (raw.erase '.').dropWhile (· = '0') = []
  · have hnone : n = 0 := by
      rw [← hn, ← hvalue, hzero]
      simp [digitsValue]
    rw [if_pos (.inl hzero), hnone]
    split_ifs <;> rfl
  · have hdigits : ∀ c ∈ (raw.erase '.').dropWhile (· = '0'), c.isDigit = true :=
      fun c hc => hraw.2 c ((dropWhile_suffix _).subset hc)
    have hin : inInt64 (n : ℤ) = true ↔ n < 2 ^ 63 := by
      rw [inInt64, Bool.and_eq_true, decide_eq_true_eq, decide_eq_true_eq]
      omega
    rw [parseDigits_eq hzero hdigits, hvalue, getD_some, hn]
    by_cases hlong : ((raw.erase '.').dropWhile (· = '0')).length ≤ 30
    · rw [if_neg (by simp [hzero, hlong])]
      exact if_congr (by rw [hin]; exact (and_iff_right hlong).symm) rfl rfl
    · rw [if_pos (.inr (not_le.mp hlong)), if_neg fun h => hlong h.1]

theorem sats_eq (raw : List Char) (mult : Option Char) :
    digitsValue (raw.erase '.') * (bolt11SatsScale mult).1 /
      (10 ^ (fraction raw).length * (bolt11SatsScale mult).2) = sats raw mult := by
  have hscale : satsPerUnit mult =
      ((bolt11SatsScale mult).1 : ℚ) / ((bolt11SatsScale mult).2 : ℚ) := by
    unfold satsPerUnit
    split <;> simp [bolt11SatsScale, *] <;> norm_num
  rw [sats, hscale, div_mul_div_comm, ← @Nat.floor_div_eq_div ℚ]
  push_cast
  rfl

/-- What is read from the part of the invoice behind the prefix. -/
def amountSats (amount : List Char) : ℤ :=
  let mult := amount.getLast?.filter isMultiplier
  let decimal := if mult.isSome then amount.dropLast else amount
  bolt11DecimalToSats decimal (bolt11SatsScale mult).1 (bolt11SatsScale mult).2

variable {mult : Option Char}

theorem amountSats_numeral (hraw : IsNumeral raw) (hmult : ∀ c ∈ mult, isMultiplier c = true) :
    amountSats (raw ++ mult.toList) =
      if significantDigits raw ≤ 30 ∧ sats raw mult < 2 ^ 63 then (sats raw mult : ℤ) else 0 := by
  have hlast : (raw ++ mult.toList).getLast?.filter isMultiplier = mult := by
    cases mult with
    | some m => simp [Option.filter, hmult m rfl]
    | none =>
      rw [toList_none, append_nil, filter_eq_none_iff]
      intro c hc
      rcases mem_numeral hraw (List.mem_of_getLast? hc) with hdigit | rfl
      · simp only [isMultiplier, Bool.or_eq_true, decide_eq_true_eq]
        rintro (((rfl | rfl) | rfl) | rfl) <;> exact nomatch hdigit
      · decide
  have hdecimal : (if mult.isSome then (raw ++ mult.toList).dropLast else raw ++ mult.toList) =
      raw := by
    cases mult <;> simp
  rw [amountSats, hlast, hdecimal]
  exact bolt11DecimalToSats_of_isNumeral hraw (sats_eq raw mult)

theorem exists_numeral_of_amountSats {amount : List Char} (h : amountSats amount ≠ 0) :
    ∃ raw, ∃ mult : Option Char, amount = raw ++ mult.toList ∧ IsNumeral raw ∧
      ∀ c ∈ mult, isMultiplier c = true := by
  have hsplit {raw : List Char} {num den : ℕ} (hraw : bolt11DecimalToSats raw num den ≠ 0) :
      IsNumeral raw := by
    refine isNumeral_of_split fun hnone => hraw ?_
    rw [bolt11DecimalToSats, hnone]
  rw [amountSats] at h
  cases hmult : amount.getLast?.filter isMultiplier with
  | none =>
    rw [hmult] at h
    exact ⟨amount, none, by simp, hsplit h, nofun⟩
  | some m =>
    rw [hmult] at h
    obtain ⟨hlast, hm⟩ := filter_eq_some_iff.mp hmult
    refine ⟨amount.dropLast, some m, (dropLast_append_getLast? m hlast).symm, hsplit h, ?_⟩
    rintro c ⟨⟩
    exact hm

/-- The human-readable part, before the last `1`. -/
def humanReadable (invoice : String) : List Char :=
  ((((trimSpace invoice).toList.reverse.dropWhile (· ≠ '1')).drop 1).reverse).map lowerRune

theorem parseBolt11AmountSats_eq (invoice : String) : parseBolt11AmountSats invoice =
      (bolt11Prefixes.find? (·.toList.isPrefixOf (humanReadable invoice))).elim 0 fun chain =>
        amountSats ((humanReadable invoice).drop chain.toList.length) := by
  have hhrp : (toLower (String.ofList (((trimSpace invoice).toList.reverse.dropWhile
      (· ≠ '1')).drop 1).reverse)).toList = humanReadable invoice := by
    simp only [toLower, String.toList_ofList, humanReadable]
  unfold parseBolt11AmountSats
  dsimp only
  rw [hhrp]
  generalize humanReadable invoice = hrp
  cases bolt11Prefixes.find? (·.toList.isPrefixOf hrp) with
  | none => rfl
  | some chain => rfl

variable {invoice : String}

theorem humanReadable_eq {head data : List Char}
    (htext : (trimSpace invoice).toList = head ++ '1' :: data) (hdata : '1' ∉ data) :
    humanReadable invoice = head.map lowerRune := by
  have hskip : ∀ c ∈ data.reverse, decide (c ≠ '1') = true := by
    intro c hc
    simpa using ne_of_mem_of_not_mem (mem_reverse.mp hc) hdata
  rw [humanReadable, htext, reverse_append, reverse_cons, append_assoc,
    dropWhile_append_of_pos hskip]
  simp

theorem find_prefix {chain : String} (hchain : chain ∈ bolt11Prefixes) {c : Char} (hc : c ≠ 'r')
    (rest : List Char) :
    bolt11Prefixes.find? (·.toList.isPrefixOf (chain.toList ++ c :: rest)) = some chain := by
  simp only [bolt11Prefixes, mem_cons, not_mem_nil, or_false] at hchain
  rcases hchain with rfl | rfl | rfl <;> simp [bolt11Prefixes, hc.symm]

theorem parseBolt11AmountSats_of_encodes (h : Encodes invoice raw mult) :
    parseBolt11AmountSats invoice =
      if significantDigits raw ≤ 30 ∧ sats raw mult < 2 ^ 63 then (sats raw mult : ℤ) else 0 := by
  obtain ⟨hraw, hmult, head, data, htext, hdata, chain, hchain, hhead⟩ := h
  obtain ⟨c, rest, rfl⟩ : ∃ c rest, raw = c :: rest :=
    exists_cons_of_ne_nil fun hnil => hraw.1 (by rw [hnil]; rfl)
  have hr : c ≠ 'r' := by
    rcases mem_numeral hraw (.head _) with hdigit | rfl
    · rintro rfl
      exact nomatch hdigit
    · decide
  have hfind := find_prefix hchain hr (rest ++ mult.toList)
  rw [← cons_append] at hfind
  rw [parseBolt11AmountSats_eq, humanReadable_eq htext hdata, hhead, hfind, elim_some,
    drop_left, amountSats_numeral hraw hmult]

theorem exists_encodes (h : parseBolt11AmountSats invoice ≠ 0) :
    ∃ raw mult, Encodes invoice raw mult := by
  rw [parseBolt11AmountSats_eq] at h
  cases hfind : bolt11Prefixes.find? (·.toList.isPrefixOf (humanReadable invoice)) with
  | none =>
    rw [hfind] at h
    exact absurd rfl h
  | some chain =>
    rw [hfind, elim_some] at h
    obtain ⟨raw, mult, hamount, hraw, hmult⟩ := exists_numeral_of_amountSats h
    have hprefix := List.find?_some hfind
    rw [ isPrefixOf_iff_prefix, prefix_iff_eq_append, hamount] at hprefix
    have hsep : '1' ∈ (trimSpace invoice).toList.reverse := by
      by_contra hnone
      have hskip : (trimSpace invoice).toList.reverse.dropWhile (· ≠ '1') = [] :=
        dropWhile_eq_nil_iff.mpr fun c hc => by simpa using ne_of_mem_of_not_mem hc hnone
      rw [humanReadable, hskip] at hfind
      exact absurd hfind (by simp [bolt11Prefixes])
    obtain ⟨data, head, htext, hdata⟩ := eq_append_cons_of_mem hsep
    rw [reverse_eq_iff, reverse_append, reverse_cons, append_assoc] at htext
    rw [← mem_reverse] at hdata
    rw [humanReadable_eq htext hdata] at hprefix
    exact ⟨raw, mult, hraw, hmult, _, _, htext, hdata, chain, List.mem_of_find?_eq_some hfind,
      hprefix.symm⟩

/-- An invoice of the expected form is worth its satoshis, rounded down, while they are positive and
fit in 64 bits and the numeral has at most 30 digits behind its leading zeros. -/
theorem parseBolt11AmountSats_exact (invoice : String) :
    (∀ raw mult, Encodes invoice raw mult → parseBolt11AmountSats invoice =
      if 0 < sats raw mult ∧ sats raw mult < 2 ^ 63 ∧ significantDigits raw ≤ 30 then
        (sats raw mult : ℤ)
      else 0) ∧ ((¬ ∃ raw mult, Encodes invoice raw mult) → parseBolt11AmountSats invoice = 0) := by
  refine ⟨fun raw mult h => ?_, fun hnone => ?_⟩
  · rw [parseBolt11AmountSats_of_encodes h]
    rcases Nat.eq_zero_or_pos (sats raw mult) with hzero | hpos
    · simp [hzero]
    · exact if_congr ⟨fun h => ⟨hpos, h.2, h.1⟩, fun h => ⟨h.2.2, h.2.1⟩⟩ rfl rfl
  · by_contra hne
    exact hnone (exists_encodes hne)

/-- The form without white space around the invoice and with the multiplier in small letters. -/
def HasStrictForm (invoice : String) : Prop :=
  ∃ chain raw, ∃ mult : Option Char, ∃ data,
    chain.map lowerRune ∈ bolt11Prefixes.map String.toList ∧ IsNumeral raw ∧
    (∀ c ∈ mult, isMultiplier c = true) ∧ '1' ∉ data ∧
    invoice.toList = chain ++ (raw ++ mult.toList) ++ '1' :: data

/-- A blank before the invoice and a capital multiplier are read as well. -/
theorem blank_and_capitals_read :
    ¬ HasStrictForm " LNBC210N1PW" ∧ parseBolt11AmountSats " LNBC210N1PW" = 21 := by
  refine ⟨?_, by decide⟩
  rintro ⟨chain, raw, mult, data, hchain, -, -, -, htext⟩
  obtain ⟨known, hknown, heq⟩ := mem_map.mp hchain
  have hall : ∀ known ∈ bolt11Prefixes, known.toList.head? = some 'l' := by decide
  have hhead := hall known hknown
  rw [heq] at hhead
  cases chain with
  | nil => cases hhead
  | cons c rest =>
    obtain rfl : ' ' = c := (List.cons.inj htext).1
    exact nomatch (some.inj hhead)

end NostrMash.Bolt11
