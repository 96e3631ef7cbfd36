import NostrMash.IngestGate
import NostrMash.ReplaceableState

/-!
# Addresses

An `a` tag names an addressable event by kind, author and `d` tag. Its text is trimmed before it is
taken apart, while `replaceable_state` keeps the `d` tag as it came.
-/

namespace NostrMash.Live
open List Replaceable
variable {c : AddressCoordinate} {k : ℕ} {p d : String}

def trimRight (s : String) : String := String.ofList (s.toList.rdropWhile isSpace)

def addressCoordinate (A : Address) : AddressCoordinate := ⟨A.kind, A.pubkey, A.dTag⟩

/-- `ReplaceableAddressesExist` sends the kinds as 32-bit integers. -/
def replaceableAddressesExist (S : Tables) (addresses : List AddressCoordinate) : Bool :=
  (addresses.eraseDupsBy (·.text == ·.text)).any fun a =>
    let kind := a.kind.bmod (2 ^ 32)
    0 ≤ kind && (S.state ⟨a.pubkey, kind.toNat, a.dTag⟩).isSome

/-- The text of the address gives the address back, and an `a` tag with that text is found. -/
def Resolves (S : Tables) (A : Address) : Prop :=
  parseAddressCoordinate (addressCoordinate A).text = some (addressCoordinate A) ∧
    ∀ tags : List Tag, (∃ rest, "a" :: (addressCoordinate A).text :: rest ∈ tags) →
      replaceableAddressesExist S (addressCoordinates tags "a") = true

/-- A coordinate that its text determines. -/
def Splits (c : AddressCoordinate) : Prop := 0 ≤ c.kind ∧ ':' ∉ c.pubkey.toList

theorem span_colon {l r : List Char} (h : ':' ∉ l) :
    (l ++ ':' :: r).span (· ≠ ':') = (l, ':' :: r) := by
  have hl : ∀ x ∈ l, decide (x ≠ ':') = true := by
    intro x hx
    exact decide_eq_true fun heq => h (heq ▸ hx)
  rw [span_eq_takeWhile_dropWhile, takeWhile_append_of_pos hl, dropWhile_append_of_pos hl]
  simp

theorem toList_text (c : AddressCoordinate) :
    c.text.toList = (toString c.kind).toList ++ ':' :: (c.pubkey.toList ++ ':' :: c.dTag.toList) := by
  simp [AddressCoordinate.text]

theorem toList_toString_kind (k : ℕ) : (toString (k : ℤ)).toList = Nat.toDigits 10 k := by
  change k.repr.toList = _
  rw [← Nat.toString_eq_repr, Nat.toString_eq_ofList_toDigits, String.toList_ofList]

theorem isDigit_kind {x : Char} (h : x ∈ Nat.toDigits 10 k) : x.isDigit = true :=
  Nat.isDigit_of_mem_toDigits (by decide) le_rfl h

theorem colon_notMem_kind (n : ℤ) : ':' ∉ (toString n).toList :=
  notMem_toString_int (by decide) (by decide) n

theorem Splits.eq_of_text {b c : AddressCoordinate} (hb : Splits b) (hc : Splits c)
    (h : b.text = c.text) : b = c := by
  have hkind := congrArg (fun s : String => s.toList.span (· ≠ ':')) h
  simp only [toList_text, span_colon (colon_notMem_kind _), Prod.mk.injEq, cons.injEq, true_and,
    String.toList_inj] at hkind
  have hrest := congrArg (List.span (· ≠ ':')) hkind.2
  simp only [span_colon hb.2, span_colon hc.2, Prod.mk.injEq, cons.injEq, true_and,
    String.toList_inj] at hrest
  obtain ⟨m, hm⟩ := Int.eq_ofNat_of_zero_le hb.1
  obtain ⟨n, hn⟩ := Int.eq_ofNat_of_zero_le hc.1
  rw [hm, hn, ← String.toList_inj, toList_toString_kind, toList_toString_kind] at hkind
  have hvalue := congrArg (Nat.ofDigitChars 10 · 0) hkind.1
  simp only [Nat.ofDigitChars_toDigits (b := 10) (by decide) le_rfl] at hvalue
  cases b
  cases c
  simp_all

theorem mem_eraseDupsBy_text {l : List AddressCoordinate} (hl : ∀ c ∈ l, Splits c) :
    c ∈ l.eraseDupsBy (·.text == ·.text) ↔ c ∈ l := by
  have hloop : ∀ as bs : List AddressCoordinate, (∀ a ∈ as, Splits a) → (∀ b ∈ bs, Splits b) →
      (c ∈ eraseDupsBy.loop (·.text == ·.text) as bs ↔ c ∈ as ∨ c ∈ bs) := by
    intro as
    induction as with
    | nil => simp [eraseDupsBy.loop]
    | cons a as ih =>
      intro bs has hbs
      rw [forall_mem_cons] at has
      rw [eraseDupsBy.loop]
      split
      · rename_i hany
        obtain ⟨b, hb, hab⟩ := any_eq_true.mp hany
        rw [ih bs has.2 hbs, has.1.eq_of_text (hbs b hb) (beq_iff_eq.mp hab)]
        grind
      · rw [ih (a :: bs) has.2 (forall_mem_cons.mpr ⟨has.1, hbs⟩)]
        grind
  exact (hloop l [] hl nofun).trans (or_iff_left not_mem_nil)

theorem splits_of_parse {value : String} (h : parseAddressCoordinate value = some c) :
    Splits c := by
  unfold parseAddressCoordinate at h
  split at h
  · cases h
  split at h
  · cases h
  rename_i pubkeyText _ _ hspan
  split at h
  · cases h
  dsimp only at h
  split_ifs at h with hneg
  cases h
  refine ⟨not_lt.mp hneg, fun hcolon => ?_⟩
  rw [span_eq_takeWhile_dropWhile, Prod.mk.injEq] at hspan
  rw [toLower, String.toList_ofList, mem_map, toList_trimSpace, String.toList_ofList] at hcolon
  obtain ⟨x, hx, hlower⟩ := hcolon
  have hne := mem_takeWhile_imp
    (hspan.1 ▸ (dropWhile_sublist _).subset (( rdropWhile_prefix _ _).subset hx))
  rcases lowerRune_cases x with ⟨hlo, hhi, he⟩ | ⟨-, he⟩ | ⟨-, he⟩ | he
  · rw [hlower] at he
    simp at he
    omega
  · rw [hlower] at he
    cases he
  · rw [hlower] at he
    cases he
  · rw [← he, hlower] at hne
    simp at hne

theorem toList_trimSpace_text :
    (trimSpace (AddressCoordinate.text ⟨k, p, d⟩)).toList = Nat.toDigits 10 k ++ ':' ::
      (p.toList ++ ':' :: (trimRight d).toList) := by
  have hhead : ∀ l, (Nat.toDigits 10 k ++ l).dropWhile isSpace = Nat.toDigits 10 k ++ l := by
    intro l
    obtain ⟨x, xs, hx⟩ := exists_cons_of_ne_nil (Nat.toDigits_ne_nil (n := k) (b := 10))
    have hspace : isSpace x = false := isSpace_of_isDigit (isDigit_kind (k := k) (hx ▸ .head _))
    rw [hx, cons_append, dropWhile_cons_of_neg (by simp [hspace])]
  rw [toList_trimSpace, toList_text, toList_toString_kind, hhead, trimRight, String.toList_ofList]
  simp only [rdropWhile, reverse_append, reverse_cons, append_assoc, dropWhile_append]
  split
  · rename_i hnil
    rw [isEmpty_iff.mp hnil]
    have : isSpace ':' = false := by decide
    simp [this]
  · simp

theorem utf8ByteSize_of_hex {s : String} (h : ∀ x ∈ s.toList, isHexDigit x = true) :
    s.utf8ByteSize = s.toList.length := by
  rw [← String.ofList_toList (s := s), String.utf8ByteSize_ofList, String.toList_ofList]
  generalize s.toList = l at h
  induction l with
  | nil => rfl
  | cons x l ih =>
    rw [forall_mem_cons] at h
    have hrange := toNat_of_isHexDigit h.1
    have hsize : x.utf8Size = 1 :=
      Char.utf8Size_eq_one_iff.mpr (UInt32.le_iff_toNat_le.mpr (show x.toNat ≤ 127 by omega))
    rw [String.utf8Len_cons, ih h.2, hsize, length_cons]

theorem toLower_of_hex {s : String} (h : ∀ x ∈ s.toList, isHexDigit x = true) : toLower s = s := by
  have hlower : s.toList.map lowerRune = s.toList.map id := by
    refine map_congr_left fun x hx => ?_
    have hrange := toNat_of_isHexDigit (h x hx)
    rcases lowerRune_cases x with h | h | h | h
    · omega
    · omega
    · omega
    · exact h
  rw [toLower, hlower, map_id, String.ofList_toList]

theorem parseAddressCoordinate_text (hk : k < 2 ^ 63) (hp : isLowerHex p 64 = true) :
    parseAddressCoordinate (AddressCoordinate.text ⟨k, p, d⟩) = some ⟨k, p, trimRight d⟩ := by
  have hhex := hp
  rw [isLowerHex, Bool.and_eq_true, all_eq_true, beq_iff_eq] at hhex
  have hcolon : ':' ∉ p.toList := fun h => nomatch hhex.2 _ h
  have hdigits : parseDigits (Nat.toDigits 10 k) = some k := by
    rw [parseDigits, if_pos ⟨Nat.toDigits_ne_nil, all_eq_true.mpr fun _ => isDigit_kind⟩]
    exact congrArg some (Nat.ofDigitChars_toDigits (by decide) le_rfl)
  have hkind : ':' ∉ Nat.toDigits 10 k := toList_toString_kind k ▸ colon_notMem_kind k
  have hint : parseInt64 (String.ofList (Nat.toDigits 10 k)) = some (k : ℤ) :=
    parseInt64_of_parseDigits (by rwa [String.toList_ofList]) hk
  rw [parseAddressCoordinate, toList_trimSpace_text, span_colon hkind]
  dsimp only
  rw [span_colon hcolon]
  dsimp only
  rw [hint, String.ofList_toList, trimSpace_of_isLowerHex hp, toLower_of_hex hhex.2]
  simp [utf8ByteSize_of_hex hhex.2, hhex.1]

/-- An address resolves unless its `d` tag ends in white space. -/
theorem resolves_iff {S : Tables} {e : AuthorStats.EventContent} {A : Address}
    (hA : address e = some A) (hrow : (S.state A).isSome) (hp : isLowerHex A.pubkey 64 = true) :
    Resolves S A ↔ trimRight A.dTag = A.dTag := by
  have hkind : A.kind < 40000 := by
    unfold address isReplaceableKind at hA
    grind
  have hparse := parseAddressCoordinate_text (d := A.dTag) (hkind.trans (by decide)) hp
  rw [Resolves, addressCoordinate, hparse]
  simp only [Option.some.injEq, AddressCoordinate.mk.injEq, true_and]
  refine and_iff_left_of_imp fun hd tags ⟨rest, htag⟩ => ?_
  rw [hd] at hparse
  have hsplits : ∀ c ∈ (tagValues tags "a").filterMap parseAddressCoordinate, Splits c := by
    intro c hc
    obtain ⟨value, -, hvalue⟩ := mem_filterMap.mp hc
    exact splits_of_parse hvalue
  have hmem : ∀ c, c ∈ addressCoordinates tags "a" ↔ _ := fun c => mem_eraseDupsBy_text hsplits
  have hbmod : (A.kind : ℤ).bmod (2 ^ 32) = A.kind := Int.bmod_eq_of_le (by omega) (by omega)
  refine any_eq_true.mpr ⟨addressCoordinate A, ?_, ?_⟩
  · rw [mem_eraseDupsBy_text fun c hc => hsplits c ((hmem c).mp hc), hmem]
    refine mem_filterMap.mpr ⟨_, ?_, hparse⟩
    exact mem_filterMap.mpr ⟨_, htag, by simp⟩
  · rw [addressCoordinate, hbmod]
    simpa using hrow

/-- An article of one author with the `d` tag. -/
def article (d : String) : AuthorStats.EventContent where
  pubkey := String.ofList (replicate 64 'a')
  kind := 30023
  createdAt := 0
  tags := [["d", d]]

def articleTables (d : String) : Tables := updateAll (fun _ => some (article d)) ["e"]

theorem trimmed_article_resolves : Resolves (articleTables "x")
    ⟨String.ofList (replicate 64 'a'), 30023, "x"⟩ :=
  (resolves_iff (e := article "x") (by decide) (by decide) (by decide)).mpr
    (by decide)

theorem padded_article_not_resolves : ¬ Resolves (articleTables "x ")
    ⟨String.ofList (replicate 64 'a'), 30023, "x "⟩ :=
  fun h => absurd h.1 (by decide)

end NostrMash.Live
