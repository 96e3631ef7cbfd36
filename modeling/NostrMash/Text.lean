import Mathlib.Algebra.Order.Ring.Int
import Mathlib.Data.List.Dedup
import Mathlib.Data.List.DropRight
import Mathlib.Data.List.Sort
import Mathlib.Data.String.Basic

/-!
# Trimming and normalizing text

Go strings as Lean strings. `trimSpace` removes leading and trailing Unicode white space, `toLower`
lowers letters, and `normalizeUniqueIDs` is the trimmed, duplicate-free, sorted form in which
identifiers enter the projections.
-/

namespace NostrMash
open List

/-- The white space of Go's `unicode.IsSpace`. -/
def isSpace (c : Char) : Bool :=
  let n := c.toNat
  (9 ≤ n && n ≤ 13) || n == 0x20 || n == 0x85 || n == 0xA0 || n == 0x1680 ||
    (0x2000 ≤ n && n ≤ 0x200A) || n == 0x2028 || n == 0x2029 || n == 0x202F || n == 0x205F ||
    n == 0x3000

def trimSpace (s : String) : String :=
  String.ofList ((s.toList.dropWhile isSpace).reverse.dropWhile isSpace).reverse

/-- Lower case of the letters whose lower case is an ASCII letter. -/
def lowerRune (c : Char) : Char :=
  if 'A' ≤ c ∧ c ≤ 'Z' then Char.ofNat (c.toNat + 32)
  else if c.toNat = 0x130 then 'i'
  else if c.toNat = 0x212A then 'k'
  else c

def toLower (s : String) : String := String.ofList (s.toList.map lowerRune)

def isHexDigit (c : Char) : Bool := ('0' ≤ c && c ≤ '9') || ('a' ≤ c && c ≤ 'f')

def isLowerHex (s : String) (expectedLen : ℕ) : Bool :=
  s.toList.length == expectedLen && s.toList.all isHexDigit

def parseDigits (digits : List Char) : Option ℕ :=
  if digits ≠ [] ∧ digits.all Char.isDigit then
    some (digits.foldl (fun n c => 10 * n + (c.toNat - 48)) 0)
  else none

def inInt64 (n : ℤ) : Bool := -2 ^ 63 ≤ n && n < 2 ^ 63

def parseInt64 (s : String) : Option ℤ :=
  let value : Option ℤ :=
    match s.toList with
    | '-' :: digits => (parseDigits digits).map fun n => -(n : ℤ)
    | '+' :: digits => (parseDigits digits).map fun n => (n : ℤ)
    | digits => (parseDigits digits).map fun n => (n : ℤ)
  value.filter inInt64

def normalizeUniqueIDs (ids : List String) : List String :=
  ((ids.map trimSpace).filter (· ≠ "")).dedup.insertionSort (· ≤ ·)

variable {c : Char}

theorem lowerRune_upper (h : 'A' ≤ c ∧ c ≤ 'Z') :
    (lowerRune c).toNat = c.toNat + 32 ∧ 65 ≤ c.toNat ∧ c.toNat ≤ 90 := by
  have hlo : 65 ≤ c.toNat := h.1
  have hhi : c.toNat ≤ 90 := h.2
  refine ⟨?_, hlo, hhi⟩
  have hv : (c.toNat + 32).isValidChar := .inl (by omega)
  rw [lowerRune, if_pos h, Char.ofNat, dif_pos hv]
  rfl

theorem lowerRune_cases (c : Char) :
    (65 ≤ c.toNat ∧ c.toNat ≤ 90 ∧ (lowerRune c).toNat = c.toNat + 32) ∨
      (c.toNat = 0x130 ∧ lowerRune c = 'i') ∨ (c.toNat = 0x212A ∧ lowerRune c = 'k') ∨
      lowerRune c = c := by
  by_cases h : 'A' ≤ c ∧ c ≤ 'Z'
  · have hu := lowerRune_upper h
    exact .inl ⟨hu.2.1, hu.2.2, hu.1⟩
  · rw [lowerRune, if_neg h]
    split_ifs with h1 h2
    · exact .inr (.inl ⟨h1, rfl⟩)
    · exact .inr (.inr (.inl ⟨h2, rfl⟩))
    · exact .inr (.inr (.inr rfl))

theorem isSpace_lowerRune (c : Char) : isSpace (lowerRune c) = isSpace c := by
  rcases lowerRune_cases c with ⟨hlo, hhi, he⟩ | ⟨hc, he⟩ | ⟨hc, he⟩ | he
  · rw [Bool.eq_iff_iff]
    simp only [isSpace, he, Bool.or_eq_true, Bool.and_eq_true, beq_iff_eq, decide_eq_true_eq]
    omega
  · simp [isSpace, he, hc]
  · simp [isSpace, he, hc]
  · rw [he]

theorem lowerRune_lowerRune (c : Char) : lowerRune (lowerRune c) = lowerRune c := by
  rcases lowerRune_cases c with ⟨hlo, hhi, he⟩ | ⟨hc, he⟩ | ⟨hc, he⟩ | he
  · rcases lowerRune_cases (lowerRune c) with ⟨hlo', hhi', _⟩ | ⟨hc, _⟩ | ⟨hc, _⟩ | he'
    · omega
    · omega
    · omega
    · exact he'
  · rw [he]
    decide
  · rw [he]
    decide
  · rw [he, he]

theorem toList_trimSpace (s : String) :
    (trimSpace s).toList = (s.toList.dropWhile isSpace).rdropWhile isSpace := by
  rw [trimSpace, String.toList_ofList]
  rfl

theorem trimSpace_trimSpace (s : String) : trimSpace (trimSpace s) = trimSpace s := by
  have hhead : ((s.toList.dropWhile isSpace).rdropWhile isSpace).dropWhile isSpace =
      (s.toList.dropWhile isSpace).rdropWhile isSpace := by
    rw [dropWhile_eq_self_iff]
    intro hl
    have hpre := rdropWhile_prefix isSpace (s.toList.dropWhile isSpace)
    have hlen := lt_of_lt_of_le hl hpre.length_le
    rw [hpre.getElem hl]
    exact dropWhile_eq_self_iff.mp (dropWhile_idempotent isSpace s.toList) hlen
  apply String.toList_inj.mp
  rw [toList_trimSpace, toList_trimSpace, hhead, rdropWhile_idempotent]

theorem trimSpace_toLower (s : String) : trimSpace (toLower s) = toLower (trimSpace s) := by
  have hcomp : isSpace ∘ lowerRune = isSpace := funext isSpace_lowerRune
  apply String.toList_inj.mp
  rw [toList_trimSpace, toLower, toLower, String.toList_ofList, String.toList_ofList,
    toList_trimSpace]
  simp only [List.rdropWhile, dropWhile_map, ← map_reverse, hcomp]

theorem toLower_toLower (s : String) : toLower (toLower s) = toLower s := by
  have hcomp : lowerRune ∘ lowerRune = lowerRune := funext lowerRune_lowerRune
  rw [toLower, toLower, String.toList_ofList, map_map, hcomp]

theorem toLower_trimSpace_idem (s : String) :
    toLower (trimSpace (toLower (trimSpace s))) = toLower (trimSpace s) := by
  rw [trimSpace_toLower, trimSpace_trimSpace, toLower_toLower]

theorem toNat_of_isHexDigit (h : isHexDigit c = true) :
    (48 ≤ c.toNat ∧ c.toNat ≤ 57) ∨ (97 ≤ c.toNat ∧ c.toNat ≤ 102) := by
  simp only [isHexDigit, Bool.or_eq_true, Bool.and_eq_true, decide_eq_true_eq] at h
  exact h

theorem isSpace_of_isHexDigit (h : isHexDigit c = true) : isSpace c = false := by
  have hrange := toNat_of_isHexDigit h
  rw [Bool.eq_false_iff]
  simp only [isSpace, Bool.or_eq_true, Bool.and_eq_true, beq_iff_eq, decide_eq_true_eq, ne_eq]
  omega

variable {s : String}

theorem isSpace_of_isDigit {c : Char} (h : c.isDigit = true) : isSpace c = false := by
  refine isSpace_of_isHexDigit ?_
  simp only [Char.isDigit, Bool.and_eq_true, decide_eq_true_eq] at h
  simp only [isHexDigit, Bool.or_eq_true, Bool.and_eq_true, decide_eq_true_eq]
  exact .inl h

theorem trimSpace_of_forall (h : ∀ c ∈ s.toList, isSpace c = false) :
    trimSpace s = s := by
  have hnot : ∀ c ∈ s.toList, ¬ isSpace c = true := fun c hc => by simp [h c hc]
  apply String.toList_inj.mp
  rw [toList_trimSpace, dropWhile_eq_self_iff.mpr fun hl => hnot _ (getElem_mem hl)]
  rw [rdropWhile_eq_self_iff]
  exact fun hl => hnot _ (getLast_mem hl)

theorem trimSpace_of_isLowerHex {n : ℕ} (h : isLowerHex s n = true) :
    trimSpace s = s := by
  rw [isLowerHex, Bool.and_eq_true, all_eq_true] at h
  exact trimSpace_of_forall fun c hc => isSpace_of_isHexDigit (h.2 c hc)

theorem parseInt64_of_parseDigits {n : ℕ} (h : parseDigits s.toList = some n) (hn : n < 2 ^ 63) :
    parseInt64 s = some (n : ℤ) := by
  have hdigits : ∀ c ∈ s.toList, c.isDigit = true := by
    unfold parseDigits at h
    split_ifs at h with hd
    exact all_eq_true.mp hd.2
  have hin : inInt64 n = true := by
    rw [inInt64, Bool.and_eq_true, decide_eq_true_eq, decide_eq_true_eq]
    omega
  unfold parseInt64
  split
  · rename_i hminus
    exact nomatch hdigits '-' (hminus ▸ .head _)
  · rename_i hplus
    exact nomatch hdigits '+' (hplus ▸ .head _)
  · rw [h]
    exact (Option.filter_some ..).trans (if_pos hin)

theorem mem_normalizeUniqueIDs {ids : List String} {x : String} :
    x ∈ normalizeUniqueIDs ids ↔ x ≠ "" ∧ ∃ i ∈ ids, trimSpace i = x := by
  simp [normalizeUniqueIDs, and_comm]

theorem notMem_toString_int (hdigit : c.isDigit = false) (hminus : c ≠ '-') (n : ℤ) :
    c ∉ (toString n).toList := by
  have hnat : ∀ m : ℕ, c ∉ m.repr.toList := by
    intro m hc
    rw [← Nat.toString_eq_repr, Nat.toString_eq_ofList_toDigits, String.toList_ofList] at hc
    rw [Nat.isDigit_of_mem_toDigits (by decide) le_rfl hc] at hdigit
    cases hdigit
  cases n with
  | ofNat m => exact hnat m
  | negSucc m =>
    intro hc
    have happ : c ∈ ("-" ++ m.succ.repr).toList := hc
    rw [String.toList_append, mem_append] at happ
    rcases happ with h | h
    · exact hminus (by simpa using h)
    · exact hnat _ h

theorem eq_of_append_sep_eq {sep : Char} {a b c d : List Char} (ha : sep ∉ a) (hc : sep ∉ c)
    (h : a ++ sep :: b = c ++ sep :: d) : b = d := by
  rcases append_eq_append_iff.mp h with ⟨e, rfl, he⟩ | ⟨e, rfl, he⟩
  · cases e with
    | nil => exact (List.cons.inj he).2
    | cons x e =>
      obtain ⟨rfl, -⟩ := List.cons.inj he
      exact absurd (mem_append_right a (.head _)) hc
  · cases e with
    | nil => exact (List.cons.inj he).2.symm
    | cons x e =>
      obtain ⟨rfl, -⟩ := List.cons.inj he
      exact absurd (mem_append_right c (.head _)) ha

end NostrMash
