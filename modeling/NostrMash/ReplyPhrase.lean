import Mathlib.Data.Prod.Lex
import NostrMash.Text

/-!
# Phrases of replies

A reply is a greeting or a remark, and the phrase of a remark decides which other remarks copy it.
Short phrases are copies up to one edit, and each goes with its heaviest near-copy.
-/

namespace NostrMash.Replies

/-- What the regular expressions leave of a reply, and the key of the media files in it. -/
structure ReplyText where
  normalizeReplyPhrase : String → String
  mediaReplyKey : String → String

/-- `strings.Fields`. -/
def fields (s : String) : List String :=
  ((s.toList.splitOnP isSpace).filter (· ≠ [])).map String.ofList

def runeCount (s : String) : ℕ := s.toList.length

def greetingTokens : List String :=
  ["gm", "gn", "ge", "ga", "pv", "pura", "vida", "hi", "hey", "yo", "sup", "hello", "morning",
    "mornin", "night", "evening", "afternoon", "good"]

def wishWords : List String :=
  ["a", "and", "your", "enjoy", "have", "great", "wonderful", "lovely", "nice", "blessed",
    "pleasant", "beautiful", "awesome", "sweet", "dear", "soul", "day", "peace", "coffee", "rest",
    "hug", "hugs", "thanks", "thank", "wish", "wishing", "friend", "friends", "happy", "best",
    "luck", "one", "weekend", "dream", "dreams", "well"]

def isGreetingToken (word : String) : Bool := word ∈ greetingTokens

def isWishWord (word : String) : Bool := isGreetingToken word || decide (word ∈ wishWords)

def leadingSalutationWords (words : List String) : ℕ :=
  let first := words.headD ""
  let second := words.getD 1 ""
  let n :=
    if first ≠ "good" ∧ isGreetingToken first then 1
    else if first = "good" ∧ isGreetingToken second ∧ second ≠ "good" then 2
    else if words = ["good"] then 1
    else 0
  if n = 0 then 0 else n + ((words.drop n).takeWhile isGreetingToken).length

def isOneLineWish (words : List String) (text : String) : Bool :=
  words.length ≤ 8 && runeCount text ≤ 64 && words.all isWishWord

def isGreetingClass (phrase : String) : Bool :=
  let words := fields phrase
  let remainder := words.drop (leadingSalutationWords words)
  if words.all isGreetingToken then true
  else if 0 < leadingSalutationWords words then
    remainder.length ≤ 4 || isOneLineWish remainder (" ".intercalate remainder)
  else isOneLineWish words phrase

def replyContentPhrase (R : ReplyText) (content : String) : String × Bool :=
  let text := R.normalizeReplyPhrase content
  let media := R.mediaReplyKey content
  if text ≠ "" then (text, isGreetingClass text)
  else if media ≠ "" then (media, false)
  else ("", true)

def isShortReplyCandidate (phrase : String) : Bool :=
  !("media:".toList.isPrefixOf phrase.toList) && fields phrase ≠ [] &&
    decide ((fields phrase).length ≤ 5) && decide (runeCount phrase ≤ 40)

section
variable {α : Type*} [DecidableEq α]

def differences (a b : List α) : ℕ := (a.zip b).countP fun p => p.1 ≠ p.2

/-- The second list is the first one without one of its entries. -/
def skipsOne : List α → List α → Bool → Bool
  | [], rest, skipped => skipped && rest.isEmpty
  | x :: long, y :: rest, skipped =>
    if x = y then skipsOne long rest skipped
    else if skipped then false
    else skipsOne long (y :: rest) true
  | _ :: long, [], skipped => if skipped then false else skipsOne long [] true

def withinOneRune (a b : List Char) : Bool :=
  let long := if a.length < b.length then b else a
  let short := if a.length < b.length then a else b
  if 1 < long.length - short.length ∨ short.length < 3 then false
  else if long.length = short.length then differences long short = 1
  else skipsOne long short false

def oneTokenEdit (a b : List String) : Bool :=
  let long := if a.length < b.length then b else a
  let short := if a.length < b.length then a else b
  if short = [] then false
  else if long.length = short.length then 2 ≤ long.length && differences long short = 1
  else long.length = short.length + 1 && skipsOne long short false

def nearShortPhrase (a b : String) : Bool :=
  a = b || withinOneRune a.toList b.toList || oneTokenEdit (fields a) (fields b)

end

variable (counts : String → ℕ)

def outweighs (a b : String) : Bool :=
  counts b < counts a || counts a = counts b &&
    (runeCount a < runeCount b || runeCount a = runeCount b && decide (a < b))

/-- The entry of the phrase in `shortPhraseClusterKeys`. -/
def shortPhraseClusterKey (phrases : List String) (phrase : String) : String :=
  phrases.foldl (fun best other =>
    if other ≠ phrase ∧ nearShortPhrase phrase other ∧ outweighs counts other best then other
    else best) phrase

/-- The most frequent phrase comes first, then the shortest, then the least. -/
def rank (phrase : String) : ℤ ×ₗ (ℕ ×ₗ String) :=
  toLex (-(counts phrase : ℤ), toLex (runeCount phrase, phrase))

/-- The phrase itself or the near-copy of it that comes first. -/
def IsHeaviest (phrases : List String) (phrase key : String) : Prop :=
  (key = phrase ∨ key ∈ phrases ∧ nearShortPhrase phrase key = true) ∧
    ∀ other ∈ phrases, nearShortPhrase phrase other = true → rank counts key ≤ rank counts other

variable {counts} {phrases : List String} {phrase : String}

theorem outweighs_iff {a b : String} :
    outweighs counts a b = true ↔ rank counts a < rank counts b := by
  simp [outweighs, rank, Prod.Lex.lt_iff]

theorem isHeaviest_shortPhraseClusterKey :
    IsHeaviest counts phrases phrase (shortPhraseClusterKey counts phrases phrase) := by
  have hself : nearShortPhrase phrase phrase = true := by simp [nearShortPhrase]
  -- The best phrase only moves ahead in rank, so it stays ahead of the phrases already seen.
  suffices hfold : ∀ (todo : List String) (best : String), (∀ x ∈ todo, x ∈ phrases) →
      (best = phrase ∨ best ∈ phrases ∧ nearShortPhrase phrase best = true) →
      rank counts best ≤ rank counts phrase →
      let key := todo.foldl (fun best other =>
        if other ≠ phrase ∧ nearShortPhrase phrase other ∧ outweighs counts other best then other
        else best) best
      (key = phrase ∨ key ∈ phrases ∧ nearShortPhrase phrase key = true) ∧
        rank counts key ≤ rank counts best ∧
        ∀ other ∈ todo, nearShortPhrase phrase other = true →
          rank counts key ≤ rank counts other by
    obtain ⟨hkey, -, hall⟩ := hfold phrases phrase (fun _ h => h) (.inl rfl) le_rfl
    exact ⟨hkey, hall⟩
  intro todo
  induction todo with
  | nil => exact fun best _ hbest _ => ⟨hbest, le_rfl, nofun⟩
  | cons x todo ih =>
    intro best hin hbest hle
    have hin' : ∀ y ∈ todo, y ∈ phrases := fun y hy => hin y (.tail _ hy)
    rw [List.foldl_cons]
    split_ifs with hx
    · have hlt := outweighs_iff.mp hx.2.2
      obtain ⟨hkey, hbest', hall⟩ := ih x hin' (.inr ⟨hin x (.head _), hx.2.1⟩)
        (hlt.le.trans hle)
      exact ⟨hkey, hbest'.trans hlt.le, List.forall_mem_cons.mpr ⟨fun _ => hbest', hall⟩⟩
    · obtain ⟨hkey, hbest', hall⟩ := ih best hin' hbest hle
      refine ⟨hkey, hbest', List.forall_mem_cons.mpr ⟨fun hnear => hbest'.trans ?_, hall⟩⟩
      by_cases hxp : x = phrase
      · exact hxp ▸ hle
      · exact not_lt.mp fun hlt => hx ⟨hxp, hnear, outweighs_iff.mpr hlt⟩

theorem IsHeaviest.unique {key key' : String} (hphrase : phrase ∈ phrases)
    (h : IsHeaviest counts phrases phrase key) (h' : IsHeaviest counts phrases phrase key') :
    key = key' := by
  have hle {a b : String} (ha : IsHeaviest counts phrases phrase a)
      (hb : IsHeaviest counts phrases phrase b) : rank counts a ≤ rank counts b := by
    rcases hb.1 with rfl | ⟨hmem, hnear⟩
    · exact ha.2 b hphrase (by simp [nearShortPhrase])
    · exact ha.2 b hmem hnear
  have heq := congrArg ofLex (le_antisymm (hle h h') (hle h' h))
  exact congrArg (fun r => (ofLex r.2).2) heq

/-- The second list has one entry more. -/
@[grind] inductive Inserts {α : Type*} : List α → List α → Prop
  | here (x : α) (l : List α) : Inserts l (x :: l)
  | there {a b : List α} (x : α) (h : Inserts a b) : Inserts (x :: a) (x :: b)

/-- The lists differ in one entry. -/
@[grind] inductive Replaces {α : Type*} : List α → List α → Prop
  | here {x y : α} (l : List α) (h : x ≠ y) : Replaces (x :: l) (y :: l)
  | there {a b : List α} (x : α) (h : Replaces a b) : Replaces (x :: a) (x :: b)

def Edited {α : Type*} (a b : List α) : Prop := Inserts a b ∨ Inserts b a ∨ Replaces a b

/-- One phrase becomes the other by one edit of its runes or of its words. -/
def OneEdit (a b : String) : Prop :=
  a = b ∨ (3 ≤ runeCount a ∧ 3 ≤ runeCount b ∧ Edited a.toList b.toList) ∨
    (fields a ≠ [] ∧ fields b ≠ [] ∧ (Inserts (fields a) (fields b) ∨
      Inserts (fields b) (fields a))) ∨
    2 ≤ (fields a).length ∧ 2 ≤ (fields b).length ∧ Replaces (fields a) (fields b)

section
variable {α : Type*} {a b : List α}

@[grind →] theorem Inserts.length_eq (h : Inserts a b) : b.length = a.length + 1 := by
  induction h with
  | here => rfl
  | there _ _ ih => simp [ih]

@[grind →] theorem Replaces.length_eq (h : Replaces a b) : a.length = b.length := by
  induction h with
  | here => rfl
  | there _ _ ih => simp [ih]

theorem Replaces.symm (h : Replaces a b) : Replaces b a := by
  induction h with
  | here l h => exact .here l h.symm
  | there x _ ih => exact .there x ih

theorem Edited.symm (h : Edited a b) : Edited b a := by
  rcases h with h | h | h
  · exact .inr (.inl h)
  · exact .inl h
  · exact .inr (.inr h.symm)

variable [DecidableEq α]

theorem skipsOne_true (a b : List α) : skipsOne a b true = true ↔ a = b := by
  induction a generalizing b with
  | nil => cases b <;> simp [skipsOne]
  | cons x a ih => cases b <;> grind [skipsOne]

theorem skipsOne_false (a b : List α) : skipsOne b a false = true ↔ Inserts a b := by
  induction b generalizing a with
  | nil => grind [skipsOne]
  | cons x b ih => cases a <;> grind [skipsOne, skipsOne_true]

theorem differences_eq_zero (h : a.length = b.length) : differences a b = 0 ↔ a = b := by
  induction a generalizing b with
  | nil => cases b <;> grind [differences]
  | cons x a ih => cases b <;> grind [differences]

theorem differences_eq_one (h : a.length = b.length) : differences a b = 1 ↔ Replaces a b := by
  induction a generalizing b with
  | nil => cases b <;> grind [differences]
  | cons x a ih => cases b <;> grind [differences, differences_eq_zero]

end

theorem withinOneRune_iff (a b : List Char) :
    withinOneRune a b = true ↔ 3 ≤ a.length ∧ 3 ≤ b.length ∧ Edited a b := by
  rcases lt_trichotomy a.length b.length with h | h | h
  · have hscan := skipsOne_false a b
    simp only [withinOneRune, if_pos h, if_neg h.ne']
    grind [Edited]
  · have hscan := differences_eq_one h
    simp only [withinOneRune, h, lt_irrefl, if_false, if_true]
    grind [Edited]
  · have hscan := skipsOne_false b a
    simp only [withinOneRune, if_neg h.not_gt, if_neg h.ne']
    grind [Edited]

theorem oneTokenEdit_iff (a b : List String) : oneTokenEdit a b = true ↔
    (a ≠ [] ∧ b ≠ [] ∧ (Inserts a b ∨ Inserts b a)) ∨
      2 ≤ a.length ∧ 2 ≤ b.length ∧ Replaces a b := by
  rcases lt_trichotomy a.length b.length with h | h | h
  · have hscan := skipsOne_false a b
    simp only [oneTokenEdit, if_pos h, if_neg h.ne']
    grind
  · have hscan := differences_eq_one h
    simp only [oneTokenEdit, h, lt_irrefl, if_false, if_true]
    grind
  · have hscan := skipsOne_false b a
    simp only [oneTokenEdit, if_neg h.not_gt, if_neg h.ne']
    grind

/-- A near-copy is one edit away, and goes both ways. -/
theorem nearShortPhrase_iff : (∀ a b, nearShortPhrase a b = nearShortPhrase b a) ∧
    ∀ a b, nearShortPhrase a b = true ↔ OneEdit a b := by
  have hiff (a b : String) : nearShortPhrase a b = true ↔ OneEdit a b := by
    simp only [nearShortPhrase, OneEdit, Bool.or_eq_true, decide_eq_true_eq, withinOneRune_iff,
      oneTokenEdit_iff, runeCount, or_assoc]
  have hsymm {a b : String} (h : OneEdit a b) : OneEdit b a := by
    rcases h with h | ⟨ha, hb, he⟩ | ⟨ha, hb, hi⟩ | ⟨ha, hb, hr⟩
    · exact .inl h.symm
    · exact .inr (.inl ⟨hb, ha, he.symm⟩)
    · exact .inr (.inr (.inl ⟨hb, ha, hi.symm⟩))
    · exact .inr (.inr (.inr ⟨hb, ha, hr.symm⟩))
  refine ⟨fun a b => ?_, hiff⟩
  rw [Bool.eq_iff_iff, hiff, hiff]
  exact ⟨hsymm, hsymm⟩

end NostrMash.Replies
