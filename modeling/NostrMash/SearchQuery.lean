import NostrMash.Text
import Mathlib.Data.List.Infix
import Mathlib.Data.NNRat.Defs

/-!
# Search queries and raw notes

A query is split into quoted phrases and loose terms.
-/

namespace NostrMash.Search
open List

structure ParsedQuery where
  raw : String
  phrases : List String
  terms : List String
  folded : String
  deriving DecidableEq

structure NoteFeatures where
  createdAt : ℤ
  content : String
  replyCount : ℤ
  repostCount : ℤ
  reactionCount : ℤ
  zapCount : ℤ
  authorBot : Bool
  authorName : String
  authorDisplayName : String
  authorNIP05 : String
  engineScore : ℚ
  deriving DecidableEq

inductive SortOrder
  | relevant
  | latest
  deriving DecidableEq

structure TextRules where
  isLetter : Char → Bool
  isDigit : Char → Bool
  lowerRune : Char → Char
  /-- `ScoreNote` of a note that satisfies the phrases, at a time in nanoseconds. -/
  blend : ParsedQuery → NoteFeatures → ℤ → ℚ≥0
  noteIsAutomated : ParsedQuery → NoteFeatures → Bool
  normalizeDuplicate : String → String
  /-- `normalizeHashtagForLookup`, with `none` for an invalid hashtag. -/
  normalizeHashtag : String → Option String
  shouldShortCircuitQuery : String → Bool

def isPatternSpace (c : Char) : Bool :=
  c == '\t' || c == '\n' || c == '\x0c' || c == '\r' || c == ' '

def collapseSpace : List Char → List Char
  | [] => []
  | [c] => if isPatternSpace c then [' '] else [c]
  | c :: d :: cs =>
    if isPatternSpace c then
      if isPatternSpace d then collapseSpace (d :: cs) else ' ' :: collapseSpace (d :: cs)
    else c :: collapseSpace (d :: cs)

def replaceFirst (old new : List Char) : List Char → List Char
  | [] => if old = [] then new else []
  | c :: cs =>
    if old.isPrefixOf (c :: cs) then new ++ (c :: cs).drop old.length
    else c :: replaceFirst old new cs

def trimHash (s : String) : String :=
  match s.toList with
  | '#' :: cs => String.ofList cs
  | _ => s

/-- Reads the quoted phrases of a text. -/
def scanPhrases : Bool → List Char → List String → List Char → Bool × List String
  | inQuote, _, phrases, [] => (inQuote, phrases)
  | true, buffer, phrases, c :: cs =>
    if c = '"' then
      let phrase := trimSpace (String.ofList buffer)
      if phrase = "" then scanPhrases false [] phrases cs
      else scanPhrases false []
        (phrases ++ [String.ofList (collapseSpace phrase.toList)]) cs
    else scanPhrases true (buffer ++ [c]) phrases cs
  | false, buffer, phrases, c :: cs =>
    if c = '"' then scanPhrases true [] phrases cs else scanPhrases false buffer phrases cs

def blankQuotes (s : String) : String :=
  String.ofList (s.toList.map fun c => if c = '"' then ' ' else c)

namespace TextRules

variable (R : TextRules)

def lower (s : String) : String := String.ofList (s.toList.map R.lowerRune)

def foldToken (s : String) : String := R.lower (trimSpace s)

def foldMatchText (s : String) : String :=
  trimSpace (String.ofList (collapseSpace (R.lower s).toList))

def words (s : String) : List String :=
  ((s.toList.splitOnP fun c => !R.isLetter c && !R.isDigit c && c ≠ '#').map fun field =>
    trimHash (trimHash (R.lower (String.ofList field)))).filter (· ≠ "")

def parseSearchQuery (query : String) : ParsedQuery :=
  let raw := trimSpace query
  if raw = "" then { raw := raw, phrases := [], terms := [], folded := R.foldToken raw }
  else
    let scan := scanPhrases false [] [] raw.toList
    let text := if scan.1 then blankQuotes raw else raw
    let phrases := if scan.1 then [] else scan.2
    let remainder := blankQuotes (phrases.foldl (fun s phrase =>
      String.ofList (replaceFirst (("\"" ++ phrase ++ "\"").toList) [' '] s.toList)) text)
    { raw := raw
      phrases := phrases
      terms := R.words (R.foldToken (if phrases = [] then text else remainder))
      folded := R.foldToken raw }

def contentMatchesPhrases (content : String) (phrases : List String) : Bool :=
  phrases.all fun phrase =>
    R.foldMatchText phrase = "" ||
      decide ((R.foldMatchText phrase).toList <:+: (R.foldMatchText content).toList)

def hashtagSupplementToken (query : String) : Option String :=
  let parsed := R.parseSearchQuery query
  if parsed.phrases ≠ [] then none
  else match parsed.terms with
    | [term] =>
      let token := trimHash (trimSpace term)
      if token = "" ∨ '.' ∈ token.toList ∨ '/' ∈ token.toList then none else some token
    | _ => none

end TextRules

theorem collapseSpace_suffix (c : Char) (cs : List Char) :
    collapseSpace cs <:+ collapseSpace (c :: cs) := by
  cases cs with
  | nil => exact nil_suffix
  | cons d cs =>
    simp only [collapseSpace]
    split_ifs
    · exact suffix_refl _
    · exact suffix_cons _ _
    · exact suffix_cons _ _

theorem collapseSpace_suffix_append (as bs : List Char) :
    collapseSpace bs <:+ collapseSpace (as ++ bs) := by
  induction as with
  | nil => exact suffix_refl _
  | cons a as ih => exact ih.trans (collapseSpace_suffix a (as ++ bs))

theorem blank_prefix_collapseSpace {c : Char} (hc : isPatternSpace c = true) (cs : List Char) :
    [' '] <+: collapseSpace (c :: cs) := by
  induction cs generalizing c with
  | nil => simp [collapseSpace, hc]
  | cons d cs ih =>
    simp only [collapseSpace, if_pos hc]
    split_ifs with hd
    · exact ih hd
    · simp

theorem collapseSpace_prefix_append (as bs : List Char) :
    collapseSpace as <+: collapseSpace (as ++ bs) := by
  fun_induction collapseSpace as with
  | case1 => exact nil_prefix
  | case2 c hc => exact blank_prefix_collapseSpace hc bs
  | case3 c hc =>
    cases bs with
    | nil => simp [collapseSpace, hc]
    | cons b bs => simp [collapseSpace, hc]
  | case4 c d cs hc hd ih => simpa [collapseSpace, hc, hd] using ih
  | case5 c d cs hc hd ih => simpa [collapseSpace, hc, hd] using ih
  | case6 c d cs hc ih => simpa [collapseSpace, hc] using ih

variable {as bs : List Char}

theorem infix_collapseSpace (h : as <:+: bs) :
    collapseSpace as <:+: collapseSpace bs := by
  obtain ⟨l, r, rfl⟩ := h
  have hr := collapseSpace_prefix_append (l ++ as) r
  exact (collapseSpace_suffix_append l as).isInfix.trans hr.isInfix

theorem infix_dropWhile (p : Char → Bool) (h : as <:+: bs) :
    as.dropWhile p <:+: bs.dropWhile p := by
  obtain ⟨l, r, rfl⟩ := h
  induction l with
  | nil =>
    rw [nil_append, dropWhile_append]
    split_ifs with he
    · simp [List.isEmpty_iff.mp he]
    · exact (prefix_append _ _).isInfix
  | cons c l ih =>
    simp only [cons_append, dropWhile_cons]
    split_ifs
    · exact ih
    · exact (dropWhile_suffix p).isInfix.trans ⟨c :: l, r, by simp⟩

theorem infix_trimSpace {s t : String} (h : s.toList <:+: t.toList) :
    (trimSpace s).toList <:+: (trimSpace t).toList := by
  simp only [trimSpace, String.toList_ofList, reverse_infix]
  exact infix_dropWhile _ ( reverse_infix.mpr (infix_dropWhile _ h))

def phraseText (phrases : List String) : String :=
  String.ofList (phrases.map String.toList).flatten

theorem contentMatchesPhrases_phraseText (R : TextRules) (phrases : List String) :
    R.contentMatchesPhrases (phraseText phrases) phrases = true := by
  simp only [TextRules.contentMatchesPhrases, all_eq_true, Bool.or_eq_true, decide_eq_true_eq]
  intro phrase hp
  refine .inr (infix_trimSpace ?_)
  simp only [TextRules.lower, phraseText, String.toList_ofList]
  exact infix_collapseSpace
    ((infix_of_mem_flatten (mem_map_of_mem hp)).map R.lowerRune)

structure NoteFields where
  id : String
  pubkey : String
  content : String
  createdAt : ℤ
  replyCount : ℤ
  repostCount : ℤ
  reactionCount : ℤ
  zapCount : ℤ
  deriving DecidableEq

structure RawNote where
  /-- What `noteTrustEnvelope` reads. -/
  pubkey : String
  /-- What `eventIdentity` reads, if it can be read. -/
  fields : Option NoteFields
  agree : ∀ f ∈ fields, f.pubkey = pubkey
  deriving DecidableEq

def RawNote.ofFields (f : NoteFields) : RawNote :=
  ⟨f.pubkey, some f, fun g hg => by rw [← Option.some.inj hg]⟩

def eventIdentity (n : RawNote) : NoteFields :=
  n.fields.getD
    { id := "", pubkey := "", content := "", createdAt := 0, replyCount := 0, repostCount := 0,
      reactionCount := 0, zapCount := 0 }

@[simp] theorem eventIdentity_ofFields (f : NoteFields) :
    eventIdentity (RawNote.ofFields f) = f := rfl

/-- Durations and clock readings are in nanoseconds. -/
def second : ℤ := 10 ^ 9

def hours (n : ℤ) : ℤ := n * 3600 * second

def unixTime (t : ℤ) : ℤ := t / second

def filterNotesToWindow (now : ℤ) (rows : List RawNote) (window : Option ℤ) : List RawNote :=
  match window with
  | none => rows
  | some w =>
    if w ≤ 0 then rows
    else rows.filter fun n => ¬ ((eventIdentity n).createdAt > 0 ∧
      (eventIdentity n).createdAt < unixTime (now - w))

def notesAreFresh (now : ℤ) (rows : List RawNote) (within : ℤ) : Bool :=
  rows.any fun n => (eventIdentity n).createdAt ≥ unixTime (now - within)

def mergeNoteEvents (fresh rows : List RawNote) : List RawNote :=
  ((fresh ++ rows).foldl (fun (acc : List String × List RawNote) n =>
    let id := (eventIdentity n).id
    if id = "" then (acc.1, acc.2 ++ [n])
    else if id ∈ acc.1 then acc
    else (id :: acc.1, acc.2 ++ [n])) ([], [])).2

theorem filterNotesToWindow_subset (now : ℤ) (rows : List RawNote) (window : Option ℤ) :
    filterNotesToWindow now rows window ⊆ rows := by
  unfold filterNotesToWindow
  split
  · exact List.Subset.refl rows
  · split_ifs
    · exact List.Subset.refl rows
    · exact filter_subset_self _

end NostrMash.Search
