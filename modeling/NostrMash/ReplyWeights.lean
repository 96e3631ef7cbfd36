import Mathlib.Analysis.SpecialFunctions.Sqrt
import Mathlib.Data.Finset.Sort
import NostrMash.ReplyPhrase

/-!
# Weights of replies

The replies of a person count once, with the strongest weight and the longest remark. People who
say the same share a pile, and a pile of two or more has one vote.
-/

namespace NostrMash.Replies
open Finset

structure WeightedReply where
  pubkey : String
  content : String
  weight : ℝ

structure Replier where
  weight : ℝ
  phrase : String
  greeting : Bool

/-- What one more row makes of a replier. -/
noncomputable def hear (R : ReplyText) (current : Option Replier) (row : WeightedReply) :
    Replier :=
  let (phrase, greeting) := replyContentPhrase R row.content
  match current with
  | none => ⟨row.weight, phrase, greeting⟩
  | some r =>
    let weight := max r.weight row.weight
    if !greeting && (r.greeting || runeCount r.phrase < runeCount phrase) then
      ⟨weight, phrase, false⟩
    else if r.greeting && greeting && runeCount r.phrase < runeCount phrase then
      ⟨weight, phrase, r.greeting⟩
    else ⟨weight, r.phrase, r.greeting⟩

/-- A map by pubkey that every row updates at its own pubkey. -/
def keyedFold {β : Type*} (f : Option β → WeightedReply → β) (rows : List WeightedReply) :
    String → Option β :=
  rows.foldl (fun (m : String → Option β) row =>
    Function.update m row.pubkey (some (f (m row.pubkey) row))) fun _ => none

theorem keyedFold_apply {β : Type*} (f : Option β → WeightedReply → β) (rows : List WeightedReply)
    (p : String) : keyedFold f rows p =
      (rows.filter (·.pubkey = p)).foldl (fun entry row => some (f entry row)) none := by
  suffices hfold : ∀ m : String → Option β,
      rows.foldl (fun (m : String → Option β) row =>
        Function.update m row.pubkey (some (f (m row.pubkey) row))) m p =
        (rows.filter (·.pubkey = p)).foldl (fun entry row => some (f entry row)) (m p) from
    hfold fun _ => none
  induction rows with
  | nil => exact fun m => rfl
  | cons row rows ih =>
    intro m
    rw [List.foldl_cons, ih]
    by_cases hp : row.pubkey = p
    · rw [List.filter_cons_of_pos (by simpa using hp), List.foldl_cons, hp, Function.update_self]
    · rw [List.filter_cons_of_neg (by simpa using hp), Function.update_of_ne (Ne.symm hp)]

noncomputable def byPubkey (R : ReplyText) (rows : List WeightedReply) :
    String → Option Replier :=
  keyedFold (hear R) rows

/-- The repliers of the map `byPubkey`: nothing looks at the phrase of a greeting. -/
structure Crowd where
  people : Finset String
  weight : String → ℝ
  remark : String → Option String

noncomputable def crowd (R : ReplyText) (rows : List WeightedReply) : Crowd where
  people := (rows.map (·.pubkey)).toFinset
  weight p := ((byPubkey R rows p).map (·.weight)).getD 0
  remark p := (byPubkey R rows p).bind fun r => if r.greeting then none else some r.phrase

inductive PileKey where
  | greeting
  | short (key : String)
  | long (phrase : String)
  deriving DecidableEq

noncomputable def greetingPileVote (count : ℕ) (strongest : ℝ) : ℝ :=
  if count < 2 ∨ strongest ≤ 0 then 0 else √count * strongest

noncomputable def unlockShare (repliers substantiveRepliers : ℕ) : ℝ :=
  if repliers - substantiveRepliers ≤ substantiveRepliers then 1
  else substantiveRepliers / repliers

structure ReplyWeightSum where
  total : ℝ
  substantive : ℝ
  discountedPubkeys : Finset String
  unlockShare : ℝ

namespace Crowd

variable (C : Crowd)

def phrase (p : String) : String := (C.remark p).getD ""

/-- The person has a remark, and it is short. -/
def isShort (p : String) : Bool := (C.remark p).any isShortReplyCandidate

def shortCounts (phrase : String) : ℕ :=
  (C.people.filter fun p => C.isShort p = true ∧ C.phrase p = phrase).card

def shortPhrases : List String := ((C.people.filter (C.isShort ·)).image C.phrase).sort

def clusters (phrase : String) : String := shortPhraseClusterKey C.shortCounts C.shortPhrases phrase

/-- The pile that a replier is in if it has two people. -/
def replyPileKey (p : String) : PileKey :=
  match C.remark p with
  | none => .greeting
  | some phrase =>
    if isShortReplyCandidate phrase then .short (C.clusters phrase) else .long phrase

def pile (key : PileKey) : Finset String := C.people.filter (C.replyPileKey · = key)

def discounted : Finset String := C.people.filter fun p => 2 ≤ (C.pile (C.replyPileKey p)).card

noncomputable def strongest (s : Finset String) : ℝ := s.fold max 0 C.weight

noncomputable def pileVote : PileKey → ℝ
  | .greeting => greetingPileVote (C.pile .greeting).card (C.strongest (C.pile .greeting))
  | key => C.strongest (C.pile key)

noncomputable def substantive : ℝ := ∑ p ∈ C.people \ C.discounted, C.weight p

noncomputable def sum : ReplyWeightSum where
  total := C.substantive + ∑ key ∈ C.discounted.image C.replyPileKey, C.pileVote key
  substantive := C.substantive
  discountedPubkeys := C.discounted
  unlockShare := unlockShare C.people.card (C.people \ C.discounted).card

end Crowd

noncomputable def sumDiscountedReplyWeights (R : ReplyText) (rows : List WeightedReply) :
    ReplyWeightSum :=
  (crowd R rows).sum

variable {C : Crowd} {p q : String}

theorem Crowd.mem_discounted (hp : p ∈ C.people) :
    p ∈ C.discounted ↔ ∃ q ∈ C.people, q ≠ p ∧ C.replyPileKey q = C.replyPileKey p := by
  have hpile : p ∈ C.pile (C.replyPileKey p) := mem_filter.mpr ⟨hp, rfl⟩
  simp only [Crowd.discounted, mem_filter, hp, true_and]
  constructor
  · intro hcard
    obtain ⟨q, hq, hne⟩ := exists_mem_ne hcard p
    exact ⟨q, (mem_filter.mp hq).1, hne, (mem_filter.mp hq).2⟩
  · rintro ⟨q, hq, hne, hkey⟩
    exact one_lt_card.mpr ⟨q, mem_filter.mpr ⟨hq, hkey⟩, p, hpile, hne⟩

theorem Crowd.replyPileKey_eq_short_iff {key : String} :
    C.replyPileKey p = .short key ↔ C.isShort p = true ∧ C.clusters (C.phrase p) = key := by
  cases hremark : C.remark p with
  | none => simp [Crowd.replyPileKey, Crowd.isShort, hremark]
  | some phrase =>
    simp only [Crowd.replyPileKey, Crowd.isShort, Crowd.phrase, hremark]
    split_ifs with hshort <;> simp [hshort]

theorem Crowd.mem_shortPhrases (hp : p ∈ C.people) (h : C.isShort p = true) :
    C.phrase p ∈ C.shortPhrases := by
  rw [Crowd.shortPhrases, mem_sort]
  exact mem_image_of_mem _ (mem_filter.mpr ⟨hp, h⟩)

variable (C) in
/-- Two people have short remarks of which one is a near-copy of the other. -/
def Crowd.NearCopies (p q : String) : Prop :=
  p ∈ C.people ∧ q ∈ C.people ∧ p ≠ q ∧ C.isShort p = true ∧ C.isShort q = true ∧
    (nearShortPhrase (C.phrase p) (C.phrase q) = true ∨
      nearShortPhrase (C.phrase q) (C.phrase p) = true)

instance (C : Crowd) (p q : String) : Decidable (C.NearCopies p q) := by
  unfold Crowd.NearCopies
  infer_instance

/-- Near-copies are discounted exactly if everyone who has one shares the heaviest near-copy with
somebody. -/
theorem nearCopies_discounted_iff (R : ReplyText) (rows : List WeightedReply) :
    (∀ p q, (crowd R rows).NearCopies p q →
      p ∈ (sumDiscountedReplyWeights R rows).discountedPubkeys ∧
        q ∈ (sumDiscountedReplyWeights R rows).discountedPubkeys) ↔
    ∀ p q, (crowd R rows).NearCopies p q → ∃ r ∈ (crowd R rows).people, r ≠ p ∧
      (crowd R rows).isShort r = true ∧ ∃ key,
        IsHeaviest (crowd R rows).shortCounts (crowd R rows).shortPhrases
          ((crowd R rows).phrase p) key ∧
        IsHeaviest (crowd R rows).shortCounts (crowd R rows).shortPhrases
          ((crowd R rows).phrase r) key := by
  change (∀ p q, _ → p ∈ (crowd R rows).discounted ∧ q ∈ (crowd R rows).discounted) ↔ _
  generalize crowd R rows = C
  have hkey {p : String} (h : C.isShort p = true) :
      C.replyPileKey p = .short (C.clusters (C.phrase p)) :=
    Crowd.replyPileKey_eq_short_iff.mpr ⟨h, rfl⟩
  constructor
  · intro h p q hnear
    obtain ⟨r, hr, hne, heq⟩ := (Crowd.mem_discounted hnear.1).mp (h p q hnear).1
    rw [hkey hnear.2.2.2.1] at heq
    obtain ⟨hshort, hclusters⟩ := Crowd.replyPileKey_eq_short_iff.mp heq
    exact ⟨r, hr, hne, hshort, C.clusters (C.phrase p), isHeaviest_shortPhraseClusterKey,
      hclusters ▸ isHeaviest_shortPhraseClusterKey⟩
  · intro h
    have hdiscounted (p q : String) (hnear : C.NearCopies p q) : p ∈ C.discounted := by
      obtain ⟨r, hr, hne, hshort, key, hp, hr'⟩ := h p q hnear
      refine (Crowd.mem_discounted hnear.1).mpr ⟨r, hr, hne, ?_⟩
      rw [hkey hshort, hkey hnear.2.2.2.1]
      have hrkey := hr'.unique (Crowd.mem_shortPhrases hr hshort) isHeaviest_shortPhraseClusterKey
      have hpkey := hp.unique (Crowd.mem_shortPhrases hnear.1 hnear.2.2.2.1)
        isHeaviest_shortPhraseClusterKey
      exact congrArg PileKey.short (hrkey.symm.trans hpkey)
    intro p q hnear
    obtain ⟨hp, hq, hne, hps, hqs, hcopy⟩ := hnear
    exact ⟨hdiscounted p q ⟨hp, hq, hne, hps, hqs, hcopy⟩,
      hdiscounted q p ⟨hq, hp, hne.symm, hqs, hps, hcopy.symm⟩⟩

/-- The reader of replies without capitals, links, mentions and signs. -/
def plainText : ReplyText := ⟨id, fun _ => ""⟩

def neighbours : List WeightedReply := [⟨"a", "tales", 1⟩, ⟨"b", "takes", 1⟩, ⟨"c", "cakes", 1⟩]

theorem neighbours_clusters (phrase : String) :
    (crowd plainText neighbours).clusters phrase =
      shortPhraseClusterKey (crowd plainText neighbours).shortCounts ["cakes", "takes", "tales"]
        phrase := by
  have hphrases : (crowd plainText neighbours).shortPhrases = ["cakes", "takes", "tales"] := by
    have hset : ((crowd plainText neighbours).people.filter
        ((crowd plainText neighbours).isShort ·)).image (crowd plainText neighbours).phrase =
        ["cakes", "takes", "tales"].toFinset := by decide
    rw [Crowd.shortPhrases, hset]
    exact (List.toFinset_sort (· ≤ ·) (by decide)).mpr (by decide)
  rw [Crowd.clusters, hphrases]

/-- The first remark goes with the second, which went with the third. -/
theorem neighbours_nearCopies_alone :
    (crowd plainText neighbours).NearCopies "a" "b" ∧
      "a" ∉ (sumDiscountedReplyWeights plainText neighbours).discountedPubkeys := by
  refine ⟨by decide, fun ha => ?_⟩
  obtain ⟨q, hq, hne, hkey⟩ := (Crowd.mem_discounted (by decide)).mp ha
  simp only [Crowd.replyPileKey, neighbours_clusters] at hkey
  have hq : q = "b" ∨ q = "c" := by
    have : ∀ q ∈ (crowd plainText neighbours).people, q ≠ "a" → q = "b" ∨ q = "c" := by
      decide
    exact this q hq hne
  rcases hq with rfl | rfl
  · revert hkey; decide
  · revert hkey; decide

end NostrMash.Replies
