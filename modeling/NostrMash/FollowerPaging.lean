import NostrMash.ContactLists
import NostrMash.KeysetPaging

/-!
# Followers page by page

The followers of an account are read with the latest lists first. The cursor is trimmed before it
is compared with the rows.
-/

namespace NostrMash.ContactLists
open KeysetPaging List

abbrev Edge := (String × String) × EdgeRow

/-- The date and the event of a list descend, the follower ascends. -/
abbrev FollowerCursor := ℤ ×ₗ String ×ₗ Stringᵒᵈ

def edgeKey (e : Edge) : FollowerCursor :=
  toLex (e.2.contactListCreatedAt, toLex (e.2.sourceEventID, .toDual e.1.2))

def followerLimit (limit : ℤ) : ℕ :=
  if limit ≤ 0 then 20 else if limit > 100 then 100 else limit.toNat

variable (T : KeyedTable (String × String) EdgeRow) (target : String)

def followersOf : List Edge := T.rows.filter fun e => e.1.1 = target

def followerRows : Option FollowerCursor → List Edge
  | none => followersOf T target
  | some c =>
    let source := trimSpace (ofLex (ofLex c).2).1
    let follower := trimSpace (ofLex (ofLex c).2).2.ofDual
    if follower ≠ "" ∧ source ≠ "" then
      (followersOf T target).filter fun e => e.2.contactListCreatedAt < (ofLex c).1 ∨
        (e.2.contactListCreatedAt = (ofLex c).1 ∧ e.2.sourceEventID < source) ∨
        e.2.contactListCreatedAt = (ofLex c).1 ∧ e.2.sourceEventID = source ∧ follower < e.1.2
    else followersOf T target

def getFollowersByPubkeyPage (limit : ℤ) (cursor : Option FollowerCursor) :
    Except String (List Edge × Option FollowerCursor) :=
  if trimSpace target = "" then .error "target pubkey is required"
  else .ok (page edgeKey (followerRows T (trimSpace target)) (followerLimit limit) cursor)

/-- Following the cursors ends, and gives each edge once and in order. -/
def ReadsFollowers (limit : ℤ) : Prop :=
  (∀ cursor, getFollowersByPubkeyPage T target limit cursor =
    .ok (page edgeKey (followerRows T (trimSpace target)) (followerLimit limit) cursor)) ∧
  ∃ n rows, follow edgeKey (followerRows T (trimSpace target)) (followerLimit limit) n none =
      some rows ∧ rows.Perm (followersOf T (trimSpace target)) ∧
    rows.Pairwise fun a b => edgeKey b ≤ edgeKey a

/-- Sources and followers are trimmed and not empty. -/
def CleanEdges : Prop :=
  ∀ e ∈ followersOf T target, ∀ s ∈ [e.2.sourceEventID, e.1.2], trimSpace s = s ∧ s ≠ ""

theorem nodup_edgeKey : ((followersOf T target).map edgeKey).Nodup := by
  refine Nodup.map_on ?_ (T.nodup.of_map.filter _)
  intro a ha b hb h
  obtain ⟨ha, hat⟩ := mem_filter.mp ha
  obtain ⟨hb, hbt⟩ := mem_filter.mp hb
  refine T.eq_of_mem_rows ha hb (Prod.ext ?_ ?_)
  · exact (of_decide_eq_true hat).trans (of_decide_eq_true hbt).symm
  · exact congrArg (fun k => (ofLex (ofLex k).2).2.ofDual) h

variable {T target} {limit : ℤ} {cursor : Option FollowerCursor}

theorem followerRows_eq (h : CleanEdges T target)
    (hc : ∀ c ∈ cursor, ∃ e ∈ followersOf T target, edgeKey e = c) : followerRows T target cursor =
      keysetQuery edgeKey (followersOf T target) (fun _ => false) cursor := by
  cases cursor with
  | none => rfl
  | some c =>
    obtain ⟨e, he, rfl⟩ := hc c rfl
    obtain ⟨hsource, hs⟩ := h e he _ (.head _)
    obtain ⟨hfollower, hf⟩ := h e he _ (.tail _ (.head _))
    simp only [followerRows, keysetQuery, edgeKey, ofLex_toLex, OrderDual.ofDual_toDual, hsource,
      hfollower, hs, hf, ne_eq, not_false_eq_true, and_self, if_true, Bool.false_or]
    refine filter_congr fun a _ => ?_
    simp only [Prod.Lex.toLex_lt_toLex, OrderDual.toDual_lt_toDual, and_or_left]

theorem follow_followerRows (h : CleanEdges T target) (limit n : ℕ)
    (hc : ∀ c ∈ cursor, ∃ e ∈ followersOf T target, edgeKey e = c) :
    follow edgeKey (followerRows T target) limit n cursor =
      follow edgeKey (keysetQuery edgeKey (followersOf T target) fun _ => false) limit n cursor := by
  induction n generalizing cursor with
  | zero => rfl
  | succ n ih =>
    have hpage : page edgeKey (followerRows T target) limit cursor = page edgeKey
        (keysetQuery edgeKey (followersOf T target) fun _ => false) limit cursor := by
      simp only [page, followerRows_eq h hc]
    rw [follow, follow, ← hpage]
    cases hp : page edgeKey (followerRows T target) limit cursor with
    | mk rows next =>
      cases next with
      | none => rfl
      | some c =>
        obtain ⟨e, he, hec⟩ := page_cursor (congrArg Prod.snd hp)
        refine congrArg (Option.map _) (ih ?_)
        rintro _ ⟨⟩
        rw [followerRows_eq h hc] at he
        exact ⟨e, keysetQuery_subset _ he, hec⟩

/-- Where sources and followers are trimmed, every edge is on one page. -/
theorem reads_followers (ht : trimSpace target ≠ "") (h : CleanEdges T (trimSpace target))
    (hlimit : 0 < limit) : ReadsFollowers T target limit := by
  have hpos : 0 < followerLimit limit := by
    unfold followerLimit
    split_ifs <;> omega
  obtain ⟨n, hn⟩ := (follow_iff (nodup_edgeKey T (trimSpace target)) hpos).mpr
    fun a _ => (rfl : (fun _ : Edge => false) a = false)
  refine ⟨fun _ => if_neg ht, n, _, ?_, perm_descending _, pairwise_descending _⟩
  rw [follow_followerRows h _ _ (by simp), hn]

def twoEdges (follower : String) (h : follower ≠ "b") : KeyedTable (String × String) EdgeRow :=
  ⟨[(("p", follower), ⟨"e", 2⟩), (("p", "b"), ⟨"f", 1⟩)], by simpa using h⟩

theorem reads_two_followers : ReadsFollowers (twoEdges "a" (by decide)) "p" 1 :=
  reads_followers (by decide) (by unfold CleanEdges; decide) (by decide)

/-- After a blank follower the first page is read again and again. -/
theorem blank_follower_repeats : ¬ ReadsFollowers (twoEdges " " (by decide)) "p" 1 := by
  rintro ⟨-, n, rows, h, -⟩
  have hnone : ∀ n c, c = none ∨ c = some (edgeKey (("p", " "), ⟨"e", 2⟩)) →
      follow edgeKey (followerRows (twoEdges " " (by decide)) "p") 1 n c = none := by
    intro n
    induction n with
    | zero => exact fun _ _ => rfl
    | succ n ih =>
      rintro _ (rfl | rfl) <;> exact congrArg (Option.map _) (ih _ (.inr rfl))
  cases (hnone n none (.inl rfl)).symm.trans h

end NostrMash.ContactLists
