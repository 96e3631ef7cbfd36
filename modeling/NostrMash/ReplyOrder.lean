import NostrMash.ReplyWeights

/-!
# Order of the replies

The longest remark of a person stands for the person, the first one among equals.
-/

namespace NostrMash.Replies
open List
variable {R : ReplyText} {rows rows' : List WeightedReply}

def Replier.remark (r : Replier) : Option String := if r.greeting then none else some r.phrase

noncomputable def WeightedReply.remark (R : ReplyText) (row : WeightedReply) : Option String :=
  (hear R none row).remark

/-- A greeting comes before every remark. -/
def wordiness (remark : Option String) : ℕ := remark.elim 0 (runeCount · + 1)

theorem hear_remark (r : Replier) (row : WeightedReply) :
    (hear R (some r) row).remark =
      if wordiness r.remark < wordiness (row.remark R) then row.remark R else r.remark := by
  obtain ⟨weight, phrase, greeting⟩ := r
  rcases hcontent : replyContentPhrase R row.content with ⟨text, greets⟩
  simp only [hear, Replier.remark, WeightedReply.remark, wordiness, hcontent]
  cases greeting <;> cases greets <;> simp <;> split_ifs <;>
    first | rfl | contradiction

/-- What the rows of one person make of the person. -/
structure IsHeard (R : ReplyText) (rows : List WeightedReply) (r : Replier) : Prop where
  weight_mem : ∃ row ∈ rows, row.weight = r.weight
  weight_ge : ∀ row ∈ rows, row.weight ≤ r.weight
  remark_mem : ∃ row ∈ rows, row.remark R = r.remark
  remark_ge : ∀ row ∈ rows, wordiness (row.remark R) ≤ wordiness r.remark

theorem IsHeard.hear {r : Replier} (h : IsHeard R rows r) (row : WeightedReply) :
    IsHeard R (rows ++ [row]) (hear R (some r) row) := by
  have hweight : (Replies.hear R (some r) row).weight = max r.weight row.weight := by
    simp only [Replies.hear]
    split_ifs <;> rfl
  constructor
  · rw [hweight]
    rcases max_choice r.weight row.weight with hmax | hmax
    · obtain ⟨row', hmem, heq⟩ := h.weight_mem
      exact ⟨row', mem_append_left _ hmem, heq.trans hmax.symm⟩
    · exact ⟨row, mem_append_right _ mem_cons_self, hmax.symm⟩
  · rw [hweight, forall_mem_append, forall_mem_singleton]
    exact ⟨fun row' hmem => le_max_of_le_left (h.weight_ge row' hmem), le_max_right ..⟩
  · rw [hear_remark]
    split_ifs
    · exact ⟨row, mem_append_right _ mem_cons_self, rfl⟩
    · obtain ⟨row', hmem, heq⟩ := h.remark_mem
      exact ⟨row', mem_append_left _ hmem, heq⟩
  · rw [hear_remark, forall_mem_append, forall_mem_singleton]
    split_ifs with hlt
    · exact ⟨fun row' hmem => (h.remark_ge row' hmem).trans hlt.le, le_rfl⟩
    · exact ⟨h.remark_ge, not_lt.mp hlt⟩

theorem isHeard_foldl (rows : List WeightedReply) (hne : rows ≠ []) :
    ∃ r, rows.foldl (fun entry row => some (hear R entry row)) none = some r ∧
      IsHeard R rows r := by
  induction rows using List.reverseRecOn with
  | nil => exact absurd rfl hne
  | append_singleton rows row ih =>
    rw [foldl_append]
    rcases eq_or_ne rows [] with rfl | hrows
    · exact ⟨_, rfl, by constructor <;> simp [hear, WeightedReply.remark]⟩
    · obtain ⟨r, hfold, hr⟩ := ih hrows
      exact ⟨_, by rw [hfold]; rfl, hr.hear row⟩

/-- Nobody has two longest remarks that differ. -/
def OneLongestRemark (R : ReplyText) (rows : List WeightedReply) : Prop :=
  ∀ a ∈ rows, ∀ b ∈ rows, a.pubkey = b.pubkey →
    (∀ row ∈ rows, row.pubkey = a.pubkey → wordiness (row.remark R) ≤ wordiness (a.remark R)) →
    wordiness (a.remark R) = wordiness (b.remark R) → a.remark R = b.remark R

theorem IsHeard.eq_of_perm {r r' : Replier} (h : IsHeard R rows r) (h' : IsHeard R rows' r')
    (hperm : rows.Perm rows')
    (hone : ∀ a ∈ rows, ∀ b ∈ rows,
      (∀ row ∈ rows, wordiness (row.remark R) ≤ wordiness (a.remark R)) →
      wordiness (a.remark R) = wordiness (b.remark R) → a.remark R = b.remark R) :
    r'.weight = r.weight ∧ r'.remark = r.remark := by
  constructor
  · obtain ⟨row, hmem, hrow⟩ := h.weight_mem
    obtain ⟨row', hmem', hrow'⟩ := h'.weight_mem
    exact le_antisymm (hrow' ▸ h.weight_ge row' (hperm.mem_iff.mpr hmem'))
      (hrow ▸ h'.weight_ge row (hperm.mem_iff.mp hmem))
  · obtain ⟨row, hmem, hrow⟩ := h.remark_mem
    obtain ⟨row', hmem', hrow'⟩ := h'.remark_mem
    rw [← hrow, ← hrow', eq_comm]
    refine hone row hmem row' (hperm.mem_iff.mpr hmem') (hrow ▸ h.remark_ge) (le_antisymm ?_ ?_)
    · exact hrow' ▸ h'.remark_ge row (hperm.mem_iff.mp hmem)
    · exact hrow ▸ h.remark_ge row' (hperm.mem_iff.mpr hmem')

theorem byPubkey_perm (h : OneLongestRemark R rows) (hperm : rows.Perm rows') (p : String) :
    (byPubkey R rows' p).map (fun r => (r.weight, r.remark)) =
      (byPubkey R rows p).map fun r => (r.weight, r.remark) := by
  have hfilter := hperm.filter (·.pubkey = p)
  rw [byPubkey, byPubkey, keyedFold_apply, keyedFold_apply]
  rcases eq_or_ne (rows.filter (·.pubkey = p)) [] with hnil | hne
  · rw [hnil] at hfilter ⊢
    rw [nil_perm.mp hfilter]
  · have hne' : rows'.filter (·.pubkey = p) ≠ [] := by
      intro hnil
      exact hne (perm_nil.mp (hnil ▸ hfilter))
    obtain ⟨r, hr, hheard⟩ := isHeard_foldl (R := R) _ hne
    obtain ⟨r', hr', hheard'⟩ := isHeard_foldl (R := R) _ hne'
    rw [hr, hr', Option.map_some, Option.map_some]
    refine congrArg some (Prod.ext_iff.mpr (hheard.eq_of_perm hheard' hfilter ?_))
    intro a ha b hb hlongest heq
    rw [mem_filter, decide_eq_true_eq] at ha hb
    refine h a ha.1 b hb.1 (ha.2.trans hb.2.symm) (fun row hmem hrow => ?_) heq
    exact hlongest row (mem_filter.mpr ⟨hmem, decide_eq_true (hrow.trans ha.2)⟩)

theorem crowd_eq (rows : List WeightedReply) :
    crowd R rows = ⟨(rows.map (·.pubkey)).toFinset,
      fun p => (((byPubkey R rows p).map fun r => (r.weight, r.remark)).map (·.1)).getD 0,
      fun p => ((byPubkey R rows p).map fun r => (r.weight, r.remark)).bind (·.2)⟩ := by
  simp only [Option.map_map, Option.bind_map]
  rfl

/-- The order of the rows does not matter while nobody has two longest remarks. -/
theorem sumDiscountedReplyWeights_perm (h : OneLongestRemark R rows) (hperm : rows.Perm rows') :
    sumDiscountedReplyWeights R rows' = sumDiscountedReplyWeights R rows := by
  simp only [sumDiscountedReplyWeights, crowd_eq, byPubkey_perm h hperm]
  rw [toFinset_eq_of_perm _ _ (hperm.map (·.pubkey))]

theorem sumDiscountedReplyWeights_reverse :
    sumDiscountedReplyWeights plainText neighbours.reverse =
      sumDiscountedReplyWeights plainText neighbours :=
  sumDiscountedReplyWeights_perm (by unfold OneLongestRemark; decide)
    (reverse_perm neighbours).symm

def twoRemarks : List WeightedReply :=
  [⟨"a", "this bridge was built in rome", 1⟩, ⟨"a", "that tunnel was built in oslo", 1⟩,
    ⟨"b", "that tunnel was built in oslo", 1⟩]

/-- The remark that comes first decides whether the other replier copies it. -/
theorem twoRemarks_order_matters :
    "b" ∉ (sumDiscountedReplyWeights plainText twoRemarks).discountedPubkeys ∧
      "b" ∈ (sumDiscountedReplyWeights plainText twoRemarks.reverse).discountedPubkeys := by
  decide

end NostrMash.Replies
