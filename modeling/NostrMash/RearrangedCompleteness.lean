import NostrMash.RearrangedPages

/-!
# When rearranged pages show every row

`Pager.complete_iff` says when the pages together show every row once: every row is kept, the first
page shows the top of the listing, no page stops short of the end, and each page that is followed by
another one ends in the lowest row that it shows.
-/

namespace NostrMash.RearrangedPages.Pager
open List
variable {α κ : Type*} [LinearOrder κ] {P : Pager α κ} {o : ℕ} {c : Option κ} {S : List α}

theorem page_eq (hc : P.below c = P.rows.drop o) (hS : P.arrange o (P.part o) = S) :
    P.page o c = if P.Followed o S.length then
      (S, S.getLast?.map fun a => (o + S.length, P.key a)) else (S, none) := by
  rw [page, hc, ← part, hS]

theorem completeFrom_of_not_followed (hc : P.below c = P.rows.drop o)
    (hS : P.arrange o (P.part o) = S) (hf : ¬ P.Followed o S.length ∨ S = []) :
    P.CompleteFrom o c ↔ S.Perm (P.rows.drop o) := by
  have hpage : P.page o c = (S, none) := by
    rw [page_eq hc hS]
    rcases hf with hf | rfl
    · rw [if_neg hf]
    · split_ifs <;> rfl
  constructor
  · rintro ⟨n, shown, hn, hperm⟩
    cases n with
    | zero => cases hn
    | succ n =>
      rw [follow_of_page_none hpage] at hn
      exact Option.some.inj hn ▸ hperm
  · exact fun hperm => ⟨1, S, follow_of_page_none hpage, hperm⟩

/-- If the pages after this one show what it leaves, then it shows the top of the listing and ends
in the lowest row of it. -/
theorem top_of_follow (h : P.Lawful) (hkeep : ∀ a ∈ P.rows, P.keeps a = true)
    (hS : P.arrange o (P.part o) = S) {n : ℕ} {y : α} {rest : List α} (hy : S.getLast? = some y)
    (hpos : 0 < o + S.length) (hn : P.follow n (o + S.length) (some (P.key y)) = some rest)
    (hperm : (S ++ rest).Perm (P.rows.drop o)) : S.Perm ((P.rows.drop o).take S.length) ∧
      ((P.rows.drop o).take S.length).getLast? = some y := by
  have hpart := h.arrange_subset o (fetched_part (P := P) o)
  rw [hS] at hpart
  have hnd : (S ++ rest).Nodup :=
    hperm.nodup_iff.mpr ((drop_sublist o P.rows).nodup h.nodup)
  have hyS := List.mem_of_getLast? hy
  obtain ⟨A, B, hAB⟩ := append_of_mem (hpart hyS)
  have hdrop : P.rows.drop o = A ++ y :: (B ++ P.rows.drop (o + P.limit)) := by
    rw [← take_append_drop P.limit (P.rows.drop o), ← part, hAB, drop_drop]
    simp
  have hbelow : P.below (some (P.key y)) = B ++ P.rows.drop (o + P.limit) := by
    apply h.below_key (U := P.rows.take o ++ A)
    rw [append_assoc, ← hdrop, take_append_drop]
  have hlen := (fetched_part (P := P) o).2
  rw [hAB, length_append, length_cons] at hlen
  -- What stands above `y` is shown on no later page, and what stands below it is shown on the next.
  have htop : ∀ a ∈ A ++ [y], a ∈ S := by
    intro a ha
    have hmem : a ∈ P.rows.drop o := by
      rw [hdrop]
      simp only [mem_append, mem_cons, not_mem_nil, or_false] at ha ⊢
      tauto
    rcases mem_append.mp (hperm.mem_iff.mpr hmem) with hs | hr
    · exact hs
    · exfalso
      have hlt := lt_of_mem_follow h hn hr
      have hs := h.sorted.sublist (drop_sublist o P.rows)
      rw [hdrop, pairwise_append] at hs
      rcases mem_append.mp ha with ha | ha
      · exact lt_asymm hlt (hs.2.2 a ha y (.head _))
      · rw [mem_singleton.mp ha] at hlt
        exact lt_irrefl _ hlt
  have hnot : ∀ a ∈ S, a ∉ B := by
    intro a ha haB
    have hfetch : a ∈ (P.below (some (P.key y))).take P.limit := by
      rw [hbelow, take_append, take_of_length_le (by omega)]
      exact mem_append_left _ haB
    have hshown : a ∈ P.arrange (o + S.length) ((P.below (some (P.key y))).take P.limit) := by
      rw [(h.later _ _ hpos (fetched_take (below_sublist _))).mem_iff]
      refine mem_filter.mpr ⟨hfetch, hkeep a ?_⟩
      exact (below_sublist _).subset (mem_of_mem_take hfetch)
    exact (nodup_append.mp hnd).2.2 a ha a (mem_follow hn hshown) rfl
  have hSperm : S.Perm (A ++ [y]) := by
    have hndA : (A ++ [y]).Nodup := by
      have hnd' := (drop_sublist o P.rows).nodup h.nodup
      rw [hdrop, append_cons] at hnd'
      exact (nodup_append.mp hnd').1
    refine (perm_ext_iff_of_nodup (nodup_append.mp hnd).1 hndA).mpr fun a => ?_
    refine ⟨fun ha => ?_, htop a⟩
    have hmem := hpart ha
    rw [hAB] at hmem
    have := hnot a ha
    simp only [mem_append, mem_cons, not_mem_nil, or_false] at hmem ⊢
    tauto
  have htake : (P.rows.drop o).take S.length = A ++ [y] := by
    rw [hdrop, append_cons, hSperm.length_eq, take_left]
  rw [htake]
  exact ⟨hSperm, by simp⟩

theorem below_getLast (h : P.Lawful) {m : ℕ} {y : α}
    (hy : ((P.rows.drop o).take m).getLast? = some y) :
    P.below (some (P.key y)) = P.rows.drop (o + m) := by
  obtain ⟨A, hA⟩ := List.getLast?_eq_some_iff.mp hy
  apply h.below_key (U := P.rows.take o ++ A)
  calc P.rows = P.rows.take o ++ ((P.rows.drop o).take m ++ (P.rows.drop o).drop m) := by
        rw [take_append_drop, take_append_drop]
    _ = _ := by
        rw [hA, drop_drop]
        simp

theorem completeFrom_of_followed (h : P.Lawful) (hkeep : ∀ a ∈ P.rows, P.keeps a = true)
    (hc : P.below c = P.rows.drop o) (hS : P.arrange o (P.part o) = S) (hne : S ≠ [])
    (hf : P.Followed o S.length) : P.CompleteFrom o c ↔ S.Perm ((P.rows.drop o).take S.length) ∧
      S.getLast? = ((P.rows.drop o).take S.length).getLast? ∧
        P.CompleteFrom (o + S.length) (S.getLast?.map P.key) := by
  obtain ⟨y, hy⟩ : ∃ y, S.getLast? = some y := ⟨_, List.getLast?_eq_some_getLast hne⟩
  have hpos : 0 < o + S.length := Nat.add_pos_right o (length_pos_of_ne_nil hne)
  have hpage := page_eq hc hS
  rw [if_pos hf, hy] at hpage
  have hsplit : ∀ rest : List α, S.Perm ((P.rows.drop o).take S.length) →
      ((S ++ rest).Perm (P.rows.drop o) ↔ rest.Perm (P.rows.drop (o + S.length))) := by
    intro rest hperm
    have hdrop : P.rows.drop o = (P.rows.drop o).take S.length ++ P.rows.drop (o + S.length) := by
      rw [← drop_drop, take_append_drop]
    refine Iff.trans ?_ (perm_append_left_iff ((P.rows.drop o).take S.length))
    rw [← hdrop]
    exact ⟨(hperm.append_right rest).symm.trans, (hperm.append_right rest).trans⟩
  rw [hy, Option.map_some]
  constructor
  · rintro ⟨n, shown, hn, hperm⟩
    cases n with
    | zero => cases hn
    | succ n =>
      rw [follow_of_page_some hpage] at hn
      obtain ⟨rest, hrest, rfl⟩ := Option.map_eq_some_iff.mp hn
      obtain ⟨htop, hlast⟩ := top_of_follow h hkeep hS hy hpos hrest hperm
      exact ⟨htop, hlast.symm, n, rest, hrest, (hsplit rest htop).mp hperm⟩
  · rintro ⟨htop, -, n, rest, hrest, hperm⟩
    refine ⟨n + 1, S ++ rest, ?_, (hsplit rest htop).mpr hperm⟩
    rw [follow_of_page_some hpage, hrest]
    rfl

omit [LinearOrder κ] in
theorem filter_part (hkeep : ∀ a ∈ P.rows, P.keeps a = true) (o : ℕ) :
    (P.part o).filter P.keeps = P.part o :=
  filter_eq_self.mpr fun a ha => hkeep a ((fetched_part o).1.subset ha)

theorem Lawful.later_part (h : P.Lawful) (hkeep : ∀ a ∈ P.rows, P.keeps a = true) (ho : 0 < o) :
    (P.arrange o (P.part o)).Perm (P.part o) := by
  simpa only [filter_part hkeep o] using h.later o (P.part o) ho (fetched_part o)

theorem completeFrom_later_iff (h : P.Lawful) (hkeep : ∀ a ∈ P.rows, P.keeps a = true) (d : ℕ) :
    ∀ o c, 0 < o → P.rows.length ≤ o + d → P.below c = P.rows.drop o →
      (P.CompleteFrom o c ↔ P.LaterInPlace o) := by
  induction d using Nat.strong_induction_on with
  | _ d ih =>
    intro o c ho hlen hc
    have hpos := h.limit_pos
    have hperm := h.later_part hkeep ho
    have hpart := length_part (P := P) o
    by_cases hend : P.rows.length ≤ o
    · have hnil : P.arrange o (P.part o) = [] := by
        rw [← length_eq_zero_iff, hperm.length_eq]
        omega
      rw [completeFrom_of_not_followed hc hnil (.inr rfl), drop_eq_nil_of_le hend]
      exact iff_of_true (List.Perm.refl _) (laterInPlace_of_length_le hend)
    by_cases hf : P.Followed o (P.part o).length
    · have hne : P.arrange o (P.part o) ≠ [] := by
        rw [← length_pos_iff, hperm.length_eq]
        omega
      rw [completeFrom_of_followed h hkeep hc rfl hne (hperm.length_eq ▸ hf), hperm.length_eq,
        take_length_part, and_iff_right hperm, laterInPlace_of_followed (not_le.mp hend) hf]
      refine and_congr_right fun hlast => ?_
      obtain ⟨y, hy⟩ : ∃ y, (P.part o).getLast? = some y :=
        ⟨_, List.getLast?_eq_some_getLast (ne_nil_of_length_pos (by omega))⟩
      have hbelow : P.below (some (P.key y)) = P.rows.drop (o + (P.part o).length) :=
        below_getLast h (by rw [take_length_part, hy])
      rw [hlast, hy, Option.map_some]
      exact ih (d - (P.part o).length) (by omega) _ _ (by omega) (by omega) hbelow
    · rw [completeFrom_of_not_followed hc rfl (.inl (hperm.length_eq ▸ hf)),
        laterInPlace_of_not_followed hf]
      constructor
      · intro hall
        have hl := hperm.symm.length_eq.trans hall.length_eq
        rw [length_drop] at hl
        omega
      · intro hl
        have hall : P.part o = P.rows.drop o :=
          take_of_length_le (by rw [length_drop]; omega)
        rwa [← hall]

/-- The first page shows the top of the listing; it is followed unless that is all, and then it ends
in the lowest row that it shows; and all later pages are in place. -/
structure InOrder (P : Pager α κ) (S : List α) : Prop where
  keeps : ∀ a ∈ P.rows, P.keeps a = true
  top : S.Perm (P.rows.take S.length)
  goesOn : S.length < P.rows.length → P.Followed 0 S.length
  last : P.Followed 0 S.length → S.getLast? = (P.rows.take S.length).getLast?
  later : P.LaterInPlace S.length

/-- The pages show every row exactly once if and only if they show the rows in order, up to the
order within each page. -/
theorem complete_iff (h : P.Lawful) (hS : P.arrange 0 (P.part 0) = S) :
    P.Complete ↔ P.InOrder S := by
  have hfrom : P.Complete ↔ P.CompleteFrom 0 none := by simp [Complete, CompleteFrom]
  have hc : P.below none = P.rows.drop 0 := rfl
  by_cases hkeep : ∀ a ∈ P.rows, P.keeps a = true
  swap
  · refine iff_of_false ?_ fun hin => hkeep hin.keeps
    rintro ⟨n, shown, hn, hperm⟩
    exact hkeep fun a ha => keeps_of_mem_follow h hn (hperm.mem_iff.mpr ha)
  by_cases hf : P.Followed 0 S.length ∧ S ≠ []
  · have hpos := length_pos_of_ne_nil hf.2
    have hrest : S.getLast? = (P.rows.take S.length).getLast? →
        (P.CompleteFrom S.length (S.getLast?.map P.key) ↔ P.LaterInPlace S.length) := by
      intro hlast
      obtain ⟨y, hy⟩ : ∃ y, S.getLast? = some y := ⟨_, List.getLast?_eq_some_getLast hf.2⟩
      have hbelow : P.below (some (P.key y)) = P.rows.drop (0 + S.length) :=
        below_getLast h (by rw [drop_zero, ← hlast, hy])
      rw [Nat.zero_add] at hbelow
      rw [hy, Option.map_some]
      exact completeFrom_later_iff h hkeep P.rows.length _ _ hpos (by omega) hbelow
    rw [hfrom, completeFrom_of_followed h hkeep hc hS hf.2 hf.1, drop_zero, Nat.zero_add]
    constructor
    · rintro ⟨htop, hlast, hcomplete⟩
      exact ⟨hkeep, htop, fun _ => hf.1, fun _ => hlast, (hrest hlast).mp hcomplete⟩
    · intro hin
      exact ⟨hin.top, hin.last hf.1, (hrest (hin.last hf.1)).mpr hin.later⟩
  · rw [hfrom, completeFrom_of_not_followed hc hS (by tauto), drop_zero]
    constructor
    · intro hperm
      have htake : P.rows.take S.length = P.rows := take_of_length_le hperm.length_eq.ge
      refine ⟨hkeep, htake.symm ▸ hperm, ?_, ?_, laterInPlace_of_length_le hperm.length_eq.ge⟩
      · exact fun hlt => absurd hperm.length_eq hlt.ne
      · intro hfollowed
        obtain rfl : S = [] := by
          by_contra hne
          exact hf ⟨hfollowed, hne⟩
        rfl
    · intro hin
      have hall : P.rows.length ≤ S.length := by
        by_contra hlt
        refine hf ⟨hin.goesOn (not_le.mp hlt), ?_⟩
        rw [← hS]
        apply h.ne_nil _ (fetched_part 0)
        have hlen := length_part (P := P) 0
        have hpos := h.limit_pos
        rw [filter_part hkeep]
        exact ne_nil_of_length_pos (by omega)
      have htop := hin.top
      rwa [take_of_length_le hall] at htop

theorem inOrder_of_nil (h : P.Lawful) (hrows : P.rows = []) :
    P.InOrder (P.arrange 0 (P.part 0)) := by
  have hpart : P.part 0 = [] := by rw [part, hrows, drop_nil, take_nil]
  have hnil : P.arrange 0 (P.part 0) = [] := by
    have hsub := h.subperm 0 (P.part 0) (fetched_part 0)
    rw [hpart] at hsub ⊢
    exact subperm_nil.mp hsub
  rw [hnil]
  refine ⟨?_, ?_, ?_, fun _ => ?_, laterInPlace_of_length_le ?_⟩
  · simp [hrows]
  · exact List.Perm.refl _
  · simp [hrows]
  · rfl
  · simp [hrows]

end NostrMash.RearrangedPages.Pager
