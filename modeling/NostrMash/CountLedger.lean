import NostrMash.CountTables

/-!
# The lifetime ledger behind a count

A ledger remembers, for every source event ever projected, the targets its latest projection
counted for. It is never purged.
-/

namespace NostrMash

abbrev Ledger := List (String × List String)

variable {L : Ledger} {s t : String}

namespace Ledger

def record (L : Ledger) (source : String) (targets : List String) : Ledger :=
  (source, targets) :: L.filter (·.1 ≠ source)

def Counted (L : Ledger) (source target : String) : Prop :=
  ∃ R, (source, R) ∈ L ∧ target ∈ R

def lifetime (L : Ledger) (target : String) : ℕ := (L.filter (target ∈ ·.2)).length

def Functional (L : Ledger) : Prop := (L.map (·.1)).Nodup

theorem functional_record (h : L.Functional) (s : String) (R : List String) :
    (L.record s R).Functional := by
  unfold Functional record
  rw [List.map_cons, List.nodup_cons]
  refine ⟨?_, h.sublist (List.filter_sublist.map _)⟩
  simp

theorem counted_record (L : Ledger) (s : String) (R : List String) (s' t : String) :
    (L.record s R).Counted s' t ↔ (s' = s ∧ t ∈ R) ∨ (s' ≠ s ∧ L.Counted s' t) := by
  unfold Counted record
  constructor
  · rintro ⟨Q, hQ, ht⟩
    rcases List.mem_cons.mp hQ with heq | hmem
    · obtain ⟨rfl, rfl⟩ := Prod.mk.inj heq
      exact .inl ⟨rfl, ht⟩
    · simp only [List.mem_filter, decide_eq_true_eq, ne_eq] at hmem
      exact .inr ⟨hmem.2, Q, hmem.1, ht⟩
  · rintro (⟨rfl, ht⟩ | ⟨hne, Q, hQ, ht⟩)
    · exact ⟨R, List.mem_cons_self, ht⟩
    · exact ⟨Q, List.mem_cons_of_mem _ (by simp [hQ, hne]), ht⟩

theorem lifetime_eq_sources (L : Ledger) (t : String) :
    L.lifetime t = ((L.filter (t ∈ ·.2)).map (·.1)).length := (List.length_map _).symm

theorem mem_sources (L : Ledger) (s t : String) :
    s ∈ (L.filter (t ∈ ·.2)).map (·.1) ↔ L.Counted s t := by
  simp [Counted]

theorem nodup_sources (h : L.Functional) (t : String) :
    ((L.filter (t ∈ ·.2)).map (·.1)).Nodup :=
  h.sublist (List.filter_sublist.map _)

variable {M : Ledger}

theorem lifetime_congr (hL : L.Functional) (hM : M.Functional)
    (h : ∀ s, L.Counted s t ↔ M.Counted s t) : L.lifetime t = M.lifetime t := by
  rw [lifetime_eq_sources, lifetime_eq_sources]
  apply List.Perm.length_eq
  rw [List.perm_ext_iff_of_nodup (nodup_sources hL t) (nodup_sources hM t)]
  intro s
  rw [mem_sources, mem_sources, h s]

theorem lifetime_lt (hL : L.Functional) (h : ∀ r, L.Counted r t → M.Counted r t)
    (hs : M.Counted s t) (hn : ¬ L.Counted s t) :
    L.lifetime t < M.lifetime t := by
  have hsub : s :: (L.filter (t ∈ ·.2)).map (·.1) ⊆ (M.filter (t ∈ ·.2)).map (·.1) := by
    intro r hr
    rcases List.mem_cons.mp hr with rfl | hmem
    · exact (mem_sources M _ t).mpr hs
    · exact (mem_sources M r t).mpr (h r ((mem_sources L r t).mp hmem))
  have hnd : (s :: (L.filter (t ∈ ·.2)).map (·.1)).Nodup :=
    List.nodup_cons.mpr ⟨fun hmem => hn ((mem_sources L s t).mp hmem), nodup_sources hL t⟩
  have hlen := (List.subperm_of_subset hnd hsub).length_le
  rw [List.length_cons, List.length_map, List.length_map] at hlen
  exact hlen

end Ledger

namespace CountTables
open Ledger List

def Lost (T : CountTables) (L : Ledger) (source target : String) : Prop :=
  L.Counted source target ∧ (source, target) ∉ T.contributions

structure Backed (T : CountTables) (L : Ledger) : Prop where
  functional : L.Functional
  counted : ∀ p ∈ T.contributions, L.Counted p.1 p.2

def Exact (T : CountTables) (L : Ledger) : Prop := ∀ t, T.count t = L.lifetime t

/-- What a projection of `source` onto `referenced` needs: every lost row belongs to a target it
does not recount, and a lost row of `source` itself is one it inserts again. -/
def Recountable (T : CountTables) (L : Ledger) (source : String) (referenced : List String) :
    Prop :=
  ∀ s t, T.Lost L s t →
    (s = source → t ∈ referenced) ∧
      (s ≠ source → t ∉ referenced ∧ (source, t) ∉ T.contributions)

theorem nodup_targetSources (T : CountTables) (t : String) :
    ((T.contributions.filter (·.2 = t)).map (·.1)).Nodup := by
  apply (T.nodup.filter _).map_on
  rintro ⟨s, u⟩ hp ⟨s', u'⟩ hq heq
  simp only [mem_filter, decide_eq_true_eq] at hp hq
  simp only [Prod.mk.injEq]
  exact ⟨heq, hp.2.trans hq.2.symm⟩

theorem mem_targetSources (T : CountTables) (s t : String) :
    s ∈ (T.contributions.filter (·.2 = t)).map (·.1) ↔ (s, t) ∈ T.contributions := by
  simp

variable {T : CountTables}

theorem countContributions_eq_lifetime_iff (h : T.Backed L) (t : String) :
    T.countContributions t = L.lifetime t ↔ ∀ s, ¬ T.Lost L s t := by
  have hrows : T.countContributions t =
      ((T.contributions.filter (·.2 = t)).map (·.1)).length := (length_map _).symm
  have hsub : (T.contributions.filter (·.2 = t)).map (·.1) ⊆ (L.filter (t ∈ ·.2)).map (·.1) := by
    intro s hs
    exact (mem_sources L s t).mpr (h.counted (s, t) ((mem_targetSources T s t).mp hs))
  have hperm := subperm_of_subset (nodup_targetSources T t) hsub
  rw [hrows, lifetime_eq_sources]
  constructor
  · intro hlen s hlost
    have hp := hperm.perm_of_length_le hlen.ge
    have hs := hp.mem_iff.mpr ((mem_sources L s t).mpr hlost.1)
    exact hlost.2 ((mem_targetSources T s t).mp hs)
  · intro hnone
    apply Nat.le_antisymm hperm.length_le
    apply (subperm_of_subset (nodup_sources h.functional t) _).length_le
    intro s hs
    by_contra hn
    exact hnone s ⟨(mem_sources L s t).mp hs, fun hr => hn ((mem_targetSources T s t).mpr hr)⟩

theorem backed_projectCounts (h : T.Backed L) (s : String) (R : List String) :
    (T.projectCounts s R).Backed (L.record s R) where
  functional := functional_record h.functional s R
  counted p hp := by
    rw [counted_record]
    rcases (mem_projectCounts T s R p).mp hp with ⟨hmem, hne⟩ | ⟨heq, ht⟩
    · exact .inr ⟨hne, h.counted p hmem⟩
    · exact .inl ⟨heq, ht⟩

theorem lost_projectCounts (T : CountTables) (L : Ledger) (s : String) (R : List String)
    (s' t : String) : (T.projectCounts s R).Lost (L.record s R) s' t ↔ s' ≠ s ∧ T.Lost L s' t := by
  unfold Lost
  rw [counted_record, mem_projectCounts]
  by_cases hs : s' = s
  · subst hs
    simp
  · simp [hs]

variable {R : List String}

theorem count_projectCounts_recounted (h : (s, t) ∈ T.contributions ∨ t ∈ R) :
    (T.projectCounts s R).count t = (T.projectCounts s R).countContributions t := by
  rw [count, projectCounts_counts, if_pos h, row_getD]

theorem count_projectCounts_untouched (h : ¬ ((s, t) ∈ T.contributions ∨ t ∈ R)) :
    (T.projectCounts s R).count t = T.count t := by
  rw [count, projectCounts_counts, if_neg h, count]

theorem lifetime_record_untouched (h : T.Backed L) (hu : ¬ ((s, t) ∈ T.contributions ∨ t ∈ R)) :
    L.lifetime t = (L.record s R).lifetime t ↔ ¬ T.Lost L s t := by
  push Not at hu
  have hsub : ∀ r, (L.record s R).Counted r t → L.Counted r t := by
    intro r hr
    rcases (counted_record L s R r t).mp hr with ⟨_, ht⟩ | ⟨_, hc⟩
    · exact absurd ht hu.2
    · exact hc
  have hself : ¬ (L.record s R).Counted s t := by
    rw [counted_record]
    simp [hu.2]
  constructor
  · intro heq hlost
    have hlt := lifetime_lt (functional_record h.functional s R) hsub hlost.1 hself
    omega
  · intro hn
    apply lifetime_congr h.functional (functional_record h.functional s R)
    intro r
    refine ⟨fun hr => (counted_record L s R r t).mpr (.inr ⟨?_, hr⟩), hsub r⟩
    rintro rfl
    exact hn ⟨hr, hu.1⟩

theorem exact_projectCounts_iff (h : T.Backed L) (hx : T.Exact L) (s : String) (R : List String) :
    (T.projectCounts s R).Exact (L.record s R) ↔ T.Recountable L s R := by
  have hback := backed_projectCounts h s R
  constructor
  · intro hx' s' t hlost
    have ht := hx' t
    by_cases hr : (s, t) ∈ T.contributions ∨ t ∈ R
    · rw [count_projectCounts_recounted hr, countContributions_eq_lifetime_iff hback] at ht
      have hs : s' = s := by
        by_contra hne
        exact ht s' ((lost_projectCounts T L s R s' t).mpr ⟨hne, hlost⟩)
      subst hs
      exact ⟨fun _ => hr.resolve_left hlost.2, fun hne => absurd rfl hne⟩
    · rw [count_projectCounts_untouched hr, hx t, lifetime_record_untouched h hr] at ht
      push Not at hr
      exact ⟨fun he => absurd (he ▸ hlost) ht, fun _ => ⟨hr.2, hr.1⟩⟩
  · intro hrec t
    by_cases hr : (s, t) ∈ T.contributions ∨ t ∈ R
    · rw [count_projectCounts_recounted hr, countContributions_eq_lifetime_iff hback]
      intro s' hlost
      obtain ⟨hne, hold⟩ := (lost_projectCounts T L s R s' t).mp hlost
      obtain ⟨hR, hc⟩ := (hrec s' t hold).2 hne
      exact hr.elim hc hR
    · rw [count_projectCounts_untouched hr, hx t, lifetime_record_untouched h hr]
      intro hlost
      exact hr (.inr ((hrec s t hlost).1 rfl))

theorem lifetime_le_record (h : L.Functional) (hs : ∀ t, ¬ L.Counted s t) (R : List String)
    (t : String) : L.lifetime t ≤ (L.record s R).lifetime t := by
  have hmono : ∀ r, L.Counted r t → (L.record s R).Counted r t := by
    intro r hr
    refine (counted_record L s R r t).mpr (.inr ⟨?_, hr⟩)
    rintro rfl
    exact hs t hr
  by_cases ht : t ∈ R
  · exact (lifetime_lt h hmono ((counted_record L s R s t).mpr (.inl ⟨rfl, ht⟩)) (hs t)).le
  · apply (lifetime_congr h (functional_record h s R) _).le
    intro r
    refine ⟨hmono r, fun hr => ?_⟩
    rcases (counted_record L s R r t).mp hr with ⟨_, hR⟩ | ⟨_, hc⟩
    · exact absurd hR ht
    · exact hc

end CountTables
end NostrMash
