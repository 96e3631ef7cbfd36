import NostrMash.ArticleRuns

/-!
# Counting articles

An article is counted with the creation of its row, unless a run whose statement was started before
the row was committed replaces it: that run takes the article for a new one.
-/

namespace NostrMash.Articles
open AuthorStats ContactLists ReadCommitted Replaceable List Option

section
variable {τ : Type} [DecidableEq τ]

def createdDTags (T : Tables) (author : String) : Finset String :=
  ((T.created.filter fun A => A.pubkey = author ∧ A.kind = 30023).map (·.dTag)).toFinset

def articleCount (T : Tables) (author : String) : ℤ :=
  counter ProfileStats.longFormNoteCount T.profiles author

def CountedOnce (T₀ : Tables) (s : State τ) : Prop :=
  ∀ author, articleCount s.committed author =
    articleCount T₀ author + (createdDTags s.committed author).card

/-- A run that commits and whose statement was started without a row for the address does not
replace a row that was committed meanwhile. -/
def CreatorsFirst (s : State τ) : Act τ → Prop
  | .commit t =>
    match s.phase t with
    | .counted v prior _ => v.address.kind = 30023 → prior = false →
        ∀ old ∈ s.committed.replaceable.state v.address, ¬ v.row.Beats old
    | _ => True
  | _ => True

end

section
variable {T : Tables} {v : Version} {prior returned : Bool}

theorem addressCounter_eq_longForm {kind : ℕ} :
    addressCounter kind = some .longFormNoteCount ↔ kind = 30023 := by
  unfold addressCounter
  split_ifs <;> simp <;> omega

theorem counter_increment (c : AddressCounter) (pubkey : String)
    (P : KeyedTable String ProfileStats) (k : String) :
    counter ProfileStats.longFormNoteCount (c.increment pubkey P) k =
      counter ProfileStats.longFormNoteCount P k +
        if c = .longFormNoteCount ∧ pubkey = k then 1 else 0 := by
  by_cases hk : k = pubkey
  · subst hk
    cases c <;> cases hrow : P.get k <;>
      simp [AddressCounter.increment, counter, KeyedTable.get_upsert_self, hrow]
  · have hkept : (c.increment pubkey P).get k = P.get k := by
      cases c <;> exact KeyedTable.get_upsert_ne hk _ _
    simp [counter, hkept, Ne.symm hk]

theorem articleCount_increments (author : String) :
    articleCount ((increments v prior returned).foldl Write.apply T) author =
      articleCount T author + if v.address.kind = 30023 ∧ isNewAddress prior returned = true ∧
        v.address.pubkey = author then 1 else 0 := by
  unfold increments
  by_cases hnew : isNewAddress prior returned = true
  · simp only [hnew, if_true, true_and]
    cases hc : addressCounter v.address.kind with
    | none =>
      have hkind : v.address.kind ≠ 30023 := fun h =>
        nomatch (hc.symm.trans (addressCounter_eq_longForm.mpr h))
      simp [hkind]
    | some c =>
      have hkind : c = .longFormNoteCount ↔ v.address.kind = 30023 := by
        rw [← addressCounter_eq_longForm, hc, Option.some.injEq]
      simp only [map_some, toList_some, foldl_cons, foldl_nil, ← hkind]
      exact counter_increment c v.address.pubkey T.profiles author
  · simp [hnew]

theorem created_increments :
    ((increments v prior returned).foldl Write.apply T).created = T.created := by
  unfold increments
  split_ifs
  · cases addressCounter v.address.kind with
    | none => rfl
    | some c => rfl
  · rfl

end

variable {τ : Type} [DecidableEq τ] {stored : String → Option EventContent} {T₀ : Tables}
  {s s' : State τ} {t : τ} {v : Version} {prior returned : Bool}

theorem articleCount_commit (h : Inv s) (hp : s.phase t = .counted v prior returned)
    (author : String) : articleCount (s.view schema t) author = articleCount s.committed author +
      if v.address.kind = 30023 ∧ isNewAddress prior returned = true ∧ v.address.pubkey = author
      then 1 else 0 := by
  have hrun := h.runs.2 t
  rw [hp] at hrun
  rw [Session.view, hrun.1]
  exact articleCount_increments author

theorem created_commit (h : Inv s) (hp : s.phase t = .counted v prior returned) :
    (s.view schema t).created =
      if (s.committed.replaceable.state v.address).isNone then
        v.address :: s.committed.created else s.committed.created := by
  have hrun := h.runs.2 t
  rw [hp] at hrun
  rw [Session.view, hrun.1]
  exact created_increments

theorem card_createdDTags_commit (h : Inv s) (hp : s.phase t = .counted v prior returned)
    (author : String) :
    (createdDTags (s.view schema t) author).card = (createdDTags s.committed author).card +
      if v.address.kind = 30023 ∧ (s.committed.replaceable.state v.address).isNone = true ∧
        v.address.pubkey = author then 1 else 0 := by
  rw [createdDTags, created_commit h hp]
  by_cases hnone : (s.committed.replaceable.state v.address).isNone = true
  · by_cases hmine : v.address.pubkey = author ∧ v.address.kind = 30023
    · have hfresh : v.address.dTag ∉ createdDTags s.committed author := by
        intro hmem
        rw [createdDTags, List.mem_toFinset] at hmem
        obtain ⟨A, hA, hd⟩ := mem_map.mp hmem
        obtain ⟨hcreated, hmatch⟩ := mem_filter.mp hA
        obtain ⟨hpub, hkind⟩ := of_decide_eq_true hmatch
        have heq : A = v.address := by
          obtain ⟨pubkey, kind, dTag⟩ := A
          simp only at hpub hkind hd
          rw [hpub, hkind, hd, ← hmine.1, ← hmine.2]
        have hsome := h.runs.1 A hcreated
        rw [heq, isNone_iff_eq_none.mp hnone] at hsome
        exact Bool.noConfusion hsome
      rw [if_pos hnone, if_pos ⟨hmine.2, hnone, hmine.1⟩,
        filter_cons_of_pos (by simpa using hmine), map_cons, toFinset_cons]
      exact Finset.card_insert_of_notMem hfresh
    · rw [if_pos hnone, filter_cons_of_neg (by simpa using hmine),
        if_neg fun hall => hmine ⟨hall.2.2, hall.1⟩]
      rfl
  · rw [if_neg hnone, if_neg fun hall => hnone hall.2.1]
    rfl

theorem isNewAddress_iff (h : Inv s) (hp : s.phase t = .counted v prior returned) :
    (isNewAddress prior returned = true ↔ (s.committed.replaceable.state v.address).isNone = true) ↔
      (prior = false → ∀ old ∈ s.committed.replaceable.state v.address, ¬ v.row.Beats old) := by
  have hrun := h.runs.2 t
  rw [hp] at hrun
  obtain ⟨-, hprior, rfl⟩ := hrun
  cases hrow : s.committed.replaceable.state v.address with
  | none =>
    rw [hrow] at hprior
    have hfalse : prior = false := Bool.eq_false_iff.mpr fun htrue => by simpa using hprior htrue
    simp [isNewAddress, hfalse]
  | some old =>
    cases prior with
    | true => simp [isNewAddress]
    | false => simp [isNewAddress]

theorem countedOnce_commit_iff (h : Inv s) (hcounted : CountedOnce T₀ s)
    (hp : s.phase t = .counted v prior returned) :
    CountedOnce T₀ (s.commit schema t .idle) ↔ CreatorsFirst s (.commit t) := by
  have hnew := isNewAddress_iff h hp
  have hafter : ∀ author, articleCount (s.commit schema t .idle).committed author =
      articleCount s.committed author + if v.address.kind = 30023 ∧
        isNewAddress prior returned = true ∧ v.address.pubkey = author then 1 else 0 :=
    articleCount_commit h hp
  have hcard : ∀ author, (createdDTags (s.commit schema t .idle).committed author).card =
      (createdDTags s.committed author).card + if v.address.kind = 30023 ∧
        (s.committed.replaceable.state v.address).isNone = true ∧ v.address.pubkey = author
        then 1 else 0 := card_createdDTags_commit h hp
  have hguard : CreatorsFirst s (.commit t) ↔ (v.address.kind = 30023 →
      (isNewAddress prior returned = true ↔
        (s.committed.replaceable.state v.address).isNone = true)) := by
    rw [hnew, CreatorsFirst, hp]
  rw [hguard]
  constructor
  · intro hall hkind
    have hone := hall v.address.pubkey
    rw [hafter, hcard, hcounted v.address.pubkey] at hone
    by_cases hn : isNewAddress prior returned = true <;>
      by_cases hz : (s.committed.replaceable.state v.address).isNone = true
    · exact iff_of_true hn hz
    · rw [if_pos ⟨hkind, hn, rfl⟩, if_neg fun hc => hz hc.2.1] at hone
      omega
    · rw [if_neg fun hc => hn hc.2.1, if_pos ⟨hkind, hz, rfl⟩] at hone
      omega
    · exact iff_of_false hn hz
  · intro hiff author
    rw [hafter, hcard, hcounted author]
    by_cases hkind : v.address.kind = 30023
    · by_cases hmine : isNewAddress prior returned = true ∧ v.address.pubkey = author
      · rw [if_pos ⟨hkind, hmine⟩, if_pos ⟨hkind, (hiff hkind).mp hmine.1, hmine.2⟩]
        omega
      · rw [if_neg fun hc => hmine hc.2, if_neg fun hc => hmine ⟨(hiff hkind).mpr hc.2.1, hc.2.2⟩]
        omega
    · rw [if_neg fun hc => hkind hc.1, if_neg fun hc => hkind hc.1]
      omega

theorem committed_step (a : Act τ) (ha : ∀ t, a ≠ .commit t) (hs : step stored s a = some s') :
    s'.committed = s.committed := by
  cases a with
  | start t eventID =>
    dsimp only [step] at hs
    split at hs
    · split_ifs at hs
      obtain ⟨v, -, rfl⟩ := map_eq_some_iff.mp hs
      rfl
    · cases hs
  | upsert t =>
    dsimp only [step] at hs
    split at hs
    · exact (Session.write_eq_some hs).1
    · cases hs
  | queueLoser t =>
    dsimp only [step] at hs
    split at hs
    · exact (Session.write_eq_some hs).1
    · cases hs
  | count t =>
    dsimp only [step] at hs
    split at hs
    · exact (Session.write_eq_some hs).1
    · cases hs
  | commit t => exact absurd rfl (ha t)
  | rollback t =>
    cases hs
    rfl

theorem commit_cases (stored : String → Option EventContent) (s : State τ) (t : τ) :
    (∃ v prior returned, s.phase t = .counted v prior returned ∧
      step stored s (.commit t) = some (s.commit schema t .idle)) ∨
    (step stored s (.commit t) = none ∧ CreatorsFirst s (.commit t)) := by
  cases hp : s.phase t with
  | counted v prior returned => exact .inl ⟨v, prior, returned, rfl, by simp [step, hp]⟩
  | _ => exact .inr ⟨by simp [step, hp], by simp [CreatorsFirst, hp]⟩

omit [DecidableEq τ] in
theorem creatorsFirst_of_ne (a : Act τ) (ha : ∀ t, a ≠ .commit t) : CreatorsFirst s a := by
  cases a with
  | commit t => exact absurd rfl (ha t)
  | _ => trivial

/-- Every article is counted once in every state of a run exactly when every run that commits and
whose statement was started without a row for the address replaces none. -/
theorem always_countedOnce_iff (stored : String → Option EventContent) (T₀ : Tables)
    (as : List (Act τ)) : Machine.Always (step stored) (CountedOnce T₀) (init T₀) as ↔
      Machine.Guarded (step stored) CreatorsFirst (init T₀) as := by
  refine Machine.always_iff_guarded (J := Inv) (fun s a s' h hs => inv_step h a hs) ?_ ?_
    (inv_init T₀) ?_
  · intro s a s' h hcounted hs
    by_cases ha : ∃ t, a = .commit t
    · obtain ⟨t, rfl⟩ := ha
      rcases commit_cases stored s t with ⟨v, prior, returned, hp, hc⟩ | ⟨hnone, -⟩
      · obtain rfl := some.inj (hc.symm.trans hs)
        exact countedOnce_commit_iff h hcounted hp
      · rw [hnone] at hs
        cases hs
    · have hne : ∀ t, a ≠ .commit t := not_exists.mp ha
      refine iff_of_true (fun author => ?_) (creatorsFirst_of_ne a hne)
      rw [committed_step a hne hs]
      exact hcounted author
  · intro s a _ _ hs
    by_cases ha : ∃ t, a = .commit t
    · obtain ⟨t, rfl⟩ := ha
      rcases commit_cases stored s t with ⟨v, prior, returned, hp, hc⟩ | ⟨-, hguard⟩
      · rw [hc] at hs
        cases hs
      · exact hguard
    · exact creatorsFirst_of_ne a (not_exists.mp ha)
  · intro author
    simp [init, Session.start, createdDTags, articleCount]

def twoVersions : String → Option EventContent
  | "first" => some ⟨"alice", 30023, 10, [["d", "essay"]]⟩
  | "second" => some ⟨"alice", 30023, 20, [["d", "essay"]]⟩
  | _ => none

def overlappingRuns : List (Act Bool) :=
  [.start false "first", .start true "second", .upsert false, .queueLoser false, .count false,
    .commit false, .upsert true, .queueLoser true, .count true, .commit true]

def noRows : Tables := ⟨.empty, .empty, []⟩

/-- The one article is counted twice. -/
theorem article_counted_twice :
    ¬ Machine.Always (step twoVersions) (CountedOnce noRows) (init noRows) overlappingRuns := by
  intro h
  have hcount := h _ (prefix_refl _) _ rfl "alice"
  revert hcount
  decide

end NostrMash.Articles
