import NostrMash.CountInterleaving

/-!
# Counts of interleaved projections that do not overlap

`Fires` lists what each step of the interleaving can do. From it follow two invariants. Every open
transaction keeps its writes within the targets it will count, and has the right count in its view
for every target it has counted.
-/

namespace NostrMash.CountInterleaving
open ReadCommitted CountTables Machine List Function Session Option

section
variable {τ : Type*} [DecidableEq τ] (source : τ → String) (referenced : τ → List String)

inductive Fires (s s' : State τ) : Action τ → Prop where
  | begin {t} (hp : s.phase t = .idle) (hs : s' = s.goto t .begun) : Fires s s' (.begin t)
  | readExisting {t} (hp : s.phase t = .begun)
      (hs : s' = s.goto t (.loaded ((s.view schema t).readExistingContributions (source t)))) :
      Fires s s' (.readExisting t)
  | deletePrior {t existing} (hp : s.phase t = .loaded existing)
      (hs : s.write schema t
        (((s.view schema t).readExistingContributions (source t)).map (.delete (source t)))
        (.inserting existing (referenced t)) = some s') : Fires s s' (.deletePrior t)
  | insertNext {t existing target todo} (hp : s.phase t = .inserting existing (target :: todo))
      (hs : s.write schema t [.insert (source t) target] (.inserting existing todo) = some s') :
      Fires s s' (.insertNext t)
  | range {t existing order} (hp : s.phase t = .inserting existing [])
      (ho : order.Perm (affectedTargets existing (referenced t)))
      (hs : s' = s.goto t (.counting [] order)) : Fires s s' (.range t order)
  | countNext {t done target todo} (hp : s.phase t = .counting done (target :: todo))
      (hs : s' = s.goto t
        (.writing done target ((s.view schema t).countContributions target) todo)) :
      Fires s s' (.countNext t)
  | writeCount {t done target n todo} (hp : s.phase t = .writing done target n todo)
      (hs : s.write schema t (countWrites (s.view schema t) target n)
        (.counting (done ++ [target]) todo) = some s') : Fires s s' (.writeCount t)
  | commit {t done} (hp : s.phase t = .counting done [])
      (hs : s' = s.commit schema t .ended) : Fires s s' (.commit t)
  | rollback {t} (hs : s' = s.rollback t .ended) : Fires s s' (.rollback t)

variable {source referenced}

theorem fires_of_step {s s' : State τ} {a : Action τ} (h : step source referenced s a = some s') :
    Fires source referenced s s' a := by
  cases a <;> simp only [step] at h <;> split at h <;> try contradiction
  · exact .begin ‹_› (some.inj h).symm
  · exact .readExisting ‹_› (some.inj h).symm
  · exact .deletePrior ‹_› h
  · exact .insertNext ‹_› h
  · split_ifs at h with ho
    exact .range ‹_› ho (some.inj h).symm
  · exact .countNext ‹_› (some.inj h).symm
  · exact .writeCount ‹_› h
  · exact .commit ‹_› (some.inj h).symm
  · exact .rollback (some.inj h).symm

end

def scope (referenced : List String) : Phase → List String
  | .inserting existing _ => existing ++ referenced
  | .counting done todo => done ++ todo
  | .writing done target _ todo => done ++ target :: todo
  | _ => []

def written : Phase → List String
  | .counting done _ => done
  | .writing done _ _ _ => done
  | _ => []

structure TxInv (source : String) (referenced : List String) (T : CountTables) (ws : List Write)
    (p : Phase) : Prop where
  inScope : ∀ w ∈ ws, w.target ∈ scope referenced p
  ofSource : ∀ w ∈ ws, w.OfSource source
  loaded : ∀ existing, p = .loaded existing →
    ∀ x, (source, x) ∈ T.contributions → x ∈ existing
  todo : ∀ existing todo, p = .inserting existing todo → ∀ x ∈ todo, x ∈ referenced
  matched : ∀ x ∈ written p, MatchedAt (ws.foldl Write.apply T) x
  fresh : ∀ done x n todo, p = .writing done x n todo →
    n = (ws.foldl Write.apply T).countContributions x

theorem txInv_rest {source : String} {referenced : List String} {T : CountTables} {p : Phase}
    (hp : p = .idle ∨ p = .begun ∨ p = .ended) : TxInv source referenced T [] p := by
  rcases hp with rfl | rfl | rfl <;>
    exact ⟨by simp, by simp, by simp, by simp, by simp [written], by simp⟩

variable {ws : List Write}

theorem own_nil_of_scope {source : String} {referenced : List String} {T : CountTables}
    {p : Phase} (h : TxInv source referenced T ws p) (hp : scope referenced p = []) : ws = [] := by
  apply eq_nil_iff_forall_not_mem.mpr
  intro w hw
  have hmem := h.inScope w hw
  rw [hp] at hmem
  exact not_mem_nil hmem

theorem matchedAt_countWrites (V : CountTables) (x : String) :
    MatchedAt ((countWrites V x (V.countContributions x)).foldl Write.apply V) x := by
  unfold countWrites
  split_ifs with hz hrow
  · unfold MatchedAt
    simp [Write.apply, writeCount_counts, hz]
  · unfold MatchedAt
    rw [not_isSome_iff_eq_none] at hrow
    simp [hrow, hz, CountTables.row]
  · unfold MatchedAt
    simp [Write.apply, writeCount_counts]

theorem countWrites_target {V : CountTables} {x : String} {n : ℕ} {w : Write}
    (hw : w ∈ countWrites V x n) : w.target = x ∧ ∀ s, w.OfSource s := by
  unfold countWrites at hw
  split_ifs at hw
  · rw [mem_singleton.mp hw]
    exact ⟨rfl, fun _ => trivial⟩
  · exact nomatch hw
  · rw [mem_singleton.mp hw]
    exact ⟨rfl, fun _ => trivial⟩

section
variable {τ : Type*} [DecidableEq τ] {source : τ → String} {referenced : τ → List String}

def Sound (source : τ → String) (referenced : τ → List String) : State τ → Prop :=
  Session.Holds Matched fun t => TxInv (source t) (referenced t)

def Exclusive (s : State τ) : Prop :=
  ∀ t u x, x ∈ counted (s.phase t) → x ∈ counted (s.phase u) → t = u

theorem written_subset_counted (p : Phase) : ∀ x ∈ written p, x ∈ counted p := by
  cases p <;> simp [written, counted]
  tauto

theorem txInv_of_commit {T U : CountTables} {p : Phase} {src : String} {refs : List String}
    (h : TxInv src refs T ws p)
    (hsrc : ∀ x, (src, x) ∈ U.contributions → (src, x) ∈ T.contributions)
    (hag : ∀ x ∈ counted p, AgreeAt x U T) : TxInv src refs U ws p where
  inScope := h.inScope
  ofSource := h.ofSource
  loaded existing hp x hx := h.loaded existing hp x (hsrc x hx)
  todo := h.todo
  matched x hx := by
    have ha := agreeAt_foldl ws (hag x (written_subset_counted p x hx))
    exact (matchedAt_congr ha).mpr (h.matched x hx)
  fresh done x n todo hp := by
    have ha := agreeAt_foldl ws (hag x (by simp [hp, counted]))
    rw [agreeAt_count ha]
    exact h.fresh done x n todo hp

theorem sound_step (hinj : Function.Injective source) {s s' : State τ} {a : Action τ}
    (h : Sound source referenced s) (hx : Exclusive s) (hf : Fires source referenced s s' a) :
    Sound source referenced s' := by
  cases hf with
  | @begin t hp hs =>
    have ht := h.2 t
    have hown : s.own t = [] := own_nil_of_scope ht (by simp [hp, scope])
    subst hs
    apply holds_goto h
    rw [hown]
    exact txInv_rest (.inr (.inl rfl))
  | @readExisting t hp hs =>
    have ht := h.2 t
    have hown : s.own t = [] := own_nil_of_scope ht (by simp [hp, scope])
    subst hs
    apply holds_goto h
    have hview : s.view schema t = s.committed := by simp [Session.view, hown]
    rw [hown, hview]
    refine ⟨by simp, by simp, ?_, by simp, by simp [written], by simp⟩
    rintro existing hE x hx
    rw [← Phase.loaded.inj hE]
    exact (mem_readExistingContributions _ _ _).mpr hx
  | @deletePrior t existing hp hs =>
    have ht := h.2 t
    have hown : s.own t = [] := own_nil_of_scope ht (by simp [hp, scope])
    have hview : s.view schema t = s.committed := by simp [Session.view, hown]
    apply holds_write h hs
    rw [hown, hview, nil_append]
    refine ⟨forall_mem_map.mpr fun x hx => ?_, forall_mem_map.mpr fun _ _ => rfl, by simp, ?_,
      by simp [written], by simp⟩
    · exact mem_append_left _
        (ht.loaded existing hp x ((mem_readExistingContributions _ _ _).mp hx))
    · rintro E todo hE x hx
      rwa [← (Phase.inserting.inj hE).2] at hx
  | @insertNext t existing target todo hp hs =>
    have ht := h.2 t
    have hscope := ht.inScope
    rw [hp] at hscope
    apply holds_write h hs
    refine ⟨?_, ?_, by simp, ?_, by simp [written], by simp⟩
    · refine forall_mem_append.mpr ⟨hscope, forall_mem_singleton.mpr ?_⟩
      exact mem_append_right _ (ht.todo _ _ hp target (.head _))
    · exact forall_mem_append.mpr ⟨ht.ofSource, forall_mem_singleton.mpr rfl⟩
    · rintro E todo' hE x hx
      rw [← (Phase.inserting.inj hE).2] at hx
      exact ht.todo _ _ hp x (.tail _ hx)
  | @range t existing order hp ho hs =>
    have ht := h.2 t
    have hscope := ht.inScope
    rw [hp] at hscope
    subst hs
    apply holds_goto h
    refine ⟨?_, ht.ofSource, by simp, by simp, by simp [written], by simp⟩
    intro w hw
    have hmem := hscope w hw
    rw [scope, mem_append] at hmem
    simp only [scope, nil_append]
    exact ho.mem_iff.mpr ((mem_affectedTargets _ _ _).mpr hmem)
  | @countNext t done target todo hp hs =>
    have ht := h.2 t
    have hscope := ht.inScope
    have hmatch := ht.matched
    rw [hp] at hscope hmatch
    subst hs
    apply holds_goto h
    refine ⟨hscope, ht.ofSource, by simp, by simp, hmatch, ?_⟩
    rintro done' x n todo' hE
    obtain ⟨-, rfl, rfl, -⟩ := Phase.writing.inj hE
    rfl
  | @writeCount t done target n todo hp hs =>
    have ht := h.2 t
    have hscope := ht.inScope
    have hmatch := ht.matched
    have hn := ht.fresh done target n todo hp
    rw [hp] at hscope hmatch
    apply holds_write h hs
    have hview : s.view schema t = (s.own t).foldl Write.apply s.committed := rfl
    refine ⟨?_, ?_, by simp, by simp, ?_, by simp⟩
    · simp only [scope, append_assoc, singleton_append]
      refine forall_mem_append.mpr ⟨hscope, fun w hw => ?_⟩
      rw [(countWrites_target hw).1]
      simp
    · exact forall_mem_append.mpr ⟨ht.ofSource, fun w hw => (countWrites_target hw).2 _⟩
    · intro x hxw
      rw [foldl_append, hn, ← hview]
      by_cases he : x = target
      · subst he
        exact matchedAt_countWrites _ x
      · have hdone : x ∈ done := by
          simpa [written, he] using hxw
        refine (matchedAt_congr (agreeAt_foldl_of_ne _ _ ?_)).mpr (hmatch x hdone)
        intro w hw
        rw [(countWrites_target hw).1]
        exact Ne.symm he
  | @commit t done hp hs =>
    have ht := h.2 t
    have hscope := ht.inScope
    have hmatch := ht.matched
    rw [hp] at hscope hmatch
    simp only [scope, append_nil] at hscope
    have hagree : ∀ x, x ∉ done → AgreeAt x (s.view schema t) s.committed := by
      intro x hnot
      apply agreeAt_foldl_of_ne
      rintro w hw rfl
      exact hnot (hscope w hw)
    subst hs
    apply holds_commit
    · intro x
      by_cases hd : x ∈ done
      · exact hmatch x hd
      · exact (matchedAt_congr (hagree x hd)).mpr (h.1 x)
    · exact txInv_rest (.inr (.inr rfl))
    · intro u hu
      apply txInv_of_commit (h.2 u)
      · intro x hmem
        have hne : source u ≠ source t := fun he => hu (hinj he)
        exact (foldl_other_source (s.own t) s.committed ht.ofSource hne x).mp hmem
      · intro x hc
        apply hagree x
        intro hd
        exact hu (hx u t x hc (by rw [hp]; exact hd))
  | @rollback t hs =>
    subst hs
    exact holds_rollback h (txInv_rest (.inr (.inr rfl)))

theorem exclusive_update {s s' : State τ} {t : τ} {p : Phase} (h : Exclusive s)
    (hp : s'.phase = Function.update s.phase t p)
    (hc : ∀ x ∈ counted p, ∀ u, u ≠ t → x ∉ counted (s.phase u)) : Exclusive s' := by
  intro a b x ha hb
  rw [hp] at ha hb
  by_cases hat : a = t
  · by_cases hbt : b = t
    · exact hat.trans hbt.symm
    · subst hat
      rw [update_self] at ha
      rw [update_of_ne hbt] at hb
      exact absurd hb (hc x ha b hbt)
  · by_cases hbt : b = t
    · subst hbt
      rw [update_self] at hb
      rw [update_of_ne hat] at ha
      exact absurd ha (hc x hb a hat)
    · rw [update_of_ne hat] at ha
      rw [update_of_ne hbt] at hb
      exact h a b x ha hb

theorem exclusive_step {s s' : State τ} {a : Action τ} (h : Exclusive s) (hg : NoOverlap s a)
    (hf : Fires source referenced s s' a) : Exclusive s' := by
  cases hf with
  | begin hp hs => exact exclusive_update h (by rw [hs]; rfl) (by simp [counted])
  | readExisting hp hs => exact exclusive_update h (by rw [hs]; rfl) (by simp [counted])
  | deletePrior hp hs =>
    exact exclusive_update h (write_eq_some hs).2.1 (by simp [counted])
  | insertNext hp hs =>
    exact exclusive_update h (write_eq_some hs).2.1 (by simp [counted])
  | range hp ho hs => exact exclusive_update h (by rw [hs]; rfl) (by simp [counted])
  | @countNext t done target todo hp hs =>
    simp only [NoOverlap, hp] at hg
    apply exclusive_update h (by rw [hs]; rfl)
    intro x hx u hu
    rcases mem_cons.mp hx with rfl | hd
    · exact hg u hu
    · exact fun hxu => hu (h u t x hxu (by rw [hp]; exact hd))
  | @writeCount t done target n todo hp hs =>
    apply exclusive_update h (write_eq_some hs).2.1
    refine fun x hx u hu hxu => hu (h u t x hxu ?_)
    rw [hp]
    simpa [counted, or_comm] using hx
  | commit hp hs => exact exclusive_update h (by rw [hs]; rfl) (by simp [counted])
  | rollback hs => exact exclusive_update h (by rw [hs]; rfl) (by simp [counted])

/-- In every run in which no transaction counts a target between another transaction's count of it
and that transaction's end, the committed counts match the committed contribution rows after every
step, and so once all transactions have committed. -/
theorem counts_match_of_no_overlap (hinj : Function.Injective source) (T : CountTables)
    (hT : Matched T) (as : List (Action τ)) (s : State τ)
    (hg : Guarded (step source referenced) NoOverlap (Session.start T .idle) as)
    (hr : run (step source referenced) (Session.start T .idle) as = some s) :
    ∀ x, s.committed.counts x = CountTables.row (s.committed.countContributions x) := by
  have hinv : Sound source referenced s ∧ Exclusive s := by
    refine run_invariant (I := fun u => Sound source referenced u ∧ Exclusive u)
      (fun u a v hu hga huv => ?_) ?_ hg hr
    · have hf := fires_of_step huv
      exact ⟨sound_step hinj hu.1 hu.2 hf, exclusive_step hu.2 hga hf⟩
    · exact ⟨holds_start hT fun t => txInv_rest (.inl rfl), fun t u x ht _ => nomatch ht⟩
  exact hinv.1.1

end

def pairSource (b : Bool) : String := if b then "r2" else "r1"

def pairReferenced (_ : Bool) : List String := ["note"]

def opening (b : Bool) : List (Action Bool) :=
  [.begin b, .readExisting b, .deletePrior b, .insertNext b, .range b ["note"]]

def closing (b : Bool) : List (Action Bool) := [.countNext b, .writeCount b, .commit b]

/-- The second transaction counts after the first has committed, so both are counted. -/
theorem counts_match_two_in_turn :
    ((run (step pairSource pairReferenced) (Session.start CountTables.empty .idle)
      (opening false ++ opening true ++ closing false ++ closing true)).map fun s =>
        s.committed.counts "note") = some (some 2) ∧
    ∀ s, run (step pairSource pairReferenced) (Session.start CountTables.empty .idle)
      (opening false ++ opening true ++ closing false ++ closing true) = some s →
      ∀ x, s.committed.counts x = CountTables.row (s.committed.countContributions x) := by
  refine ⟨by decide, fun s hs => ?_⟩
  exact counts_match_of_no_overlap (by decide) CountTables.empty (fun _ => rfl) _ s
    (by decide) hs

/-- Both transactions count before either commits: two contribution rows, a committed count of
one. -/
theorem counts_lost_when_overlapping : ∃ as s,
      run (step pairSource pairReferenced) (Session.start CountTables.empty .idle) as = some s ∧
      (∀ b, s.phase b = .ended) ∧ s.committed.counts "note" = some 1 ∧
      s.committed.countContributions "note" = 2 := by
  have h : ((run (step pairSource pairReferenced) (Session.start CountTables.empty .idle)
      (opening false ++ opening true ++ [.countNext false, .countNext true, .writeCount false,
        .commit false, .writeCount true, .commit true])).map fun s =>
          (s.phase false, s.phase true, s.committed.counts "note",
            s.committed.countContributions "note")) =
      some (.ended, .ended, some 1, 2) := by decide
  obtain ⟨s, hs, hp⟩ := map_eq_some_iff.mp h
  simp only [Prod.mk.injEq] at hp
  refine ⟨_, s, hs, fun b => ?_, hp.2.2.1, hp.2.2.2⟩
  cases b
  · exact hp.1
  · exact hp.2.1

end NostrMash.CountInterleaving
