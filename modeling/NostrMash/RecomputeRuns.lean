import NostrMash.RecomputeMarks

/-!
# Runs of marks and sweepers

Each step keeps the invariant, so no mark is lost in any run in which the marks of one author have
different times.
-/

namespace NostrMash.Recompute
open AuthorStats KeyedTable Machine Option
variable {τ : Type} {s s' : State τ} {w : τ} {sweep : Sweep}

theorem inv_mark {pubkeys : List String} {now : ℤ} (h : Inv s)
    (hnew : ∀ pubkey ∈ pubkeys, now ∉ s.marks sweep pubkey) : Inv (s.mark sweep pubkeys now) := by
  have hmarks : ∀ sweep' pubkey, (s.mark sweep pubkeys now).marks sweep' pubkey =
      if sweep' = sweep ∧ pubkey ∈ pubkeys then now :: s.marks sweep' pubkey
      else s.marks sweep' pubkey := fun _ _ => rfl
  have hmarked : ∀ pubkey ∈ pubkeys, ∃ row,
      ((s.mark sweep pubkeys now).pending sweep).get pubkey = some row ∧ row.markedAt = now := by
    intro pubkey hpubkey
    simpa [State.mark] using get_markDirty_self (s.pending sweep) now hpubkey
  have hother : ∀ sweep' pubkey, ¬ (sweep' = sweep ∧ pubkey ∈ pubkeys) →
      ((s.mark sweep pubkeys now).pending sweep').get pubkey =
        (s.pending sweep').get pubkey := by
    intro sweep' pubkey hnot
    by_cases hs : sweep' = sweep
    · subst hs
      simpa [State.mark] using get_markDirty_ne fun hmem => hnot ⟨rfl, hmem⟩
    · simp [State.mark, hs]
  refine ⟨fun sweep' pubkey => ?_, fun sweep' pubkey row hrow => ?_, fun sweep' pubkey hnone => ?_,
    fun u => (h.workers u).mono (fun sweep' c n => ?_) fun _ hr => hr⟩
  · rw [hmarks]
    split_ifs with hin
    · obtain ⟨rfl, hmem⟩ := hin
      exact List.nodup_cons.mpr ⟨hnew pubkey hmem, h.distinct sweep' pubkey⟩
    · exact h.distinct sweep' pubkey
  · rw [hmarks]
    split_ifs with hin
    · obtain ⟨rfl, hmem⟩ := hin
      obtain ⟨row', hrow', hat⟩ := hmarked pubkey hmem
      obtain rfl : row' = row := some.inj (hrow'.symm.trans hrow)
      exact congrArg some hat.symm
    · exact h.latest sweep' pubkey row (hother sweep' pubkey hin ▸ hrow)
  · rw [hmarks]
    split_ifs with hin
    · obtain ⟨rfl, hmem⟩ := hin
      obtain ⟨row', hrow', -⟩ := hmarked pubkey hmem
      cases hrow'.symm.trans hnone
    · exact h.covered sweep' pubkey (hother sweep' pubkey hin ▸ hnone)
  · rintro ⟨newer, older, heq, hn⟩
    rw [State.Saw, hmarks]
    split_ifs
    · exact ⟨now :: newer, older, by rw [heq]; rfl, hn⟩
    · exact ⟨newer, older, heq, hn⟩

theorem length_marks_of_saw {c : Claim} {row : PendingRow} {n : ℕ} (h : Inv s)
    (hrow : (s.pending sweep).get c.pubkey = some row) (hat : row.markedAt = c.markedAt)
    (hsaw : s.Saw sweep c n) : (s.marks sweep c.pubkey).length = n := by
  obtain ⟨newer, older, heq, hn⟩ := hsaw
  have hhead := h.latest sweep c.pubkey row hrow
  have hnodup := h.distinct sweep c.pubkey
  rw [heq] at hhead hnodup ⊢
  cases newer with
  | nil => exact hn
  | cons mark newer =>
    obtain rfl : mark = row.markedAt := some.inj hhead
    refine absurd ?_ (List.nodup_cons.mp hnodup).1
    rw [hat]
    exact List.mem_append_right _ (.head _)

variable [DecidableEq τ]

section
variable (h : Inv s)
include h

theorem inv_claim {ctx : ClaimContext} {token : String}
    (hs : claimStep s w sweep ctx token = some s') : Inv s' := by
  unfold claimStep at hs
  split at hs
  · rename_i c T _ hclaim
    cases hs
    obtain ⟨⟨row, hrow, hat⟩, p, rfl⟩ := claimPending_eq_some hclaim
    have hkept := fun pubkey => get_update_markedAt (s.pending sweep) p (f := fun old =>
      { old with claimedAt := some ctx.now, claimToken := some token }) pubkey fun _ => rfl
    refine h.setPending (fun pubkey => (hkept pubkey).1) (fun pubkey hnone =>
      .inl ((hkept pubkey).2 hnone)) ?_
    obtain ⟨older, holder⟩ := List.head?_eq_some_iff.mp (h.latest sweep c.pubkey row hrow)
    exact ⟨_, [], older, by rw [← hat]; exact holder, rfl⟩
  · exact nomatch hs

theorem inv_start (hs : startStep s w = some s') : Inv s' := by
  unfold startStep at hs
  split at hs
  · rename_i sweep c hp
    cases hs
    have hbacks := h.workers w
    rw [hp] at hbacks
    obtain ⟨n, newer, older, heq, hn⟩ := hbacks
    refine h.goto ⟨n, ⟨newer, older, heq, hn⟩, ?_⟩
    rw [heq, List.length_append, List.length_cons]
    omega
  · exact nomatch hs

theorem inv_finish (hs : finishStep s w = some s') : Inv s' := by
  unfold finishStep at hs
  split at hs
  · rename_i sweep c seen hp
    cases hs
    have hbacks := h.workers w
    rw [hp] at hbacks
    obtain ⟨n, hsaw, hle⟩ := hbacks
    exact h.sweeper rfl (fun _ hr => .tail _ hr)
      (fun _ _ row hrow => ⟨row, hrow, rfl⟩) (fun _ _ => .inl) rfl
      ⟨n, hsaw, .inr ⟨seen, .head _, hle⟩⟩
  · exact nomatch hs

theorem inv_fail (hs : failStep s w = some s') : Inv s' := by
  have hbacks := h.workers w
  unfold failStep at hs
  split at hs
  · rename_i sweep c hp
    cases hs
    rw [hp] at hbacks
    exact h.goto hbacks
  · rename_i sweep c seen hp
    cases hs
    rw [hp] at hbacks
    obtain ⟨n, hsaw, -⟩ := hbacks
    exact h.goto ⟨n, hsaw⟩
  · exact nomatch hs

theorem inv_clearClaim (sweep : Sweep) (c : Claim) :
    Inv ((s.setPending sweep (clearClaim c (s.pending sweep))).goto w .idle) := by
  have hkept := fun pubkey => get_update_markedAt (s.pending sweep) c.owns (f := fun row =>
    { row with claimedAt := none, claimToken := none }) pubkey fun _ => rfl
  exact h.setPending (fun pubkey => (hkept pubkey).1)
    (fun pubkey hnone => .inl ((hkept pubkey).2 hnone)) trivial

theorem inv_delete (hs : deleteStep s w = some s') : Inv s' := by
  have hbacks := h.workers w
  unfold deleteStep at hs
  split at hs
  · rename_i sweep c hp
    rw [hp] at hbacks
    obtain ⟨n, hsaw, hcovered⟩ := hbacks
    split_ifs at hs with haffects
    · cases hs
      refine h.setPending (fun pubkey row hrow => ?_) (fun pubkey hnone => ?_) trivial
      · exact ⟨row, (get_delete c.finalizes).mp hrow |>.1, rfl⟩
      · cases hrow : (s.pending sweep).get pubkey with
        | none => exact .inl rfl
        | some row =>
          right
          have hfinal : c.finalizes pubkey row = true := by
            by_contra hkept
            rw [Bool.not_eq_true] at hkept
            exact nomatch hnone.symm.trans ((get_delete c.finalizes).mpr ⟨hrow, hkept⟩)
          obtain ⟨howns, hat⟩ := Bool.and_eq_true_iff.mp hfinal
          obtain ⟨rfl, -⟩ := of_decide_eq_true howns
          rw [length_marks_of_saw h hrow (of_decide_eq_true hat) hsaw]
          exact hcovered
    · cases hs
      exact h.goto ⟨n, hsaw, hcovered⟩
  · exact nomatch hs

end

theorem inv_step (stored : String → Option EventContent) (s : State τ) (a : Act τ) (s' : State τ)
    (h : Inv s) (hg : DistinctMarks stored s a) (hs : step stored s a = some s') : Inv s' := by
  cases a with
  | mark sweep affected eventID now =>
    obtain ⟨pubkeys, hpubkeys, rfl⟩ := map_eq_some_iff.mp hs
    rw [DistinctMarks, hpubkeys] at hg
    exact inv_mark h hg
  | claim w sweep ctx token => exact inv_claim h hs
  | startRebuild w => exact inv_start h hs
  | finishRebuild w => exact inv_finish h hs
  | failRebuild w => exact inv_fail h hs
  | release w =>
    rw [step, releaseStep] at hs
    split at hs
    · exact some.inj hs ▸ inv_clearClaim h _ _
    · exact nomatch hs
  | deleteRow w => exact inv_delete h hs
  | clear w =>
    rw [step, clearStep] at hs
    split at hs
    · exact some.inj hs ▸ inv_clearClaim h _ _
    · exact nomatch hs
  | quit w => exact some.inj hs ▸ h.goto trivial

/-- In every run in which the marks of one author have different times, every mark is pending or was
followed by a rebuild that has succeeded. -/
theorem always_noMarkLost (stored : String → Option EventContent) (acts : List (Act τ))
    (hg : Guarded (step stored) (DistinctMarks stored) init acts) :
    Always (step stored) NoMarkLost init acts := by
  have hinv : Always (step stored) Inv init acts :=
    fun _ hp _ hr => run_invariant (inv_step stored) inv_init (guarded_initial hp hg) hr
  exact fun bs hp t hr => noMarkLost_of_inv (hinv bs hp t hr)

def oneNote : String → Option EventContent
  | "aa" => some ⟨"p", 1, 100, []⟩
  | _ => none

def quiet (now : ℤ) : ClaimContext := ⟨now, 0, fun _ => none, fun _ => false, fun _ => false⟩

def remarked : List (Act Bool) :=
  [.mark .profileStats ["p"] "aa" 1, .claim false .profileStats (quiet 2) "t1",
    .startRebuild false, .mark .profileStats ["p"] "aa" 3,
    .claim true .profileStats (quiet (3 + claimLease)) "t2", .startRebuild true,
    .finishRebuild false, .deleteRow false, .clear false, .finishRebuild true, .deleteRow true]

theorem remarked_noMarkLost : (run (step oneNote) init remarked).isSome = true ∧
      Always (step oneNote) NoMarkLost init remarked :=
  ⟨by decide, always_noMarkLost oneNote remarked (by decide)⟩

end NostrMash.Recompute
