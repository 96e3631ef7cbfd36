import NostrMash.DiscoveryRuns

/-!
# Order of arrival

The hourly deltas of an event are applied once. A reply, repost or reaction whose target arrives
later is never counted in the hourly rows, while the full scan counts it from then on.
-/

namespace NostrMash.Discovery
open AuthorStats Machine
variable (reader : RequestReader) (content : String → StoredContent)

def Derived (s : DiscoveryState) : Prop := ∀ id ∈ s.stored, ∀ step, (id, step) ∈ s.done

def LoadersAgree (s : DiscoveryState) : Prop :=
  ∀ now, 3600 ∣ now → ∀ pubkey, loadProfileDualWindowMetrics content s pubkey now =
    some (loadProfileDualWindowMetricsIncremental s pubkey now)

/-- A new event is not what an event of another author that is already counted is about. -/
def InTime (s : DiscoveryState) : DiscoveryAction → Prop
  | .insertEvent id => ZapFits reader (contents content) id ∧
    (id ∈ s.stored ∨ ∀ row ∈ s.hourlyLedger,
      engagementTarget (contents content row.1) = id → id ≠ "" →
        (content row.1).pubkey = (content id).pubkey)
  | .derive _ _ => True

instance (s : DiscoveryState) : (a : DiscoveryAction) → Decidable (InTime reader content s a)
  | .insertEvent id => inferInstanceAs (Decidable (ZapFits reader (contents content) id ∧
    (id ∈ s.stored ∨ ∀ row ∈ s.hourlyLedger, _ → _ → _)))
  | .derive _ _ => .isTrue trivial

instance (s : DiscoveryState) : Decidable (Derived s) :=
  decidable_of_iff (∀ id ∈ s.stored, ∀ step ∈ BundleStep.all, (id, step) ∈ s.done)
    ⟨fun h id hid step => h id hid step (by cases step <;> decide), fun h id hid step _ => h id hid step⟩

/-- Every counted event counts for whom it would count now, and the zaps fit. -/
def Counted (s : DiscoveryState) : Prop :=
  (∀ id ∈ s.stored, ZapFits reader (contents content) id) ∧
    ∀ row ∈ s.hourlyLedger, received reader content (row.1, s.stored) = received reader content row

variable {reader content} {s t : DiscoveryState}

variable {id author : String} {known stored : List String}

theorem received_mono (h : known ⊆ stored)
    (hr : received reader content (id, known) = some author) :
    received reader content (id, stored) = some author := by
  by_cases hk : (content id).kind = 9735
  · rwa [received_of_zap hk] at hr ⊢
  · rw [received_of_engagement hk, engaged_eq_some_iff] at hr ⊢
    exact ⟨hr.1, h hr.2.1, hr.2.2⟩

theorem received_between {later : List String} (h : known ⊆ stored) (h' : stored ⊆ later)
    (heq : received reader content (id, later) = received reader content (id, known)) :
    received reader content (id, stored) = received reader content (id, known) := by
  cases hk : received reader content (id, known) with
  | some author => exact received_mono h hk
  | none =>
    cases hs : received reader content (id, stored) with
    | none => rfl
    | some author =>
      rw [received_mono h' hs, hk] at heq
      exact nomatch heq

theorem received_cons_iff {x : String} (hx : x ∉ stored) :
    received reader content (id, x :: stored) = received reader content (id, stored) ↔
      (engagementTarget (contents content id) = x → x ≠ "" →
        (content id).pubkey = (content x).pubkey) := by
  by_cases hk : (content id).kind = 9735
  · have htarget : engagementTarget (contents content id) = "" := by
      simp [engagementTarget, contents, hk]
    rw [received_of_zap hk, received_of_zap hk, htarget]
    exact iff_of_true rfl fun h hne => absurd h.symm hne
  rw [received_of_engagement hk, received_of_engagement hk]
  constructor
  · rintro heq rfl hne
    by_contra hself
    have hsome : engaged (lookupEventPubkey (contents content)
        (engagementTarget (contents content id) :: stored)) (contents content id) = some _ :=
      engaged_eq_some_iff.mpr ⟨hne, .head _, rfl, hself⟩
    exact hx (engaged_eq_some_iff.mp (heq.symm.trans hsome)).2.1
  · intro h
    refine Option.ext fun author => ?_
    rw [engaged_eq_some_iff, engaged_eq_some_iff]
    constructor
    · rintro ⟨hne, hmem, rfl, hself⟩
      rcases List.mem_cons.mp hmem with heq | hmem
      · exact absurd (heq ▸ h heq (heq ▸ hne)) hself
      · exact ⟨hne, hmem, rfl, hself⟩
    · rintro ⟨hne, hmem, hrest⟩
      exact ⟨hne, .tail _ hmem, hrest⟩

theorem stored_runStep (s : DiscoveryState) (id : String) (step : BundleStep) :
    (runStep reader content s id step).stored = s.stored := by
  cases step <;> rfl

variable (reader content) in
theorem ledger_runStep (s : DiscoveryState) (id : String) (step : BundleStep) :
    (runStep reader content s id step).hourlyLedger = s.hourlyLedger ∨
      (runStep reader content s id step).hourlyLedger = (id, s.stored) :: s.hourlyLedger := by
  by_cases hstep : step = .applyIncrementalAuthorStats
  · subst hstep
    simp only [runStep, applyHourly]
    split_ifs
    · exact .inl rfl
    · exact .inr rfl
  · left
    cases step <;> first | rfl | exact absurd rfl hstep

theorem counted_discoveryStep {a : DiscoveryAction} (hinv : HourlyInv reader content s)
    (hs : discoveryStep reader content s a = some t) :
    Counted reader content t ↔ Counted reader content s ∧ InTime reader content s a := by
  cases a with
  | insertEvent id =>
    cases hs
    by_cases hid : id ∈ s.stored
    · simp only [Counted, InTime, hid, if_true, true_or, and_true]
      exact ⟨fun h => ⟨h, h.1 id hid⟩, And.left⟩
    · simp only [Counted, InTime, hid, if_false, false_or, List.forall_mem_cons]
      constructor
      · rintro ⟨⟨hfits, hall⟩, hrows⟩
        have hbefore : ∀ row ∈ s.hourlyLedger,
            received reader content (row.1, s.stored) = received reader content row :=
          fun row hrow => received_between (hinv.seen_stored row hrow)
            (List.subset_cons_self id s.stored) (hrows row hrow)
        refine ⟨⟨hall, hbefore⟩, hfits, fun row hrow => ?_⟩
        have hsame := (hrows row hrow).trans (hbefore row hrow).symm
        exact (received_cons_iff hid).mp hsame
      · rintro ⟨⟨hall, hbefore⟩, hfits, htargets⟩
        refine ⟨⟨hfits, hall⟩, fun row hrow => ?_⟩
        rw [(received_cons_iff hid).mpr (htargets row hrow), hbefore row hrow]
  | derive id step =>
    simp only [discoveryStep, Option.ite_none_right_eq_some, Option.some.injEq] at hs
    obtain ⟨hid, rfl⟩ := hs
    refine Iff.trans ?_ (and_iff_left trivial).symm
    simp only [Counted, stored_runStep]
    refine and_congr_right fun _ => ?_
    rcases ledger_runStep reader content s id step with hledger | hledger
    · rw [hledger]
    · rw [hledger, List.forall_mem_cons]
      exact and_iff_right rfl

theorem counted_iff_guarded {actions : List DiscoveryAction}
    (hr : run (discoveryStep reader content) .init actions = some t) : Counted reader content t ↔
      Guarded (discoveryStep reader content) (InTime reader content) .init actions := by
  have hinit : Counted reader content .init := ⟨nofun, nofun⟩
  have hrun := run_iff_guarded (G := InTime reader content) (P := Counted reader content)
    (J := fun u => TablesInv reader content u ∧ HourlyInv reader content u)
    (fun _ _ _ h hs => inv_discoveryStep h hs)
    (fun _ _ _ h hs => counted_discoveryStep h.2 hs) ⟨tablesInv_init, hourlyInv_init⟩ hr
  exact hrun.trans (and_iff_right hinit)

end NostrMash.Discovery
