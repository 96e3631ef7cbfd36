import NostrMash.DiscoveryScan

/-!
# Runs of the discovery tables

Each table holds the rows of the events whose step has run, and the hourly rows add up to what the
events of the ledger have applied, in every reachable state.
-/

namespace NostrMash.Discovery
open AuthorStats Counters ProjectedTable List
variable (reader : RequestReader) (content : String → StoredContent)

def doneFor (s : DiscoveryState) (step : BundleStep) : Set String := {id | (id, step) ∈ s.done}

structure TablesInv (s : DiscoveryState) : Prop where
  nodup : s.stored.Nodup
  done_stored : ∀ p ∈ s.done, p.1 ∈ s.stored
  replies : Projects (fun id => some (replyTargets (contents content id)))
    (doneFor s .projectReplyCounts) s.replyContributions
  reactions : Projects (fun id => projectReactionEvents (contents content id))
    (doneFor s .projectReactionEvents) s.reactionEvents
  reposts : Projects (fun id => projectRepostEvents (contents content id))
    (doneFor s .projectRepostEvents) s.repostEvents
  zaps : Projects (fun id => projectZapReceipts reader (contents content id))
    (doneFor s .projectZapReceipts) s.zapReceipts
  edges : Projects (fun id => threadParent (contents content id))
    (doneFor s .updateThreadProjection) s.threadEdges

def appliedDeltas (s : DiscoveryState) : List (Delta HourlyKey HourlyField) :=
  s.hourlyLedger.flatMap ((hourly reader).applied (contents content))

structure HourlyInv (s : DiscoveryState) : Prop where
  nodup : (s.hourlyLedger.map Prod.fst).Nodup
  ledger_done : ∀ id, id ∈ s.hourlyLedger.map Prod.fst ↔
    id ∈ doneFor s .applyIncrementalAuthorStats
  seen_stored : ∀ row ∈ s.hourlyLedger, row.2 ⊆ s.stored
  rows : (∀ id ∈ s.stored, ZapFits reader (contents content) id) →
    NonNeg s.hourlyRows ∧ NonNeg (appliedDeltas reader content s) ∧
      ∀ p f, rowSum p f s.hourlyRows = rowSum p f (appliedDeltas reader content s)

variable {reader content} {s t : DiscoveryState} {id : String} {step k : BundleStep}

theorem doneFor_self : {i | (i, step) ∈ (id, step) :: s.done} = insert id (doneFor s step) := by
  ext i
  simp [doneFor]

theorem doneFor_other (h : step ≠ k) :
    {i | (i, k) ∈ (id, step) :: s.done} = doneFor s k := by
  ext i
  simp [doneFor, h.symm]

theorem projects_derive {ρ : Type} {rowOf : String → Option ρ} {table written : List (String × ρ)}
    (id : String) (step : BundleStep) (h : Projects rowOf (doneFor s k) table)
    (hw : Projects rowOf (insert id (doneFor s k)) written) :
    Projects rowOf {i | (i, k) ∈ (id, step) :: s.done} (if step = k then written else table) := by
  by_cases hk : step = k
  · subst hk
    rwa [if_pos rfl, doneFor_self]
  · rwa [if_neg hk, doneFor_other hk]

theorem projects_init {ρ : Type} (rowOf : String → Option ρ) (k : BundleStep) :
    Projects rowOf (doneFor .init k) [] := by
  have hempty : doneFor .init k = ∅ := by
    ext i
    simp [doneFor, DiscoveryState.init]
  exact hempty ▸ projects_nil

theorem tablesInv_init : TablesInv reader content .init where
  nodup := nodup_nil
  done_stored _ h := nomatch h
  replies := projects_init _ _
  reactions := projects_init _ _
  reposts := projects_init _ _
  zaps := projects_init _ _
  edges := projects_init _ _

section
variable (h : TablesInv reader content s)
include h

theorem tablesInv_derive (hid : id ∈ s.stored) :
    TablesInv reader content
      { runStep reader content s id step with done := (id, step) :: s.done } := by
  have hdone : ∀ p ∈ (id, step) :: s.done, p.1 ∈ s.stored := by
    intro p hp
    rcases mem_cons.mp hp with rfl | hp
    · exact hid
    · exact h.done_stored p hp
  have hreplies := projects_derive id step h.replies (h.replies.put id)
  have hreactions := projects_derive id step h.reactions (h.reactions.put id)
  have hreposts := projects_derive id step h.reposts (h.reposts.put id)
  have hzaps := projects_derive id step h.zaps (h.zaps.putSome id)
  have hedges := projects_derive id step h.edges (h.edges.put id)
  cases step <;> exact ⟨h.nodup, hdone, hreplies, hreactions, hreposts, hzaps, hedges⟩

theorem tablesInv_insert : TablesInv reader content
      { s with stored := if id ∈ s.stored then s.stored else id :: s.stored } where
  nodup := by
    dsimp only
    split_ifs with hid
    · exact h.nodup
    · exact nodup_cons.mpr ⟨hid, h.nodup⟩
  done_stored p hp := by
    dsimp only
    split_ifs
    · exact h.done_stored p hp
    · exact .tail _ (h.done_stored p hp)
  replies := h.replies
  reactions := h.reactions
  reposts := h.reposts
  zaps := h.zaps
  edges := h.edges

theorem TablesInv.projected
    (hd : ∀ id ∈ s.stored, ∀ step, (id, step) ∈ s.done) : Projected reader content s := by
  have hall : ∀ k, doneFor s k = {id | id ∈ s.stored} := by
    intro k
    ext i
    exact ⟨fun hi => h.done_stored _ hi, fun hi => hd i hi k⟩
  exact ⟨h.nodup, hall _ ▸ h.replies, hall _ ▸ h.reactions, hall _ ▸ h.reposts, hall _ ▸ h.zaps,
    hall _ ▸ h.edges⟩

end

theorem hourlyInv_init : HourlyInv reader content .init where
  nodup := nodup_nil
  ledger_done i := by simp [doneFor, DiscoveryState.init]
  seen_stored _ h := nomatch h
  rows _ := ⟨nofun, nofun, fun _ _ => rfl⟩

section
variable (h : HourlyInv reader content s)
include h

theorem hourlyInv_insert : HourlyInv reader content
      { s with stored := if id ∈ s.stored then s.stored else id :: s.stored } := by
  have hsub : s.stored ⊆ if id ∈ s.stored then s.stored else id :: s.stored := by
    split_ifs
    · exact fun _ h => h
    · exact subset_cons_self id s.stored
  exact ⟨h.nodup, h.ledger_done, fun row hrow _ hi => hsub (h.seen_stored row hrow hi),
    fun hz => h.rows fun i hi => hz i (hsub hi)⟩

theorem hourlyInv_other (hstep : step ≠ .applyIncrementalAuthorStats) :
    HourlyInv reader content
      { runStep reader content s id step with done := (id, step) :: s.done } := by
  have hdone : ∀ i, i ∈ s.hourlyLedger.map Prod.fst ↔
      i ∈ {i | (i, BundleStep.applyIncrementalAuthorStats) ∈ (id, step) :: s.done} := by
    rw [doneFor_other hstep]
    exact h.ledger_done
  cases step with
  | applyIncrementalAuthorStats => exact absurd rfl hstep
  | projectReplyCounts => exact ⟨h.nodup, hdone, h.seen_stored, h.rows⟩
  | projectReactionEvents => exact ⟨h.nodup, hdone, h.seen_stored, h.rows⟩
  | projectRepostEvents => exact ⟨h.nodup, hdone, h.seen_stored, h.rows⟩
  | projectZapReceipts => exact ⟨h.nodup, hdone, h.seen_stored, h.rows⟩
  | updateThreadProjection => exact ⟨h.nodup, hdone, h.seen_stored, h.rows⟩

theorem hourlyInv_apply (hid : id ∈ s.stored) :
    HourlyInv reader content { runStep reader content s id .applyIncrementalAuthorStats with
        done := (id, .applyIncrementalAuthorStats) :: s.done } := by
  by_cases hclaimed : id ∈ s.hourlyLedger.map Prod.fst
  · have hsame : applyHourly reader content s id = (s.hourlyRows, s.hourlyLedger) :=
      if_pos hclaimed
    simp only [runStep, hsame]
    refine ⟨h.nodup, fun i => ?_, h.seen_stored, h.rows⟩
    have hmem : id ∈ doneFor s .applyIncrementalAuthorStats := (h.ledger_done id).mp hclaimed
    have hset := doneFor_self.trans (Set.insert_eq_of_mem hmem)
    exact (h.ledger_done i).trans (Set.ext_iff.mp hset i).symm
  · have hnew : applyHourly reader content s id = (_, _) := if_neg hclaimed
    simp only [runStep, hnew]
    refine ⟨nodup_cons.mpr ⟨hclaimed, h.nodup⟩, fun i => ?_, fun row hrow => ?_, fun hz => ?_⟩
    · rw [map_cons, mem_cons, h.ledger_done]
      exact (Set.ext_iff.mp doneFor_self i).symm
    · rcases mem_cons.mp hrow with rfl | hrow
      · exact fun _ hi => hi
      · exact h.seen_stored row hrow
    · obtain ⟨hrows, happlied, hsum⟩ := h.rows hz
      have hnn : NonNeg ((hourly reader).applied (contents content) (id, s.stored)) :=
        writes_nonneg ((hourly reader).deltas_nonneg _ _ (hz id hid).nonneg)
      obtain ⟨hrows', hsum'⟩ := rowSum_foldl_upsertRows hrows hnn
      refine ⟨hrows', ?_, fun p f => ?_⟩
      · intro d hd
        rcases mem_append.mp hd with hd | hd
        · exact hnn d hd
        · exact happlied d hd
      · have hcons := rowSum_append p f
          ((hourly reader).applied (contents content) (id, s.stored))
          (appliedDeltas reader content s)
        exact (hsum' p f).trans ((congrArg (· + _) (hsum p f)).trans
          ((add_comm _ _).trans hcons.symm))

end

theorem inv_discoveryStep {a : DiscoveryAction}
    (h : TablesInv reader content s ∧ HourlyInv reader content s)
    (hs : discoveryStep reader content s a = some t) :
    TablesInv reader content t ∧ HourlyInv reader content t := by
  cases a with
  | insertEvent id =>
    cases hs
    exact ⟨tablesInv_insert h.1, hourlyInv_insert h.2⟩
  | derive id step =>
    simp only [discoveryStep, Option.ite_none_right_eq_some, Option.some.injEq] at hs
    obtain ⟨hid, rfl⟩ := hs
    refine ⟨tablesInv_derive h.1 hid, ?_⟩
    by_cases hstep : step = .applyIncrementalAuthorStats
    · subst hstep
      exact hourlyInv_apply h.2 hid
    · exact hourlyInv_other h.2 hstep

end NostrMash.Discovery
