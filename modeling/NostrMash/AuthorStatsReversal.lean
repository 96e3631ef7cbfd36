import NostrMash.AuthorStats

/-!
# Reversal of incremental author statistics

The counters of a projection are the sum of what the events with a ledger row have applied, as long
as every reversal finds the author whom the event engages with as the application found it.
-/

namespace NostrMash.AuthorStats
open Counters Machine List
variable {reader : RequestReader} {K F : Type}

section

abbrev LedgerRow := String × List String

structure ProjectionState (K F : Type) where
  table : Table K F
  ledger : List LedgerRow

def ProjectionState.empty : ProjectionState K F := { table := fun _ => none, ledger := [] }

def lookupEventPubkey (content : String → EventContent) (stored : List String) (id : String) :
    Option String :=
  if id ∈ stored then some (content id).pubkey else none

variable (P : Projection reader K F) (content : String → EventContent)

def Projection.upsertDelta [DecidableEq K] (t : Table K F) (d : Delta K F) : Table K F :=
  if P.skips d then t else upsert t d

def Projection.eventDeltas (stored : List String) (id : String) : List (Delta K F) :=
  P.deltas (lookupEventPubkey content stored) (content id)

def Projection.applyTx [DecidableEq K] (stored : List String) (s : ProjectionState K F)
    (id : String) : ProjectionState K F :=
  if (P.eventDeltas content stored id).isEmpty then s
  else if id ∈ s.ledger.map Prod.fst then s
  else
    { table := (P.eventDeltas content stored id).foldl P.upsertDelta s.table
      ledger := (id, stored) :: s.ledger }

def Projection.reverseTx [DecidableEq K] (stored : List String) (s : ProjectionState K F)
    (id : String) : ProjectionState K F :=
  if id ∉ s.ledger.map Prod.fst then s
  else
    { table := (negate (P.eventDeltas content stored id)).foldl P.upsertDelta s.table
      ledger := s.ledger.filter (·.1 ≠ id) }

end

section
variable (P : Projection reader K F) (content : String → EventContent)

def Projection.writes (ds : List (Delta K F)) : List (Delta K F) := ds.filter (! P.skips ·)

def Projection.applied (row : LedgerRow) : List (Delta K F) :=
  P.writes (P.eventDeltas content row.2 row.1)

/-- The engaged author is found as it was found when the deltas of the event were applied. -/
def SameEngagement (stored : List String) (ledger : List LedgerRow) (id : String) : Prop :=
  ∀ row ∈ ledger, row.1 = id →
    engaged (lookupEventPubkey content stored) (content id) =
      engaged (lookupEventPubkey content row.2) (content id)

structure ProjectionState.Inv [DecidableEq K] (s : ProjectionState K F) : Prop where
  balanced : Balanced (P.applied content) s.table s.ledger
  nonneg : ∀ row ∈ s.ledger, NonNeg (P.applied content row)
  nodup : (s.ledger.map Prod.fst).Nodup

variable {P content} {s : ProjectionState K F} {stored : List String} {id : String}

theorem writes_negate (ds : List (Delta K F)) : P.writes (negate ds) = negate (P.writes ds) := by
  rw [Projection.writes, Projection.writes, negate, negate, filter_map]
  congr 1
  exact filter_congr fun d _ => congrArg Bool.not (P.skips_negate d)

theorem writes_nonneg {ds : List (Delta K F)} (h : NonNeg ds) : NonNeg (P.writes ds) :=
  fun d hd => h d (mem_of_mem_filter hd)

variable [DecidableEq K]

theorem foldl_upsertDelta (ds : List (Delta K F)) (t : Table K F) :
    ds.foldl P.upsertDelta t = upsertAll t (P.writes ds) := by
  induction ds generalizing t with
  | nil => rfl
  | cons d ds ih =>
    rw [foldl_cons, ih]
    cases hskip : P.skips d with
    | true => simp [Projection.upsertDelta, Projection.writes, hskip]
    | false => simp [Projection.upsertDelta, Projection.writes, upsertAll, hskip]

theorem inv_empty : (ProjectionState.empty : ProjectionState K F).Inv P content where
  balanced _ _ := rfl
  nonneg _ hr := nomatch hr
  nodup := nodup_nil

theorem inv_applyTx (h : s.Inv P content)
    (hz : (zapReceiver reader (content id)).isSome → 0 ≤ zapMsats reader (content id).tags) :
    (P.applyTx content stored s id).Inv P content := by
  unfold Projection.applyTx
  split_ifs with hempty hclaimed
  · exact h
  · exact h
  · have hnew : NonNeg (P.applied content (id, stored)) :=
      writes_nonneg (P.deltas_nonneg _ _ hz)
    refine ⟨?_, ?_, ?_⟩
    · rw [foldl_upsertDelta]
      exact h.balanced.claim h.nonneg hnew
    · intro row hrow
      rcases mem_cons.mp hrow with rfl | hold
      · exact hnew
      · exact h.nonneg row hold
    · exact nodup_cons.mpr ⟨hclaimed, h.nodup⟩

theorem perm_cons_filter {ledger : List LedgerRow} (hnd : (ledger.map Prod.fst).Nodup)
    {row : LedgerRow} (hrow : row ∈ ledger) : ledger.Perm (row :: ledger.filter (·.1 ≠ row.1)) := by
  induction ledger with
  | nil => exact nomatch hrow
  | cons r ledger ih =>
    obtain ⟨hnot, hrest⟩ := nodup_cons.mp hnd
    rcases mem_cons.mp hrow with rfl | hmem
    · have hkeep : ledger.filter (·.1 ≠ row.1) = ledger :=
        filter_eq_self.mpr fun q hq => by
          have hne : q.1 ≠ row.1 := fun heq => hnot (heq ▸ mem_map_of_mem hq)
          simpa using hne
      rw [filter_cons_of_neg (by simp), hkeep]
    · have hne : r.1 ≠ row.1 := fun heq => hnot (heq ▸ mem_map_of_mem hmem)
      rw [filter_cons_of_pos (by simpa using hne)]
      exact ((ih hrest hmem).cons r).trans (List.Perm.swap row r _)

theorem inv_reverseTx (h : s.Inv P content) (hsame : SameEngagement content stored s.ledger id) :
    (P.reverseTx content stored s id).Inv P content := by
  unfold Projection.reverseTx
  split_ifs with hclaimed
  · obtain ⟨row, hrow, rfl⟩ := mem_map.mp hclaimed
    have hds : P.eventDeltas content stored row.1 = P.eventDeltas content row.2 row.1 :=
      P.deltas_congr _ _ _ (hsame row hrow rfl)
    have hperm := perm_cons_filter h.nodup hrow
    refine ⟨?_, ?_, ?_⟩
    · rw [foldl_upsertDelta, writes_negate, hds]
      exact h.balanced.unclaim hperm h.nonneg
    · exact fun row hr => h.nonneg row (mem_of_mem_filter hr)
    · exact h.nodup.sublist (filter_sublist.map _)
  · exact h

end

section
variable (reader) (content : String → EventContent)

structure StatsState where
  stored : List String
  /-- Events whose row a call of `ApplyIncrementalAuthorStats` has read. -/
  loaded : List String
  daily : ProjectionState DailyKey DailyField
  hourly : ProjectionState HourlyKey HourlyField

inductive StatsAction where
  | insertEvent (id : String)
  | loadEvent (id : String)
  | applyIncrementalAuthorActivityDaily (id : String)
  | applyIncrementalAuthorHourlyActivity (id : String)
  | reverseIncrementalAuthorActivityDaily (id : String)
  | reverseIncrementalAuthorHourlyActivity (id : String)
  | deleteEvent (id : String)

def StatsState.init : StatsState :=
  { stored := [], loaded := [], daily := .empty, hourly := .empty }

/-- The statements of the transactions, each with what is stored when it runs. -/
def statsStep (s : StatsState) : StatsAction → Option StatsState
  | .insertEvent id => some { s with stored := if id ∈ s.stored then s.stored else id :: s.stored }
  | .loadEvent id => if id ∈ s.stored then some { s with loaded := id :: s.loaded } else none
  | .applyIncrementalAuthorActivityDaily id =>
    if id ∈ s.loaded then
      some { s with daily := (daily reader).applyTx content s.stored s.daily id }
    else none
  | .applyIncrementalAuthorHourlyActivity id =>
    if id ∈ s.loaded then
      some { s with hourly := (hourly reader).applyTx content s.stored s.hourly id }
    else none
  | .reverseIncrementalAuthorActivityDaily id =>
    if id ∈ s.stored then
      some { s with daily := (daily reader).reverseTx content s.stored s.daily id }
    else none
  | .reverseIncrementalAuthorHourlyActivity id =>
    if id ∈ s.stored then
      some { s with hourly := (hourly reader).reverseTx content s.stored s.hourly id }
    else none
  | .deleteEvent id =>
    if id ∈ s.daily.ledger.map Prod.fst ∨ id ∈ s.hourly.ledger.map Prod.fst then none
    else some { s with stored := s.stored.filter (· ≠ id) }

def CountersBalanced (s : StatsState) : Prop :=
  Balanced ((daily reader).applied content) s.daily.table s.daily.ledger ∧
    Balanced ((hourly reader).applied content) s.hourly.table s.hourly.ledger

def ZapFits (id : String) : Prop :=
  (zapReceiver reader (content id)).isSome →
    zapReceiptAmountSats reader (content id).tags * 1000 < 2 ^ 63

def Reversible (s : StatsState) : StatsAction → Prop
  | .applyIncrementalAuthorActivityDaily id => ZapFits reader content id
  | .applyIncrementalAuthorHourlyActivity id => ZapFits reader content id
  | .reverseIncrementalAuthorActivityDaily id => SameEngagement content s.stored s.daily.ledger id
  | .reverseIncrementalAuthorHourlyActivity id =>
    SameEngagement content s.stored s.hourly.ledger id
  | _ => True

instance (stored : List String) (ledger : List LedgerRow) (id : String) :
    Decidable (SameEngagement content stored ledger id) :=
  inferInstanceAs (Decidable (∀ row ∈ ledger, row.1 = id → _))

instance (id : String) : Decidable (ZapFits reader content id) :=
  inferInstanceAs (Decidable (_ → _))

instance (s : StatsState) : (a : StatsAction) → Decidable (Reversible reader content s a)
  | .insertEvent _ => .isTrue trivial
  | .loadEvent _ => .isTrue trivial
  | .applyIncrementalAuthorActivityDaily id =>
    inferInstanceAs (Decidable (ZapFits reader content id))
  | .applyIncrementalAuthorHourlyActivity id =>
    inferInstanceAs (Decidable (ZapFits reader content id))
  | .reverseIncrementalAuthorActivityDaily id =>
    inferInstanceAs (Decidable (SameEngagement content s.stored s.daily.ledger id))
  | .reverseIncrementalAuthorHourlyActivity id =>
    inferInstanceAs (Decidable (SameEngagement content s.stored s.hourly.ledger id))
  | .deleteEvent _ => .isTrue trivial

variable {reader content} {s t : StatsState}

theorem ZapFits.nonneg {id : String} (h : ZapFits reader content id)
    (hk : (zapReceiver reader (content id)).isSome) : 0 ≤ zapMsats reader (content id).tags := by
  rw [zapMsats_of_fits (h hk)]
  exact mul_nonneg (zapReceiptAmountSats_nonneg reader _) (by decide)

theorem inv_statsStep {a : StatsAction}
    (h : s.daily.Inv (daily reader) content ∧ s.hourly.Inv (hourly reader) content)
    (hg : Reversible reader content s a) (hs : statsStep reader content s a = some t) :
    t.daily.Inv (daily reader) content ∧ t.hourly.Inv (hourly reader) content := by
  cases a with
  | insertEvent id => exact Option.some.inj hs ▸ h
  | loadEvent id =>
    simp only [statsStep, Option.ite_none_right_eq_some, Option.some.injEq] at hs
    exact hs.2 ▸ h
  | applyIncrementalAuthorActivityDaily id =>
    simp only [statsStep, Option.ite_none_right_eq_some, Option.some.injEq] at hs
    exact hs.2 ▸ ⟨inv_applyTx h.1 (ZapFits.nonneg hg), h.2⟩
  | applyIncrementalAuthorHourlyActivity id =>
    simp only [statsStep, Option.ite_none_right_eq_some, Option.some.injEq] at hs
    exact hs.2 ▸ ⟨h.1, inv_applyTx h.2 (ZapFits.nonneg hg)⟩
  | reverseIncrementalAuthorActivityDaily id =>
    simp only [statsStep, Option.ite_none_right_eq_some, Option.some.injEq] at hs
    exact hs.2 ▸ ⟨inv_reverseTx h.1 hg, h.2⟩
  | reverseIncrementalAuthorHourlyActivity id =>
    simp only [statsStep, Option.ite_none_right_eq_some, Option.some.injEq] at hs
    exact hs.2 ▸ ⟨h.1, inv_reverseTx h.2 hg⟩
  | deleteEvent id =>
    simp only [statsStep, Option.ite_none_left_eq_some, Option.some.injEq] at hs
    exact hs.2 ▸ h

/-- Over every run in which reversals find the engagement that was applied, the counters are the
sums over the ledger. -/
theorem always_countersBalanced_of_reversible (reader : RequestReader)
    (content : String → EventContent) (actions : List StatsAction)
    (hg : Guarded (statsStep reader content) (Reversible reader content) .init actions) :
    Always (statsStep reader content) (CountersBalanced reader content) .init actions := by
  intro _ hp t hr
  have hinv : t.daily.Inv (daily reader) content ∧ t.hourly.Inv (hourly reader) content :=
    run_invariant (I := fun u : StatsState =>
      u.daily.Inv (daily reader) content ∧ u.hourly.Inv (hourly reader) content)
      (fun _ _ _ h hu hs => inv_statsStep h hu hs) ⟨inv_empty, inv_empty⟩
      (guarded_initial hp hg) hr
  exact ⟨hinv.1.balanced, hinv.2.balanced⟩

end

def noRequests : RequestReader := { pubkey := fun _ => none, tags := fun _ => none }

def noteAndReply (id : String) : EventContent :=
  if id = "reply" then { pubkey := "alice", kind := 1, createdAt := 7200, tags := [["e", "note"]] }
  else { pubkey := "bob", kind := 1, createdAt := 3600, tags := [] }

def applyStats (id : String) : List StatsAction :=
  [.loadEvent id, .applyIncrementalAuthorActivityDaily id, .applyIncrementalAuthorHourlyActivity id]

def purge (id : String) : List StatsAction :=
  [.reverseIncrementalAuthorActivityDaily id, .reverseIncrementalAuthorHourlyActivity id,
    .deleteEvent id]

def replyInOrder : List StatsAction :=
  [.insertEvent "note", .insertEvent "reply"] ++ applyStats "reply" ++ applyStats "reply" ++
    purge "reply"

theorem reply_in_order_balanced :
    ((run (statsStep noRequests noteAndReply) .init replyInOrder).map fun s =>
      (s.stored, s.daily.ledger, total s.daily.table ⟨"bob", 0⟩ .engagementReceived)) =
        some (["note"], [], 0) ∧
      Always (statsStep noRequests noteAndReply) (CountersBalanced noRequests noteAndReply) .init
        replyInOrder :=
  ⟨by decide, always_countersBalanced_of_reversible noRequests noteAndReply replyInOrder
    (by decide)⟩

def noteArrivesLate : List StatsAction :=
  [.insertEvent "reply"] ++ applyStats "reply" ++ [.insertEvent "note"] ++ purge "reply"

/-- The purge of the reply takes an engagement from `bob` that was never counted. -/
theorem late_note_unbalances :
    ∃ s, run (statsStep noRequests noteAndReply) .init noteArrivesLate = some s ∧
      s.daily.ledger = [] ∧ total s.daily.table ⟨"bob", 0⟩ .engagementReceived = -1 ∧
      ¬ CountersBalanced noRequests noteAndReply s := by
  have hrun : (run (statsStep noRequests noteAndReply) .init noteArrivesLate).map
      (fun s => (s.daily.ledger, total s.daily.table ⟨"bob", 0⟩ .engagementReceived)) =
        some ([], -1) := by decide
  obtain ⟨s, hs, hvalues⟩ := Option.map_eq_some_iff.mp hrun
  obtain ⟨hledger, htotal⟩ := Prod.mk.inj hvalues
  refine ⟨s, hs, hledger, htotal, fun h => ?_⟩
  have hsum := h.1 ⟨"bob", 0⟩ .engagementReceived
  rw [htotal, hledger] at hsum
  exact nomatch hsum

end NostrMash.AuthorStats
