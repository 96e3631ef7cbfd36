import NostrMash.DiscoveryTargets

/-!
# Discovery windows as sums over events

Both loaders compute the same sums, over different pairs of an event and the events that are known
when it is counted.
-/

namespace NostrMash.Discovery
open AuthorStats Counters List

section
variable (reader : RequestReader) (content : String → StoredContent)

def received (row : LedgerRow) : Option String :=
  receiver reader (lookupEventPubkey (contents content) row.2) (contents content row.1)

def authoredSum (f : HourlyField) (rows : List LedgerRow) (pubkey : String) (cutoff : ℤ) : ℤ :=
  (rows.map fun row =>
    if (content row.1).pubkey = pubkey ∧ cutoff ≤ (content row.1).createdAt then
      authorCounts (contents content row.1) f
    else 0).sum

def receivedSum (f : HourlyField) (rows : List LedgerRow) (pubkey : String) (cutoff : ℤ) : ℤ :=
  (rows.map fun row =>
    if received reader content row = some pubkey ∧ cutoff ≤ (content row.1).createdAt then
      receiverCounts reader (contents content row.1) f
    else 0).sum

def windowOf (rows : List LedgerRow) (pubkey : String) (cutoff : ℤ) : WindowMetrics :=
  { postCount := authoredSum content .noteCount rows pubkey cutoff
    replyCount := authoredSum content .replyCount rows pubkey cutoff
    engagement := receivedSum reader content .engagementReceived rows pubkey cutoff
    zapVolumeMSats := receivedSum reader content .zapMsatsReceived rows pubkey cutoff
    activeDays := ((rows.filter fun row =>
      (content row.1).pubkey = pubkey ∧ cutoff ≤ (content row.1).createdAt).map fun row =>
        activityDate (content row.1).createdAt).toFinset.card }

end

variable {reader : RequestReader} {content : String → StoredContent}
  {pubkey : String} {now cutoff : ℤ}

structure IsCutoff (now cutoff : ℤ) : Prop where
  aligned : 3600 ∣ cutoff
  ge : cutoff30d now ≤ cutoff

def windowKey (pubkey : String) (now cutoff : ℤ) (key : HourlyKey) : Bool :=
  decide (key.pubkey = pubkey ∧ activityDate (cutoff30d now) ≤ key.activityDate) &&
    decide (cutoff ≤ bucketStart key)

theorem windowKey_hourlyKey (h : IsCutoff now cutoff) (author : String) (createdAt : ℤ) :
    windowKey pubkey now cutoff (hourlyKey author createdAt) =
      decide (author = pubkey ∧ cutoff ≤ createdAt) := by
  have hbucket : cutoff ≤ bucketStart (hourlyKey author createdAt) ↔ cutoff ≤ createdAt := by
    have := h.aligned
    simp only [bucketStart, hourlyKey, activityDate, hourOfDay]
    omega
  have hdate : cutoff ≤ createdAt → activityDate (cutoff30d now) ≤ activityDate createdAt :=
    fun hc => Int.ediv_le_ediv (by decide) (h.ge.trans hc)
  have hpubkey : (hourlyKey author createdAt).pubkey = author := rfl
  have hactivity : (hourlyKey author createdAt).activityDate = activityDate createdAt := rfl
  by_cases hc : cutoff ≤ createdAt
  · simp [windowKey, hbucket, hpubkey, hactivity, hc, hdate hc]
  · simp [windowKey, hbucket, hc]

theorem applied_eq (row : LedgerRow) : (hourly reader).applied (contents content) row =
    (hourlyKey (content row.1).pubkey (content row.1).createdAt,
        authorCounts (contents content row.1)) ::
      (received reader content row).toList.map fun author =>
        (hourlyKey author (content row.1).createdAt,
          receiverCounts reader (contents content row.1)) := by
  have hdeltas : (hourly reader).deltas (lookupEventPubkey (contents content) row.2)
      (contents content row.1) = _ := computeHourlyActivityDeltas_eq reader _ _
  rw [Projection.applied, Projection.eventDeltas, Projection.writes, filter_eq_self.mpr]
  · exact hdeltas
  · intro d hd
    have hne : d.1.pubkey ≠ "" := by
      rw [hdeltas] at hd
      rcases mem_cons.mp hd with rfl | hd
      · exact (content row.1).pubkey_ne
      · obtain ⟨author, hauthor, rfl⟩ := mem_map.mp hd
        exact receiver_ne _ _ _ (Option.mem_toList.mp hauthor)
    simpa [hourly] using hne

theorem rowSum_applied (p : HourlyKey → Bool) (f : HourlyField) (row : LedgerRow) :
    rowSum p f ((hourly reader).applied (contents content) row) =
      (if p (hourlyKey (content row.1).pubkey (content row.1).createdAt) then
        authorCounts (contents content row.1) f else 0) +
      ((received reader content row).map fun author =>
        if p (hourlyKey author (content row.1).createdAt) then
          receiverCounts reader (contents content row.1) f else 0).getD 0 := by
  rw [applied_eq]
  cases received reader content row <;> simp [rowSum]

theorem rowSum_ledger (h : IsCutoff now cutoff) (f : HourlyField) (ledger : List LedgerRow) :
    rowSum (windowKey pubkey now cutoff) f
        (ledger.flatMap ((hourly reader).applied (contents content))) =
      authoredSum content f ledger pubkey cutoff +
        receivedSum reader content f ledger pubkey cutoff := by
  rw [rowSum_flatMap, authoredSum, receivedSum, ← sum_map_add]
  congr 1
  refine map_congr_left fun row _ => ?_
  rw [rowSum_applied]
  cases hr : received reader content row with
  | none => simp [windowKey_hourlyKey h]
  | some author => simp [windowKey_hourlyKey h]

theorem receivedSum_of_isAuthored {f : HourlyField} (hf : HourlyField.IsAuthored f)
    (rows : List LedgerRow) : receivedSum reader content f rows pubkey cutoff = 0 := by
  simp [receivedSum, receiverCounts_of_isAuthored _ _ hf]

variable {rows : List (Delta HourlyKey HourlyField)} {ledger : List LedgerRow}

theorem activeDays_eq (hrows : NonNeg rows)
    (hledger : NonNeg (ledger.flatMap ((hourly reader).applied (contents content))))
    (hsum : ∀ p f, rowSum p f rows =
      rowSum p f (ledger.flatMap ((hourly reader).applied (contents content))))
    (h : IsCutoff now cutoff) :
    (((hourlyRowsOf rows pubkey now).filter fun row : Delta HourlyKey HourlyField =>
      decide (cutoff ≤ bucketStart row.1) ∧ 0 < row.2 .authoredEventCount).map
        (·.1.activityDate)).toFinset = ((ledger.filter fun row => (content row.1).pubkey = pubkey ∧
        cutoff ≤ (content row.1).createdAt).map fun row =>
          activityDate (content row.1).createdAt).toFinset := by
  ext date
  have hpos := rowSum_pos_iff hrows
    (fun key => windowKey pubkey now cutoff key && decide (key.activityDate = date))
    .authoredEventCount
  rw [hsum, rowSum_pos_iff hledger] at hpos
  have hleft : (∃ row ∈ rows, (windowKey pubkey now cutoff row.1 &&
      decide (row.1.activityDate = date)) = true ∧ 0 < row.2 .authoredEventCount) ↔
      date ∈ (((hourlyRowsOf rows pubkey now).filter fun row : Delta HourlyKey HourlyField =>
        decide (cutoff ≤ bucketStart row.1) ∧ 0 < row.2 .authoredEventCount).map
          (·.1.activityDate)).toFinset := by
    simp only [hourlyRowsOf, windowKey, mem_toFinset, mem_map, mem_filter,
      Bool.and_eq_true, decide_eq_true_eq]
    constructor
    · rintro ⟨row, hrow, ⟨⟨hkey, hcut⟩, hdate⟩, hcount⟩
      exact ⟨row, ⟨⟨hrow, hkey⟩, hcut, hcount⟩, hdate⟩
    · rintro ⟨row, ⟨⟨hrow, hkey⟩, hcut, hcount⟩, hdate⟩
      exact ⟨row, hrow, ⟨⟨hkey, hcut⟩, hdate⟩, hcount⟩
  rw [← hleft, ← hpos]
  simp only [mem_toFinset, mem_map, mem_filter, mem_flatMap, applied_eq,
    Bool.and_eq_true, decide_eq_true_eq]
  constructor
  · rintro ⟨d, ⟨row, hrow, hd⟩, ⟨hkey, hdate⟩, hcount⟩
    rcases mem_cons.mp hd with rfl | hd
    · rw [windowKey_hourlyKey h, decide_eq_true_eq] at hkey
      exact ⟨row, ⟨hrow, hkey⟩, hdate⟩
    · obtain ⟨author, -, rfl⟩ := mem_map.mp hd
      exact absurd hcount (receiverCounts_of_isAuthored reader _ (.inr (.inr rfl))).not_gt
  · rintro ⟨row, ⟨hrow, hkey⟩, hdate⟩
    refine ⟨_, ⟨row, hrow, .head _⟩, ⟨?_, hdate⟩, ?_⟩
    · rw [windowKey_hourlyKey h]
      exact decide_eq_true hkey
    · exact one_pos.trans_eq (authorCounts_authoredEventCount _).symm

theorem incrementalWindow_eq (hrows : NonNeg rows)
    (hledger : NonNeg (ledger.flatMap ((hourly reader).applied (contents content))))
    (hsum : ∀ p f, rowSum p f rows =
      rowSum p f (ledger.flatMap ((hourly reader).applied (contents content))))
    (h : IsCutoff now cutoff) : incrementalWindow (hourlyRowsOf rows pubkey now) cutoff =
      windowOf reader content ledger pubkey cutoff := by
  have hfield : ∀ f, rowSum (fun key => decide (cutoff ≤ bucketStart key)) f
      (hourlyRowsOf rows pubkey now) = authoredSum content f ledger pubkey cutoff +
        receivedSum reader content f ledger pubkey cutoff := by
    intro f
    rw [← rowSum_ledger h f, ← hsum]
    exact rowSum_filter (fun key => decide (key.pubkey = pubkey ∧
      activityDate (cutoff30d now) ≤ key.activityDate)) _ f rows
  have hnote : receivedSum reader content .noteCount ledger pubkey cutoff = 0 :=
    receivedSum_of_isAuthored (.inl rfl) ledger
  have hreply : receivedSum reader content .replyCount ledger pubkey cutoff = 0 :=
    receivedSum_of_isAuthored (.inr (.inl rfl)) ledger
  have hengagement : authoredSum content .engagementReceived ledger pubkey cutoff = 0 := by
    simp [authoredSum]
  have hzap : authoredSum content .zapMsatsReceived ledger pubkey cutoff = 0 := by
    simp [authoredSum]
  simp only [incrementalWindow, windowOf, hfield, hnote, hreply, hengagement, hzap, add_zero,
    zero_add, activeDays_eq hrows hledger hsum h]

end NostrMash.Discovery
