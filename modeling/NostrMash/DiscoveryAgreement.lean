import NostrMash.DiscoveryArrivals

/-!
# Agreement of the two discovery loaders

Both loaders return sums over the stored events.
-/

namespace NostrMash.Discovery
open AuthorStats Machine List
variable {reader : RequestReader} {content : String → StoredContent} {s : DiscoveryState}

section
variable {pubkey : String} {now cutoff : ℤ} {rows rows' : List LedgerRow}

theorem windowOf_perm (h : rows.Perm rows') :
    windowOf reader content rows pubkey cutoff = windowOf reader content rows' pubkey cutoff := by
  simp only [windowOf, authoredSum, receivedSum, (h.map _).sum_eq,
    toFinset_eq_of_perm _ _ ((h.filter _).map _)]

theorem windowOf_congr {stored : List String} (h : ∀ row ∈ rows,
    received reader content (row.1, stored) = received reader content row) :
    windowOf reader content (rows.map fun row => (row.1, stored)) pubkey cutoff =
      windowOf reader content rows pubkey cutoff := by
  have hsum : ∀ f,
      receivedSum reader content f (rows.map fun row => (row.1, stored)) pubkey cutoff =
      receivedSum reader content f rows pubkey cutoff := by
    intro f
    rw [receivedSum, receivedSum, map_map]
    congr 1
    refine map_congr_left fun row hrow => ?_
    simp only [Function.comp_apply, h row hrow]
  simp only [windowOf, hsum, authoredSum, map_map, filter_map, Function.comp_def]

theorem perm_currentRows (ht : TablesInv reader content s) (hh : HourlyInv reader content s)
    (hd : Derived s) : (currentRows s).Perm (s.hourlyLedger.map fun row => (row.1, s.stored)) := by
  have hperm : s.stored.Perm (s.hourlyLedger.map Prod.fst) := by
    refine (perm_ext_iff_of_nodup ht.nodup hh.nodup).mpr fun id => ?_
    rw [hh.ledger_done]
    exact ⟨fun hid => hd id hid _, fun hid => ht.done_stored _ hid⟩
  have hmap := hperm.map fun id => (id, s.stored)
  rwa [map_map] at hmap

theorem isCutoff_24h (h : 3600 ∣ now) : IsCutoff now (cutoff24h now) where
  aligned := by unfold cutoff24h; omega
  ge := by unfold cutoff24h cutoff30d; omega

theorem isCutoff_7d (h : 3600 ∣ now) : IsCutoff now (cutoff7d now) where
  aligned := by unfold cutoff7d; omega
  ge := by unfold cutoff7d cutoff30d; omega

theorem isCutoff_30d (h : 3600 ∣ now) : IsCutoff now (cutoff30d now) where
  aligned := by unfold cutoff30d; omega
  ge := le_rfl

variable (reader content) in
def dualWindowOf (rows : List LedgerRow) (pubkey : String) (now : ℤ) : DualWindowMetrics :=
  { window24h := windowOf reader content rows pubkey (cutoff24h now)
    window7d := windowOf reader content rows pubkey (cutoff7d now)
    window30d := windowOf reader content rows pubkey (cutoff30d now) }

theorem amountSats_projectZapReceipts {e : EventContent} {row : ZapRow}
    (h : projectZapReceipts reader e = some row) :
    row.amountSats = zapReceiptAmountSats reader e.tags := by
  simp only [projectZapReceipts, Option.ite_none_left_eq_some, Option.some.injEq] at h
  rw [← h.2]

variable (reader) in
theorem exists_projectZapReceipts {e : EventContent} (hk : e.kind = 9735) :
    ∃ row, projectZapReceipts reader e = some row :=
  ⟨_, if_neg (not_ne_iff.mpr hk)⟩

theorem mem_zapsTo_iff (h : Projected reader content s) {row : ZapRow} :
    row ∈ zapsTo s pubkey now ↔ ∃ id ∈ s.stored,
      projectZapReceipts reader (contents content id) = some row ∧
        zapReceiver reader (contents content id) = some pubkey ∧
        cutoff30d now ≤ (content id).createdAt := by
  have hrow : ∀ id, projectZapReceipts reader (contents content id) = some row →
      (row.receiverPubkey = some pubkey ∧ row.senderPubkey ≠ pubkey ∧
        cutoff30d now ≤ row.createdAt ↔ zapReceiver reader (contents content id) = some pubkey ∧
        cutoff30d now ≤ (content id).createdAt) := by
    intro id hproject
    unfold projectZapReceipts at hproject
    simp only [Option.ite_none_left_eq_some, Option.some.injEq, not_not] at hproject
    obtain ⟨hk, rfl⟩ := hproject
    rw [zapReceiver_eq_some_iff hk, and_assoc]
    exact Iff.rfl
  simp only [zapsTo, mem_filter, mem_map, decide_eq_true_eq]
  constructor
  · rintro ⟨⟨⟨id, _⟩, hmem, rfl⟩, hcond⟩
    obtain ⟨hid, hproject⟩ := (h.zaps.mem_iff id _).mp hmem
    exact ⟨id, hid, hproject, (hrow id hproject).mp hcond⟩
  · rintro ⟨id, hid, hproject, hcond⟩
    exact ⟨⟨(id, row), (h.zaps.mem_iff id row).mpr ⟨hid, hproject⟩, rfl⟩,
      (hrow id hproject).mpr hcond⟩

theorem loadProfileDualWindowMetrics_eq (h : Projected reader content s)
    (hz : ∀ id ∈ s.stored, ZapFits reader (contents content) id) (hnow : 3600 ∣ now) :
    loadProfileDualWindowMetrics content s pubkey now =
      some (dualWindowOf reader content (currentRows s) pubkey now) := by
  have hfit : ((zapsTo s pubkey now).all fun row => row.amountSats * 1000 < 2 ^ 63) = true := by
    rw [all_eq_true]
    intro row hrow
    obtain ⟨id, hid, hproject, hreceiver, -⟩ := (mem_zapsTo_iff h).mp hrow
    have hfits := hz id hid (by rw [hreceiver]; rfl)
    rw [decide_eq_true_eq, amountSats_projectZapReceipts hproject]
    exact hfits
  rw [loadProfileDualWindowMetrics, if_pos hfit, fullWindow_eq h (isCutoff_24h hnow) hz,
    fullWindow_eq h (isCutoff_7d hnow) hz, fullWindow_eq h (isCutoff_30d hnow) hz]
  rfl

theorem loadProfileDualWindowMetricsIncremental_eq (h : HourlyInv reader content s)
    (hz : ∀ id ∈ s.stored, ZapFits reader (contents content) id) (hnow : 3600 ∣ now) :
    loadProfileDualWindowMetricsIncremental s pubkey now =
      dualWindowOf reader content s.hourlyLedger pubkey now := by
  obtain ⟨hrows, happlied, hsum⟩ := h.rows hz
  have hwindow : ∀ cutoff, IsCutoff now cutoff →
      incrementalWindow (hourlyRowsOf s.hourlyRows pubkey now) cutoff =
        windowOf reader content s.hourlyLedger pubkey cutoff :=
    fun cutoff hc => incrementalWindow_eq hrows happlied hsum hc
  rw [loadProfileDualWindowMetricsIncremental, dualWindowOf, hwindow _ (isCutoff_24h hnow),
    hwindow _ (isCutoff_7d hnow), hwindow _ (isCutoff_30d hnow)]

theorem exists_hour (createdAt : ℤ) : ∃ now, 3600 ∣ now ∧ cutoff24h now ≤ createdAt := by
  refine ⟨createdAt - createdAt % 3600, by omega, ?_⟩
  unfold cutoff24h
  omega

theorem zapFits_of_loadersAgree (hp : Projected reader content s) (h : LoadersAgree content s) :
    ∀ id ∈ s.stored, ZapFits reader (contents content) id := by
  intro id hid hsome
  obtain ⟨pubkey, hreceiver⟩ := Option.isSome_iff_exists.mp hsome
  obtain ⟨now, hnow, hcut⟩ := exists_hour (content id).createdAt
  have hagree := h now hnow pubkey
  unfold loadProfileDualWindowMetrics at hagree
  simp only [Option.ite_none_right_eq_some] at hagree
  have hk : (contents content id).kind = 9735 := by
    unfold zapReceiver at hreceiver
    simp only [Option.ite_none_right_eq_some] at hreceiver
    exact hreceiver.1.1
  obtain ⟨row, hproject⟩ := exists_projectZapReceipts reader hk
  have hmem : row ∈ zapsTo s pubkey now := (mem_zapsTo_iff hp).mpr
    ⟨id, hid, hproject, hreceiver, (isCutoff_24h hnow).ge.trans hcut⟩
  have hlt := all_eq_true.mp hagree.1 row hmem
  rwa [decide_eq_true_eq, amountSats_projectZapReceipts hproject] at hlt

theorem received_eq_of_sums (hseen : ∀ row ∈ rows, row.2 ⊆ s.stored)
    (hsum : ∀ pubkey now, 3600 ∣ now →
      receivedSum reader content .engagementReceived (rows.map fun row => (row.1, s.stored)) pubkey
        (cutoff24h now) =
      receivedSum reader content .engagementReceived rows pubkey (cutoff24h now)) :
    ∀ row ∈ rows, received reader content (row.1, s.stored) = received reader content row := by
  intro row hrow
  by_contra hne
  cases hold : received reader content row with
  | some author => exact hne ((received_mono (hseen row hrow) hold).trans hold.symm)
  | none =>
    cases hnew : received reader content (row.1, s.stored) with
    | none => exact hne (hnew.trans hold.symm)
    | some author =>
      obtain ⟨now, hnow, hcut⟩ := exists_hour (content row.1).createdAt
      refine absurd (hsum author now hnow) (ne_of_gt ?_)
      rw [receivedSum, receivedSum, map_map]
      refine sum_lt_sum _ _ (fun r hr => ?_) ⟨row, hrow, ?_⟩
      · simp only [receiverCounts_engagementReceived, Function.comp_apply]
        by_cases hr' : received reader content r = some author
        · rw [hr', received_mono (hseen r hr) hr']
        · simp only [hr', false_and, if_false]
          split_ifs <;> decide
      · simp [hold, hnew, hcut]

theorem loadersAgree_iff_counted (ht : TablesInv reader content s)
    (hh : HourlyInv reader content s) (hd : Derived s) :
    LoadersAgree content s ↔ Counted reader content s := by
  have hp : Projected reader content s := ht.projected hd
  have hperm := perm_currentRows ht hh hd
  constructor
  · intro h
    have hz := zapFits_of_loadersAgree hp h
    refine ⟨hz, received_eq_of_sums hh.seen_stored fun pubkey now hnow => ?_⟩
    have hagree := h now hnow pubkey
    rw [loadProfileDualWindowMetrics_eq hp hz hnow,
      loadProfileDualWindowMetricsIncremental_eq hh hz hnow, dualWindowOf,
      windowOf_perm hperm] at hagree
    exact congrArg (fun m => m.window24h.engagement) (Option.some.inj hagree)
  · rintro ⟨hz, hrows⟩ now hnow pubkey
    rw [loadProfileDualWindowMetrics_eq hp hz hnow,
      loadProfileDualWindowMetricsIncremental_eq hh hz hnow]
    simp only [dualWindowOf, windowOf_perm hperm, windowOf_congr hrows]

/-- Over every order of insertions and derivations, once all events are derived the loaders agree
exactly if every event arrived in time. -/
theorem loadersAgree_iff_inTime (reader : RequestReader) (content : String → StoredContent)
    (actions : List DiscoveryAction) (s : DiscoveryState)
    (hr : run (discoveryStep reader content) .init actions = some s) (hd : Derived s) :
    LoadersAgree content s ↔
      Guarded (discoveryStep reader content) (InTime reader content) .init actions := by
  have hinv : TablesInv reader content s ∧ HourlyInv reader content s :=
    run_invariant_of_step (I := fun u => TablesInv reader content u ∧ HourlyInv reader content u)
      (fun _ _ _ h hs => inv_discoveryStep h hs) ⟨tablesInv_init, hourlyInv_init⟩ hr
  rw [loadersAgree_iff_counted hinv.1 hinv.2 hd, counted_iff_guarded hr]

end

def storedNoteAndReply (id : String) : StoredContent :=
  { noteAndReply id with
    pubkey_ne := by unfold noteAndReply; split_ifs <;> decide
    createdAt_le := by unfold noteAndReply; split_ifs <;> decide }

def deriveAll (id : String) : List DiscoveryAction := BundleStep.all.map (.derive id)

def noteThenReply : List DiscoveryAction :=
  [.insertEvent "note", .insertEvent "reply"] ++ deriveAll "reply" ++ deriveAll "note"

theorem note_then_reply_agree :
    ∃ s, run (discoveryStep noRequests storedNoteAndReply) .init noteThenReply = some s ∧
      Derived s ∧ LoadersAgree storedNoteAndReply s := by
  have hrun : (run (discoveryStep noRequests storedNoteAndReply) .init noteThenReply).map
      (fun s => decide (Derived s)) = some true := by decide
  obtain ⟨s, hs, hderived⟩ := Option.map_eq_some_iff.mp hrun
  have hd : Derived s := of_decide_eq_true hderived
  refine ⟨s, hs, hd, ?_⟩
  exact (loadersAgree_iff_inTime noRequests storedNoteAndReply noteThenReply s hs hd).mpr
    (by decide)

def replyThenNote : List DiscoveryAction :=
  [.insertEvent "reply"] ++ deriveAll "reply" ++ [.insertEvent "note"] ++ deriveAll "note"

/-- The full scan counts the reply for `bob`, the hourly rows never do. -/
theorem reply_then_note_disagree :
    ∃ s, run (discoveryStep noRequests storedNoteAndReply) .init replyThenNote = some s ∧
      Derived s ∧ ¬ LoadersAgree storedNoteAndReply s := by
  have hrun : (run (discoveryStep noRequests storedNoteAndReply) .init replyThenNote).map
      (fun s => (decide (Derived s),
        (loadProfileDualWindowMetrics storedNoteAndReply s "bob" 86400).map
          (·.window24h.engagement),
        (loadProfileDualWindowMetricsIncremental s "bob" 86400).window24h.engagement)) =
      some (true, some 1, 0) := by decide
  obtain ⟨s, hs, hvalues⟩ := Option.map_eq_some_iff.mp hrun
  simp only [Prod.mk.injEq, decide_eq_true_eq] at hvalues
  obtain ⟨hd, hfull, hincremental⟩ := hvalues
  refine ⟨s, hs, hd, fun h => ?_⟩
  rw [h 86400 (by decide) "bob", Option.map_some, hincremental] at hfull
  exact nomatch hfull

end NostrMash.Discovery
