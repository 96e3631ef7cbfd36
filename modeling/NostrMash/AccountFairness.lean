import Mathlib
import NostrMash.AccountRecompute

/-!
# Fairness of the recompute loop

Cycles follow each other on a table that nothing else writes, with constant signals. A cycle moves
the rows it changes to the end of the order of age and leaves settled rows where they are.
-/

namespace NostrMash.Account
open List Nat

section
variable (P : Projections) (cfg : RecomputeConfig) (c : ℕ → Cycle) (T : Table)

def tableAt : ℕ → Table
  | 0 => T
  | k + 1 => recomputeAccountStatesOnce P cfg (c k) (tableAt k)

/-- Stored times lie in the past, a cycle stamps rows after it starts, and each cycle starts more
than `StaleAfter` after the last stamp of the one before. -/
structure Timely : Prop where
  past : ∀ r ∈ T.rows, r.updatedAt < (c 0).start
  stamps : ∀ k p, (c k).start ≤ (c k).stamp p
  apart : ∀ k p, (c k).stamp p + max cfg.staleAfter 0 < (c (k + 1)).start

/-- Within `n` cycles every row has been examined, and its states are the recomputed ones. -/
def Recomputed (n : ℕ) : Prop :=
  ∀ r ∈ T.rows, (∃ k < n, r.pubkey ∈ examined P cfg (c k) (tableAt P cfg c T k)) ∧
    ∃ q, (tableAt P cfg c T n).find r.pubkey = some q ∧
      q.derivedState = (SignalRow.ofRow P q).derived ∧
      q.state = effectiveState (SignalRow.ofRow P q).derived q.manualOverride q.tracked

def crowd (r : Row) : List Row :=
  T.rows.filter fun q => q.pubkey ≠ r.pubkey ∧ Settled P q ∧ q.updatedAt ≤ r.updatedAt

def unsettled : List Row := T.rows.filter fun q => ¬ Settled P q

variable {P cfg c T} {q r : Row} {k : ℕ}

theorem mem_recompute {d : Cycle} {U : Table} :
    q ∈ (recomputeAccountStatesOnce P cfg d U).rows ↔
      ∃ r ∈ U.rows, refresh P d.stamp (examined P cfg d U) r = q := by
  rw [rows_recompute, mem_map]

theorem settled_persists (h : q ∈ (tableAt P cfg c T k).rows) (hs : Settled P q) {n : ℕ}
    (hn : k ≤ n) : q ∈ (tableAt P cfg c T n).rows := by
  induction n, hn using le_induction with
  | base => exact h
  | succ n _ ih => exact mem_recompute.mpr ⟨q, ih, refresh_of_settled hs⟩

theorem unexamined_persists {n : ℕ} (hr : r ∈ T.rows)
    (h : ∀ k < n, r.pubkey ∉ examined P cfg (c k) (tableAt P cfg c T k)) :
    r ∈ (tableAt P cfg c T n).rows := by
  induction n with
  | zero => exact hr
  | succ n ih =>
    have hn := ih fun k hk => h k (lt_succ_of_lt hk)
    exact mem_recompute.mpr ⟨r, hn, refresh_of_not_mem (h n (lt_succ_self n))⟩

theorem pubkeys_persist (hr : r ∈ T.rows) (n : ℕ) :
    ∃ q ∈ (tableAt P cfg c T n).rows, q.pubkey = r.pubkey := by
  induction n with
  | zero => exact ⟨r, hr, rfl⟩
  | succ n ih =>
    obtain ⟨q, hq, hk⟩ := ih
    exact ⟨_, mem_recompute.mpr ⟨q, hq, rfl⟩, by rw [refresh_pubkey, hk]⟩

theorem updatedAt_refresh (stamp : Pubkey → ℤ) (keys : List Pubkey) (r : Row) :
    refresh P stamp keys r = r ∨ (Settled P (refresh P stamp keys r) ∧
      (refresh P stamp keys r).updatedAt = stamp r.pubkey) := by
  by_cases h : r.pubkey ∈ keys ∧ ¬ Settled P r
  · refine .inr ⟨settled_refresh h.1, ?_⟩
    rw [refresh, if_pos h]
    rfl
  · exact .inl (if_neg h)

section
variable (ht : Timely cfg c T)
include ht

theorem updatedAt_succ (hpast : ∀ q ∈ (tableAt P cfg c T k).rows, q.updatedAt < (c k).start) :
    ∀ q ∈ (tableAt P cfg c T (k + 1)).rows,
      q.updatedAt + max cfg.staleAfter 0 < (c (k + 1)).start := by
  intro q hq
  obtain ⟨r, hr, rfl⟩ := mem_recompute.mp hq
  have hold := hpast r hr
  have hstamp := ht.stamps k r.pubkey
  have hnext := ht.apart k r.pubkey
  rcases updatedAt_refresh (c k).stamp (examined P cfg (c k) (tableAt P cfg c T k)) r with he | he
  · rw [he]
    omega
  · rwa [he.2]

theorem aged (k : ℕ) :
    ∀ q ∈ (tableAt P cfg c T k).rows, q.updatedAt < (c k).start := by
  induction k with
  | zero => exact ht.past
  | succ k ih =>
    intro q hq
    have hold := updatedAt_succ ht ih q hq
    omega

theorem stale_succ (k : ℕ) (hq : q ∈ (tableAt P cfg c T (k + 1)).rows) :
    (cfg.staleBefore (c (k + 1)).start).all (q.updatedAt < ·) = true := by
  have hold := updatedAt_succ ht (aged ht k) q hq
  unfold RecomputeConfig.staleBefore
  split_ifs with hpos
  · rw [Option.all_some, decide_eq_true_eq]
    omega
  · rfl

theorem start_le (k : ℕ) : (c 0).start ≤ (c k).start := by
  induction k with
  | zero => exact le_rfl
  | succ k ih =>
    obtain ⟨p⟩ : Nonempty Pubkey := ⟨⟨"a", by decide, by decide⟩⟩
    have hstamp := ht.stamps k p
    have hnext := ht.apart k p
    omega

theorem original_or_stamped (k : ℕ) :
    ∀ q ∈ (tableAt P cfg c T k).rows, q ∈ T.rows ∨ (Settled P q ∧ (c 0).start ≤ q.updatedAt) := by
  induction k with
  | zero => exact fun q hq => .inl hq
  | succ k ih =>
    intro q hq
    obtain ⟨r, hr, rfl⟩ := mem_recompute.mp hq
    have hstart := start_le ht k
    have hstamp := ht.stamps k r.pubkey
    rcases updatedAt_refresh (c k).stamp (examined P cfg (c k) (tableAt P cfg c T k)) r with he | he
    · rw [he]
      exact ih r hr
    · refine .inr ⟨he.1, ?_⟩
      rw [he.2]
      omega

end

theorem unsettled_recompute (d : Cycle) (U : Table) :
    (unsettled P (recomputeAccountStatesOnce P cfg d U)).length =
      ((unsettled P U).filter fun q => q.pubkey ∉ examined P cfg d U).length := by
  unfold unsettled
  rw [rows_recompute, filter_map, length_map, filter_filter]
  congr 1
  apply filter_congr
  intro q _
  by_cases hk : q.pubkey ∈ examined P cfg d U
  · simp [hk, settled_refresh hk]
  · simp [hk, refresh_of_not_mem hk]

theorem unsettled_le (d : Cycle) (U : Table) :
    (unsettled P (recomputeAccountStatesOnce P cfg d U)).length ≤ (unsettled P U).length := by
  rw [unsettled_recompute]
  exact length_filter_le _ _

theorem unsettled_lt (ht : Timely cfg c T) (hr : r ∈ T.rows)
    (hk : r ∈ (tableAt P cfg c T (k + 1)).rows)
    (hcrowd : (crowd P T r).length < batchLimit cfg.batchSize)
    (hmiss : r.pubkey ∉ examined P cfg (c (k + 1)) (tableAt P cfg c T (k + 1))) :
    (unsettled P (tableAt P cfg c T (k + 1 + 1))).length <
      (unsettled P (tableAt P cfg c T (k + 1))).length := by
  set U := tableAt P cfg c T (k + 1) with hU
  rw [tableAt, ← hU, unsettled_recompute, length_filter_lt_length_iff_exists]
  rw [examined_eq] at hmiss
  have hstale : r ∈ ((c (k + 1)).heap U.rows).filter
      fun q => (cfg.staleBefore (c (k + 1)).start).all (q.updatedAt < ·) :=
    mem_filter.mpr ⟨((c (k + 1)).perm U.rows).mem_iff.mpr hk, stale_succ ht k hk⟩
  have hnot : r ∉ (c (k + 1)).batch cfg U := fun hb => hmiss (mem_map_of_mem hb)
  obtain ⟨hfull, hold⟩ := oldest_full hstale hnot
  by_contra hall
  have hsettled : ∀ q ∈ (c (k + 1)).batch cfg U, Settled P q := by
    intro q hq
    by_contra hs
    refine hall ⟨q, mem_filter.mpr ⟨mem_rows_of_mem_batch hq, by simpa using hs⟩, ?_⟩
    rw [examined_eq]
    simpa using ⟨q, hq, rfl⟩
  have hsub : (c (k + 1)).batch cfg U ⊆ crowd P T r := by
    intro q hq
    have hqU := mem_rows_of_mem_batch hq
    have hage : q.updatedAt ≤ r.updatedAt := hold q hq
    have hpast := ht.past r hr
    have hne : q.pubkey ≠ r.pubkey := fun he => hnot (eq_of_pubkey_eq hqU hk he ▸ hq)
    have hqT : q ∈ T.rows := by
      rcases original_or_stamped ht (k + 1) q hqU with h | h
      · exact h
      · omega
    exact mem_filter.mpr ⟨hqT, by simpa using ⟨hne, hsettled q hq, hage⟩⟩
  have hle := ((batch_nodup (c (k + 1)) U).of_map.subperm hsub).length_le
  have hlen : ((c (k + 1)).batch cfg U).length = batchLimit cfg.batchSize := hfull
  omega

theorem examined_within (ht : Timely cfg c T) (hr : r ∈ T.rows)
    (hcrowd : (crowd P T r).length < batchLimit cfg.batchSize) (m : ℕ) :
    (∃ k < m + 1, r.pubkey ∈ examined P cfg (c k) (tableAt P cfg c T k)) ∨
      (unsettled P (tableAt P cfg c T (m + 1))).length + m ≤ T.rows.length := by
  induction m with
  | zero =>
    right
    exact (unsettled_le (c 0) T).trans (length_filter_le _ _)
  | succ m ih =>
    rcases ih with ⟨k, hk, he⟩ | hle
    · exact .inl ⟨k, lt_succ_of_lt hk, he⟩
    · by_cases hex : ∃ k < m + 2, r.pubkey ∈ examined P cfg (c k) (tableAt P cfg c T k)
      · exact .inl hex
      · push Not at hex
        have hmem := unexamined_persists hr fun k hk => hex k (lt_succ_of_lt hk)
        have hlt := unsettled_lt ht hr hmem hcrowd (hex (m + 1) (lt_succ_self _))
        right
        omega

theorem recomputed_of_uncrowded (ht : Timely cfg c T)
    (hcrowd : ∀ r ∈ T.rows, (crowd P T r).length < batchLimit cfg.batchSize) :
    Recomputed P cfg c T (T.rows.length + 2) := by
  intro r hr
  have hex : ∃ k < T.rows.length + 2,
      r.pubkey ∈ examined P cfg (c k) (tableAt P cfg c T k) := by
    rcases examined_within ht hr (hcrowd r hr) (T.rows.length + 1) with h | h
    · exact h
    · omega
  refine ⟨hex, ?_⟩
  obtain ⟨k, hk, hmem⟩ := hex
  obtain ⟨q, hq, hkey⟩ : ∃ q ∈ (tableAt P cfg c T k).rows, q.pubkey = r.pubkey :=
    pubkeys_persist hr k
  have hs : Settled P (refresh P (c k).stamp (examined P cfg (c k) (tableAt P cfg c T k)) q) :=
    settled_refresh (hkey ▸ hmem)
  have hend := settled_persists (k := k + 1) (mem_recompute.mpr ⟨q, hq, rfl⟩) hs hk
  refine ⟨_, ?_, hs.1.symm, hs.2.symm⟩
  have hfind := Table.find_of_mem hend
  rwa [refresh_pubkey, hkey] at hfind

def lastInLine (p : Pubkey) (start : ℤ) : Cycle where
  start := start
  stamp := fun _ => start
  heap := fun rows =>
    rows.filter (fun q => q.pubkey ≠ p) ++ rows.filter (fun q => !decide (q.pubkey ≠ p))
  perm := fun rows => filter_append_perm _ rows

theorem crowded_out {start : ℤ} {U : Table} (hr : r ∈ U.rows) {Q : List Row} (hQ : Q.Nodup)
    (hlen : batchLimit cfg.batchSize ≤ Q.length)
    (hmem : ∀ q ∈ Q, q ∈ U.rows ∧ q.pubkey ≠ r.pubkey ∧ q.updatedAt ≤ r.updatedAt) :
    r.pubkey ∉ examined P cfg (lastInLine r.pubkey start) U := by
  rw [examined_eq, mem_map]
  rintro ⟨q, hq, hk⟩
  obtain rfl := eq_of_pubkey_eq (mem_rows_of_mem_batch hq) hr hk
  have hstale := (mem_filter.mp (mem_of_mem_oldest hq)).2
  refine not_mem_oldest ?_ hQ hlen ?_ hq
  · exact (((lastInLine q.pubkey start).perm U.rows).nodup_iff.mpr U.unique.of_map).filter _
  · intro x hx
    obtain ⟨hxU, hne, hage⟩ := hmem x hx
    refine ⟨hage, ?_⟩
    have hxstale : (cfg.staleBefore (lastInLine q.pubkey start).start).all (x.updatedAt < ·) =
        true := by
      revert hstale
      cases cfg.staleBefore (lastInLine q.pubkey start).start with
      | none => exact fun _ => rfl
      | some b =>
        simp only [Option.all_some, decide_eq_true_eq]
        omega
    have hpair : [x, q].Sublist ((lastInLine q.pubkey start).heap U.rows) := by
      have hleft : [x].Sublist (U.rows.filter fun y => y.pubkey ≠ q.pubkey) :=
        singleton_sublist.mpr (mem_filter.mpr ⟨hxU, by simpa using hne⟩)
      have hright : [q].Sublist (U.rows.filter fun y => !decide (y.pubkey ≠ q.pubkey)) :=
        singleton_sublist.mpr (mem_filter.mpr ⟨hr, by simp⟩)
      exact hleft.append hright
    have hfilter := hpair.filter
      fun y => (cfg.staleBefore (lastInLine q.pubkey start).start).all (y.updatedAt < ·)
    simpa only [filter_cons, hxstale, hstale, if_true, filter_nil] using hfilter

theorem starved (hr : r ∈ T.rows) (hcrowd : batchLimit cfg.batchSize ≤ (crowd P T r).length) :
    ∃ d : ℕ → Cycle, Timely cfg d T ∧
      ∀ k, r ∈ (tableAt P cfg d T k).rows ∧
        r.pubkey ∉ examined P cfg (d k) (tableAt P cfg d T k) := by
  obtain ⟨M, hM⟩ := (T.rows.map Row.updatedAt).toFinset.bddAbove
  let d : ℕ → Cycle := fun k =>
    lastInLine r.pubkey (M + 1 + k * (max cfg.staleAfter 0 + 1))
  have hskip : ∀ k, r ∈ (tableAt P cfg d T k).rows →
      r.pubkey ∉ examined P cfg (d k) (tableAt P cfg d T k) := by
    intro k hk
    apply crowded_out hk (T.unique.of_map.filter _) hcrowd
    intro q hq
    obtain ⟨hqT, hprops⟩ := mem_filter.mp hq
    rw [decide_eq_true_eq] at hprops
    exact ⟨settled_persists (k := 0) hqT hprops.2.1 (zero_le k), hprops.1, hprops.2.2⟩
  refine ⟨d, ⟨fun q hq => ?_, fun k p => le_rfl, fun k p => ?_⟩, fun k => ?_⟩
  · have hq' : q.updatedAt ≤ M := hM (by simpa using ⟨q, hq, rfl⟩)
    simp only [d, lastInLine, cast_zero, zero_mul, add_zero]
    omega
  · simp only [d, lastInLine, cast_add, cast_one, add_mul, one_mul]
    omega
  · induction k with
    | zero => exact ⟨hr, hskip 0 hr⟩
    | succ k ih =>
      have hk := mem_recompute.mpr ⟨r, ih.1, refresh_of_not_mem ih.2⟩
      exact ⟨hk, hskip (k + 1) hk⟩

/-- Every schedule of cycles recomputes the whole table within finitely many cycles exactly when,
for every row, fewer other settled rows than a batch holds are at least as old. -/
theorem recomputed_iff_uncrowded (P : Projections) (cfg : RecomputeConfig) (T : Table) :
    (∀ c, Timely cfg c T → ∃ n, Recomputed P cfg c T n) ↔
      ∀ r ∈ T.rows, (crowd P T r).length < batchLimit cfg.batchSize := by
  constructor
  · intro h r hr
    by_contra hfull
    obtain ⟨d, ht, hwait⟩ := starved hr (Nat.le_of_not_lt hfull)
    obtain ⟨n, hn⟩ := h d ht
    obtain ⟨k, _, hk⟩ := (hn r hr).1
    exact (hwait k).2 hk
  · exact fun h c ht => ⟨T.rows.length + 2, recomputed_of_uncrowded ht h⟩

end

def settledRow : Row := Row.unknownAccountState 0 ⟨"ab", by decide, by decide⟩

def waitingRow : Row := Row.unknownAccountState 1 ⟨"bb", by decide, by decide⟩

def waitingTable : Table := ⟨[settledRow, waitingRow], by decide⟩

def waitingProjections : Projections where
  trustHops := fun p => if p = waitingRow.pubkey then some 1 else none
  hasProfile := fun _ => false
  noteCount := fun _ => none

/-- With batches of one, the settled account fills every batch and the other one is never
examined: it stays unknown although its signals make it trusted. -/
theorem settled_row_starves_the_next : ∃ c, Timely ⟨3600, 1⟩ c waitingTable ∧ ∀ n,
      waitingRow.pubkey ∉ examined waitingProjections ⟨3600, 1⟩ (c n)
        (tableAt waitingProjections ⟨3600, 1⟩ c waitingTable n) ∧
      (tableAt waitingProjections ⟨3600, 1⟩ c waitingTable n).find waitingRow.pubkey =
        some waitingRow ∧ waitingRow.derivedState = .unknown ∧
      (SignalRow.ofRow waitingProjections waitingRow).derived = .trusted := by
  obtain ⟨c, ht, hwait⟩ := @starved waitingProjections ⟨3600, 1⟩ waitingTable waitingRow
    (by decide) (by decide)
  refine ⟨c, ht, fun n => ⟨(hwait n).2, Table.find_of_mem (hwait n).1, rfl, by decide⟩⟩

end NostrMash.Account
