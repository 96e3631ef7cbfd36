import NostrMash.AccountWriters

/-!
# The recompute cycle in one piece

With no other writer at work, a recompute cycle refreshes every listed row whose stored states
differ from the recomputed ones, and leaves every other row as it is, its age included.
-/

namespace NostrMash.Account
open ReadCommitted Machine List

structure Cycle where
  start : ℤ
  stamp : Pubkey → ℤ
  heap : List Row → List Row
  perm : ∀ rows, (heap rows).Perm rows

def recomputeRow (stamp : Pubkey → ℤ) (T : Table) (row : SignalRow) : Table :=
  if row.Unchanged then T
  else (T.updated row.pubkey (Row.applyAccountStateUpdate (stamp row.pubkey) row.derived
    row.effective)).foldl Table.put T

section
variable (P : Projections) (cfg : RecomputeConfig)

def Cycle.batch (c : Cycle) (T : Table) : List Row :=
  oldest Row.updatedAt (batchLimit cfg.batchSize)
    ((c.heap T.rows).filter fun r => (cfg.staleBefore c.start).all (r.updatedAt < ·))

def recomputeAccountStatesOnce (c : Cycle) (T : Table) : Table :=
  (listAccountSignalsForRecompute P (c.heap T.rows) cfg.batchSize
    (cfg.staleBefore c.start)).foldl (recomputeRow c.stamp) T

def examined (c : Cycle) (T : Table) : List Pubkey :=
  (listAccountSignalsForRecompute P (c.heap T.rows) cfg.batchSize
    (cfg.staleBefore c.start)).map SignalRow.pubkey

def Settled (r : Row) : Prop := (SignalRow.ofRow P r).Unchanged

instance (r : Row) : Decidable (Settled P r) := inferInstanceAs (Decidable (SignalRow.Unchanged _))

def applied (stamp : Pubkey → ℤ) (r : Row) : Row :=
  r.applyAccountStateUpdate (stamp r.pubkey) (SignalRow.ofRow P r).derived
    (SignalRow.ofRow P r).effective

def refresh (stamp : Pubkey → ℤ) (keys : List Pubkey) (r : Row) : Row :=
  if r.pubkey ∈ keys ∧ ¬ Settled P r then applied P stamp r else r

variable {P cfg} {keys : List Pubkey} {stamp : Pubkey → ℤ} {r : Row} {T : Table}

@[simp] theorem refresh_pubkey (stamp : Pubkey → ℤ) (keys : List Pubkey) (r : Row) :
    (refresh P stamp keys r).pubkey = r.pubkey := by
  unfold refresh
  split_ifs <;> rfl

theorem refresh_of_settled (h : Settled P r) :
    refresh P stamp keys r = r := if_neg fun hand => hand.2 h

theorem refresh_of_not_mem (h : r.pubkey ∉ keys) :
    refresh P stamp keys r = r := if_neg fun hand => h hand.1

theorem settled_refresh (h : r.pubkey ∈ keys) :
    Settled P (refresh P stamp keys r) := by
  by_cases hs : Settled P r
  · rwa [refresh_of_settled hs]
  · rw [refresh, if_pos ⟨h, hs⟩]
    exact ⟨rfl, rfl⟩

theorem eq_of_pubkey_eq {q : Row} (hq : q ∈ T.rows) (hr : r ∈ T.rows) (h : q.pubkey = r.pubkey) :
    q = r := inj_on_of_nodup_map T.unique hq hr h

theorem rows_put {q : Row} (hr : r ∈ T.rows) (h : q.pubkey = r.pubkey) :
    (T.put q).rows = Table.replace q T.rows := by
  rw [Table.put, dif_pos (h ▸ mem_map_of_mem hr)]

theorem foldl_recomputeRow (stamp : Pubkey → ℤ) (rows : List Row) (T : Table)
    (hsub : rows ⊆ T.rows) (hnd : (rows.map Row.pubkey).Nodup) :
    ((rows.map (SignalRow.ofRow P)).foldl (recomputeRow stamp) T).rows =
      T.rows.map (refresh P stamp (rows.map Row.pubkey)) := by
  induction rows generalizing T with
  | nil => exact (map_id'' (fun _ => refresh_of_not_mem not_mem_nil) T.rows).symm
  | cons r rows ih =>
    have hr : r ∈ T.rows := hsub (.head _)
    rw [map_cons, nodup_cons] at hnd
    rw [map_cons, foldl_cons]
    by_cases hs : Settled P r
    · have hskip : recomputeRow stamp T (SignalRow.ofRow P r) = T := if_pos hs
      rw [hskip, ih T (fun q hq => hsub (mem_cons_of_mem r hq)) hnd.2]
      apply map_congr_left
      intro q hq
      by_cases hk : q.pubkey = r.pubkey
      · rw [eq_of_pubkey_eq hq hr hk, refresh_of_settled hs, refresh_of_settled hs]
      · simp [refresh, hk]
    · have hput : recomputeRow stamp T (SignalRow.ofRow P r) = T.put (applied P stamp r) := by
        have hkey : (SignalRow.ofRow P r).pubkey = r.pubkey := rfl
        have hu : ¬ (SignalRow.ofRow P r).Unchanged := hs
        rw [recomputeRow, if_neg hu, Table.updated, hkey, Table.find_of_mem hr]
        rfl
      have hsub' : rows ⊆ (T.put (applied P stamp r)).rows := by
        intro q hq
        refine Table.mem_put.mpr (.inr ⟨hsub (mem_cons_of_mem r hq), fun hk => hnd.1 ?_⟩)
        exact hk ▸ mem_map_of_mem hq
      have hkey : (applied P stamp r).pubkey = r.pubkey := rfl
      rw [hput, ih _ hsub' hnd.2, rows_put hr hkey, Table.replace, map_map]
      apply map_congr_left
      intro q hq
      by_cases hk : q.pubkey = r.pubkey
      · obtain rfl : q = r := eq_of_pubkey_eq hq hr hk
        have hnot : (applied P stamp q).pubkey ∉ rows.map Row.pubkey := hnd.1
        rw [Function.comp_apply, if_pos hkey.symm, refresh_of_not_mem hnot, refresh,
          if_pos ⟨.head _, hs⟩]
      · rw [Function.comp_apply, if_neg (hkey ▸ hk)]
        simp [refresh, hk]

theorem batch_nodup (c : Cycle) (T : Table) : ((c.batch cfg T).map Row.pubkey).Nodup := by
  apply List.Nodup.map_on
  · intro q hq r hr hk
    have hmem : ∀ x ∈ c.batch cfg T, x ∈ T.rows := fun x hx =>
      (c.perm T.rows).mem_iff.mp (mem_filter.mp (mem_of_mem_oldest hx)).1
    exact eq_of_pubkey_eq (hmem q hq) (hmem r hr) hk
  · exact nodup_oldest (((c.perm T.rows).nodup_iff.mpr T.unique.of_map).filter _)

theorem mem_rows_of_mem_batch {c : Cycle} (h : r ∈ c.batch cfg T) :
    r ∈ T.rows := (c.perm T.rows).mem_iff.mp (mem_filter.mp (mem_of_mem_oldest h)).1

theorem examined_eq (c : Cycle) (T : Table) :
    examined P cfg c T = (c.batch cfg T).map Row.pubkey := by
  simp [examined, listAccountSignalsForRecompute, Cycle.batch, SignalRow.ofRow, Function.comp_def]

theorem rows_recompute (c : Cycle) (T : Table) : (recomputeAccountStatesOnce P cfg c T).rows =
      T.rows.map (refresh P c.stamp (examined P cfg c T)) := by
  rw [examined_eq]
  exact foldl_recomputeRow c.stamp (c.batch cfg T) T (fun _ => mem_rows_of_mem_batch)
    (batch_nodup c T)

end

variable {τ : Type*} [DecidableEq τ] (t : τ) (phase : τ → Phase)

def cycleActions (stamp : Pubkey → ℤ) (rows : List SignalRow) : List (Action τ) :=
  rows.flatMap fun row =>
    if row.Unchanged then [.next t (stamp row.pubkey)]
    else [.next t (stamp row.pubkey), .applyUpdate t, .commit t]

theorem run_cycleActions (stamp : Pubkey → ℤ) (rows : List SignalRow) (T : Table) :
    run step (Session.alone T t [] phase (.recomputing rows)) (cycleActions t stamp rows) =
      some (Session.alone (rows.foldl (recomputeRow stamp) T) t [] phase (.recomputing [])) := by
  induction rows generalizing T with
  | nil => rfl
  | cons row rows ih =>
    have hcons : cycleActions t stamp (row :: rows) =
        (if row.Unchanged then [.next t (stamp row.pubkey)]
          else [.next t (stamp row.pubkey), .applyUpdate t, .commit t]) ++
            cycleActions t stamp rows := rfl
    rw [hcons, run_append]
    by_cases hu : row.Unchanged
    · simp [step, hu, ih, recomputeRow]
    · simp [step, hu, ih, recomputeRow, schema]

/-- A cycle that no session interrupts. -/
theorem run_recompute (P : Projections) (cfg : RecomputeConfig) (c : Cycle) (T : Table) :
    run step (Session.alone T t [] phase .idle) (.list t P cfg c.start (c.heap T.rows) ::
        cycleActions t c.stamp (listAccountSignalsForRecompute P (c.heap T.rows) cfg.batchSize
          (cfg.staleBefore c.start)) ++ [.next t c.start]) =
      some (Session.alone (recomputeAccountStatesOnce P cfg c T) t [] phase .idle) := by
  rw [cons_append, run_cons]
  simp only [step, Session.phase_alone, Session.view_alone, foldl_nil, c.perm T.rows, if_true,
    Session.goto_alone, Option.bind_some]
  rw [run_append, run_cycleActions]
  simp [step, recomputeAccountStatesOnce]

end NostrMash.Account
