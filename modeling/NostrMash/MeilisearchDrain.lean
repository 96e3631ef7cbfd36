import NostrMash.KeyedTable
import NostrMash.Text

/-!
# Draining the search index queue

A drain claims a batch of `pending_meilisearch_syncs` by deleting its rows, and sends the batch to
Meilisearch. If the call ends because its context expired, the whole batch is inserted again under
a context of its own.
-/

namespace NostrMash.Meilisearch

abbrev PendingSyncs := KeyedTable String ℤ

/-- The operations under the context are numbered in the order in which they are made, and the
context is cancelled before the one given here. -/
def isCancelled (cancelAt : Option ℕ) (op : ℕ) : Bool := cancelAt.any (· ≤ op)

def canceled : String := "context canceled"

def marksFirst (a b : String × ℤ) : Prop := a.2 < b.2 ∨ (a.2 = b.2 ∧ a.1 ≤ b.1)

instance (a b : String × ℤ) : Decidable (marksFirst a b) := inferInstanceAs (Decidable (_ ∨ _))

def claimedIDs (T : PendingSyncs) (limit : ℕ) (locked : String → Bool) : List String :=
  (((T.rows.filter fun row => !locked row.1).insertionSort marksFirst).take limit).map Prod.fst

def claimPendingMeilisearchSyncs (T : PendingSyncs) (cancelAt : Option ℕ) (limit : ℕ)
    (locked : String → Bool) : Except String (List String × PendingSyncs) :=
  if isCancelled cancelAt 0 then
    .error ("begin pending meilisearch sync claim tx: " ++ canceled)
  else if isCancelled cancelAt 1 then .error ("claim pending meilisearch syncs: " ++ canceled)
  else if isCancelled cancelAt 2 then
    .error ("commit pending meilisearch sync claim: " ++ canceled)
  else
    .ok (claimedIDs T limit locked, T.delete fun id _ => id ∈ claimedIDs T limit locked)

def insertSync (now : ℤ) (T : PendingSyncs) (id : String) : PendingSyncs :=
  T.upsert id now fun row => row

def reinsertClaimedMeilisearchSyncs (now : ℤ) (T : PendingSyncs) (ids : List String) :
    PendingSyncs :=
  ids.foldl (insertSync now) T

inductive SyncError where
  | contextExpired (err : String)
  | other (err : String)

structure Outcomes where
  batch : Option SyncError
  event : String → Option String

structure Drained where
  processed : ℕ
  err : Option String
  queue : PendingSyncs
  synced : List String

def syncOne (cancelAt : Option ℕ) (event : String → Option String) (now : ℤ) (op : ℕ)
    (d : Drained) (id : String) : Drained :=
  match event id with
  | none => { d with processed := d.processed + 1, synced := id :: d.synced }
  | some err =>
    let firstErr := d.err <|> some ("meilisearch sync for " ++ id ++ ": " ++ err)
    if isCancelled cancelAt (op + 1) then
      { d with err := firstErr <|> some ("re-mark failed event " ++ id ++ ": " ++ canceled) }
    else { d with err := firstErr, queue := insertSync now d.queue id }

def syncEach (cancelAt : Option ℕ) (event : String → Option String) (now : ℤ) :
    ℕ → Drained → List String → Drained
  | _, d, [] => d
  | op, d, id :: ids =>
    syncEach cancelAt event now (op + 2) (syncOne cancelAt event now op d id) ids

def drainClaimed (cancelAt : Option ℕ) (outcomes : Outcomes) (now : ℤ) (ids : List String)
    (T : PendingSyncs) : Drained :=
  match outcomes.batch with
  | none => ⟨ids.length, none, T, ids⟩
  | some (.contextExpired err) =>
    ⟨0, some ("meilisearch batch sync timed out, re-queued " ++ toString ids.length ++
      " events: " ++ err), reinsertClaimedMeilisearchSyncs now T ids, []⟩
  | some (.other err) =>
    let d := syncEach cancelAt outcomes.event now 4 ⟨0, none, T, []⟩ ids
    if d.err.isNone ∧ 0 < d.processed then
      { d with err := some ("meilisearch batch sync fell back to per-event: " ++ err) }
    else d

def drainPendingMeilisearchSyncBatch (T : PendingSyncs) (enabled : Bool) (limit : ℤ)
    (locked : String → Bool) (cancelAt : Option ℕ) (outcomes : Outcomes) (now : ℤ) : Drained :=
  if enabled = false ∨ limit ≤ 0 then ⟨0, none, T, []⟩
  else
    match claimPendingMeilisearchSyncs T cancelAt limit.toNat locked with
    | .error err => ⟨0, some err, T, []⟩
    | .ok (ids, T') =>
      if ids.isEmpty then ⟨0, none, T', []⟩ else drainClaimed cancelAt outcomes now ids T'

def claimedBy (T : PendingSyncs) (enabled : Bool) (limit : ℤ) (locked : String → Bool)
    (cancelAt : Option ℕ) : List String :=
  if enabled = false ∨ limit ≤ 0 then []
  else
    match claimPendingMeilisearchSyncs T cancelAt limit.toNat locked with
    | .error _ => []
    | .ok (ids, _) => ids

variable {ids : List String}

section

open KeyedTable List
variable {cancelAt : Option ℕ} {event : String → Option String} {now : ℤ} {d : Drained}
  {id id' : String}

def Drained.Keeps (d : Drained) (id : String) : Prop :=
  id ∈ d.synced ∨ (d.queue.get id).isSome = true

theorem get_insertSync_ne {T : PendingSyncs} (h : id ≠ id') :
    (insertSync now T id').get id = T.get id := get_upsert_ne h _ _

theorem isSome_insertSync (T : PendingSyncs) (id : String) :
    ((insertSync now T id).get id).isSome = true := by
  rw [insertSync, get_upsert_self]
  rfl

theorem keeps_syncOne_ne (op : ℕ) (h : id ≠ id') :
    (syncOne cancelAt event now op d id').Keeps id ↔ d.Keeps id := by
  unfold syncOne Drained.Keeps
  split
  · simp [h]
  · dsimp only
    split_ifs
    · exact Iff.rfl
    · simp only [get_insertSync_ne h]

theorem keeps_syncOne_self (op : ℕ) (h : ¬ d.Keeps id) :
    (syncOne cancelAt event now op d id).Keeps id ↔
      event id = none ∨ isCancelled cancelAt (op + 1) = false := by
  unfold syncOne
  split
  · rename_i hok
    exact iff_of_true (.inl (.head _)) (.inl hok)
  · rename_i err hfail
    dsimp only
    split_ifs with hcancelled
    · refine iff_of_false h fun hor => ?_
      rcases hor with hok | hlive
      · exact nomatch hfail.symm.trans hok
      · exact nomatch hcancelled.symm.trans hlive
    · exact iff_of_true (.inr (isSome_insertSync _ _)) (.inr (Bool.not_eq_true _ ▸ hcancelled))

theorem keeps_syncEach_of_not_mem (op : ℕ) (h : id ∉ ids) :
    (syncEach cancelAt event now op d ids).Keeps id ↔ d.Keeps id := by
  induction ids generalizing op d with
  | nil => exact Iff.rfl
  | cons first ids ih =>
    rw [syncEach, ih _ (not_mem_of_not_mem_cons h), keeps_syncOne_ne op (ne_of_not_mem_cons h)]

theorem keeps_syncEach (hnd : ids.Nodup) (op i : ℕ) (hi : ids[i]? = some id) (h : ¬ d.Keeps id) :
    (syncEach cancelAt event now op d ids).Keeps id ↔
      event id = none ∨ isCancelled cancelAt (op + 2 * i + 1) = false := by
  induction ids generalizing op i d with
  | nil => simp at hi
  | cons first ids ih =>
    obtain ⟨hfirst, hrest⟩ := nodup_cons.mp hnd
    rw [syncEach]
    cases i with
    | zero =>
      obtain rfl : first = id := Option.some.inj hi
      rw [keeps_syncEach_of_not_mem _ hfirst, keeps_syncOne_self op h]
    | succ i =>
      have hmem : id ∈ ids := mem_of_getElem? hi
      have hne : id ≠ first := fun heq => hfirst (heq ▸ hmem)
      rw [ih hrest (op + 2) i hi (mt (keeps_syncOne_ne op hne).mp h)]
      have hop : op + 2 + 2 * i + 1 = op + 2 * (i + 1) + 1 := by omega
      rw [hop]

theorem isSome_reinsert {T : PendingSyncs} (h : id ∈ ids) :
    ((reinsertClaimedMeilisearchSyncs now T ids).get id).isSome = true := by
  induction ids using List.reverseRecOn with
  | nil => exact nomatch h
  | append_singleton ids last ih =>
    have hlast : reinsertClaimedMeilisearchSyncs now T (ids ++ [last]) =
        insertSync now (reinsertClaimedMeilisearchSyncs now T ids) last := by
      rw [reinsertClaimedMeilisearchSyncs, foldl_append]
      rfl
    rw [hlast]
    by_cases heq : id = last
    · subst heq
      exact isSome_insertSync _ _
    · rw [get_insertSync_ne heq]
      refine ih ((mem_append.mp h).resolve_right fun hmem => ?_)
      exact heq (mem_singleton.mp hmem)

end

open KeyedTable
variable (T : PendingSyncs) (enabled : Bool) (limit : ℤ) (locked : String → Bool)
  (cancelAt : Option ℕ) (outcomes : Outcomes) (now : ℤ)

/-- Every claimed event was synced or is in the queue again. -/
def Lossless : Prop :=
  ∀ id ∈ claimedBy T enabled limit locked cancelAt,
    (drainPendingMeilisearchSyncBatch T enabled limit locked cancelAt outcomes now).Keeps id

/-- If the events are sent one by one, the context is alive when one that fails is inserted. -/
def AliveAtFailures : Prop :=
  ∀ err, outcomes.batch = some (.other err) →
    ∀ i id, (claimedBy T enabled limit locked cancelAt)[i]? = some id →
      outcomes.event id = none ∨ isCancelled cancelAt (4 + 2 * i + 1) = false

theorem nodup_claimedIDs (n : ℕ) : (claimedIDs T n locked).Nodup := by
  have hperm := (List.perm_insertionSort marksFirst (T.rows.filter fun row => !locked row.1)).map
    Prod.fst
  have hsorted := hperm.nodup_iff.mpr (T.nodup.sublist (List.filter_sublist.map _))
  exact hsorted.sublist ((List.take_sublist _ _).map _)

variable {T enabled limit locked cancelAt outcomes now}

theorem claim_eq_ok {n : ℕ} {T' : PendingSyncs}
    (h : claimPendingMeilisearchSyncs T cancelAt n locked = .ok (ids, T')) :
    ids.Nodup ∧ ∀ id ∈ ids, T'.get id = none := by
  unfold claimPendingMeilisearchSyncs at h
  split_ifs at h
  obtain ⟨rfl, rfl⟩ := Prod.mk.inj (Except.ok.inj h)
  refine ⟨nodup_claimedIDs T locked n, fun id hid => ?_⟩
  refine Option.eq_none_iff_forall_ne_some.mpr fun row hrow => ?_
  exact of_decide_eq_false ((get_delete _).mp hrow).2 hid

theorem keeps_drainClaimed (hnd : ids.Nodup) (hgone : ∀ id ∈ ids, T.get id = none) :
    (∀ id ∈ ids, (drainClaimed cancelAt outcomes now ids T).Keeps id) ↔
      ∀ err, outcomes.batch = some (.other err) → ∀ i id, ids[i]? = some id →
        outcomes.event id = none ∨ isCancelled cancelAt (4 + 2 * i + 1) = false := by
  unfold drainClaimed
  split
  · rename_i hbatch
    exact iff_of_true (fun id hid => .inl hid) fun err h => nomatch hbatch.symm.trans h
  · rename_i hbatch
    exact iff_of_true (fun id hid => .inr (isSome_reinsert hid))
      fun err h => nomatch hbatch.symm.trans h
  · rename_i err hbatch
    have hkeeps : ∀ d : Drained, ∀ id, (if d.err.isNone ∧ 0 < d.processed then
        { d with err := some ("meilisearch batch sync fell back to per-event: " ++ err) }
        else d).Keeps id ↔ d.Keeps id := by
      intro d id
      split_ifs <;> exact Iff.rfl
    have hone : ∀ i id, ids[i]? = some id →
        ((syncEach cancelAt outcomes.event now 4 ⟨0, none, T, []⟩ ids).Keeps id ↔
          outcomes.event id = none ∨ isCancelled cancelAt (4 + 2 * i + 1) = false) := by
      intro i id hi
      refine keeps_syncEach hnd 4 i hi fun hkept => ?_
      simp [Drained.Keeps, hgone id (List.mem_of_getElem? hi)] at hkept
    constructor
    · intro hall _ _ i id hi
      exact (hone i id hi).mp ((hkeeps _ id).mp (hall id (List.mem_of_getElem? hi)))
    · intro halive id hid
      obtain ⟨i, hi⟩ := List.mem_iff_getElem?.mp hid
      exact (hkeeps _ id).mpr ((hone i id hi).mpr (halive err hbatch i id hi))

variable (T enabled limit locked cancelAt outcomes now)

/-- A drain loses no event exactly if its context is alive at the failures of single events. -/
theorem lossless_iff_aliveAtFailures : Lossless T enabled limit locked cancelAt outcomes now ↔
      AliveAtFailures T enabled limit locked cancelAt outcomes := by
  unfold Lossless AliveAtFailures claimedBy drainPendingMeilisearchSyncBatch
  by_cases hoff : enabled = false ∨ limit ≤ 0
  · simp [hoff]
  · simp only [if_neg hoff]
    cases hclaim : claimPendingMeilisearchSyncs T cancelAt limit.toNat locked with
    | error err => simp
    | ok claimed =>
      obtain ⟨ids, T'⟩ := claimed
      obtain ⟨hnd, hgone⟩ := claim_eq_ok hclaim
      cases ids with
      | nil => simp
      | cons id ids => exact keeps_drainClaimed hnd hgone

/-- One event whose batch and whose own sync are refused, while the process shuts down. -/
theorem shutdown_loses_event :
    claimedBy ⟨[("aa", 1)], List.nodup_singleton _⟩ true 10 (fun _ => false) (some 4) = ["aa"] ∧
      ¬ Lossless ⟨[("aa", 1)], List.nodup_singleton _⟩ true 10 (fun _ => false) (some 4)
        ⟨some (.other "invalid document"), fun _ => some "context canceled"⟩ 2 := by
  refine ⟨by decide, fun hall => ?_⟩
  have hkept := hall "aa" (by decide)
  revert hkept
  unfold Drained.Keeps
  decide

end NostrMash.Meilisearch
