import NostrMash.AccountWriters

/-!
# Effective states under concurrent writers

The stored state of an account follows from its derived state, override and tracked mark as long as
no writer uses a stale override, mark or derived state, and an override is cleared only on accounts
that are not tracked.
-/

namespace NostrMash.Account
open ReadCommitted Machine Session List

section
variable {τ : Type*} [DecidableEq τ] {s s' : Database τ} {T : Table}

def Sound : Database τ → Prop :=
  Session.Holds (fun T => ∀ r ∈ T.rows, r.Effective) fun _ _ ws _ => ∀ r ∈ ws, r.Effective

theorem effective_foldl_put (ws : List Row) (T : Table) (hT : ∀ r ∈ T.rows, r.Effective)
    (hws : ∀ r ∈ ws, r.Effective) : ∀ r ∈ (ws.foldl Table.put T).rows, r.Effective := by
  induction ws generalizing T with
  | nil => exact hT
  | cons w ws ih =>
    apply ih
    · intro r hr
      rcases Table.mem_put.mp hr with rfl | ⟨hmem, _⟩
      · exact hws r (.head _)
      · exact hT r hmem
    · exact fun r hr => hws r (mem_cons_of_mem w hr)

theorem sound_view (h : Sound s) (t : τ) : ∀ r ∈ (s.view schema t).rows, r.Effective :=
  effective_foldl_put (s.own t) s.committed h.1 (h.2 t)

theorem sound_goto (h : Sound s) (t : τ) (p : Phase) : Sound (s.goto t p) :=
  holds_goto h (h.2 t)

theorem sound_write (h : Sound s) {t : τ} {ws : List Row} {p : Phase}
    (hw : s.write schema t ws p = some s') (hws : ∀ r ∈ ws, r.Effective) : Sound s' :=
  holds_write h hw (forall_mem_append.mpr ⟨h.2 t, hws⟩)

theorem sound_commit (h : Sound s) (t : τ) (p : Phase) : Sound (s.commit schema t p) :=
  holds_commit (sound_view h t) (by simp) fun u _ => h.2 u

theorem effective_inserted {q : Row} (hq : q.Effective) :
    ∀ r ∈ T.inserted q, r.Effective := by
  intro r hr
  unfold Table.inserted at hr
  split_ifs at hr
  · exact nomatch hr
  · rwa [mem_singleton.mp hr]

theorem effective_updated {p : Pubkey} {f : Row → Row} (hf : ∀ r ∈ T.find p, (f r).Effective) :
    ∀ r ∈ T.updated p f, r.Effective := by
  intro r hr
  rw [Table.updated, Option.mem_toList] at hr
  obtain ⟨q, hq, rfl⟩ := Option.mem_map.mp hr
  exact hf q hq

theorem effective_observedRow (hT : ∀ r ∈ T.rows, r.Effective) (now : ℤ) (p : Pubkey) (delta : ℤ) :
    (T.observedRow now p delta).Effective := by
  unfold Table.observedRow
  split
  · next r hr => exact hT r (Table.mem_of_find hr).1
  · exact Row.effective_unknownAccountState now p

theorem sound_step {a : Action τ} (h : Sound s) (hg : Fresh s a) (hs : step s a = some s') :
    Sound s' := by
  cases a <;> simp only [step] at hs <;> split at hs <;> try simp only [reduceCtorEq] at hs
  -- list, next
  · split_ifs at hs
    cases hs
    exact sound_goto h _ _
  · cases hs
    exact sound_goto h _ _
  · split_ifs at hs <;> rw [← Option.some.inj hs] <;> exact sound_goto h _ _
  -- applyUpdate
  · next hp =>
    simp only [Fresh, hp] at hg
    refine sound_write h hs (effective_updated fun r hr => ?_)
    obtain ⟨ho, hmark⟩ := hg r hr
    apply Row.effective_stateUpdate
    unfold SignalRow.effective
    rw [← ho]
    cases hov : r.manualOverride with
    | some st => rfl
    | none => rw [hmark hov]
  -- beginOverride, loadForOverride, insertUnknown
  · cases hs
    exact sound_goto h _ _
  · split at hs <;> rw [← Option.some.inj hs] <;> exact sound_goto h _ _
  · exact sound_write h hs (effective_inserted (Row.effective_unknownAccountState _ _))
  -- applyOverride
  · next hp =>
    simp only [Fresh, hp] at hg
    split at hs <;> try simp only [reduceCtorEq] at hs
    next arg harg =>
    refine sound_write h hs (effective_updated fun r hr => Row.effective_manualOverride _ ?_)
    cases arg with
    | some st => rfl
    | none =>
      obtain ⟨hmark, hd⟩ := hg harg r hr
      rw [hmark, effectiveState_untracked, hd]
      rfl
  -- beginPromote, insertTracked, promote
  · cases hs
    exact sound_goto h _ _
  · exact sound_write h hs (effective_inserted rfl)
  · refine sound_write h hs (effective_updated fun r hr => Row.effective_promote _ ?_)
    exact sound_view h _ r (Table.mem_of_find hr).1
  -- observe
  · split_ifs at hs
    obtain ⟨u, hu, rfl⟩ := Option.map_eq_some_iff.mp hs
    refine sound_commit (sound_write h hu (forall_mem_map.mpr fun d _ => ?_)) _ _
    exact effective_observedRow (sound_view h _) _ d.1 d.2
  -- commit, rollback
  · cases hs
    exact sound_commit h _ _
  · cases hs
    exact sound_commit h _ _
  all_goals
    cases hs
    exact holds_rollback h (by simp)

/-- In every run whose updates are fresh, every committed row holds the effective state of its
derived state, override and tracked mark, and an account with a blocked override is in the blocked
set. -/
theorem effective_of_fresh (T : Table) (hT : ∀ r ∈ T.rows, r.Effective) (as : List (Action τ))
    (hg : Guarded step Fresh (Session.start T .idle) as)
    (hr : run step (Session.start T .idle) as = some s) : ∀ r ∈ s.committed.rows,
      r.state = effectiveState r.derivedState r.manualOverride r.firstTrackedAt.isSome ∧
        (r.manualOverride = some .blocked →
          r.pubkey ∈ s.committed.loadPubkeysByStates [.blocked]) := by
  have hsound : Sound s :=
    run_invariant (fun _ _ _ => sound_step) (holds_start hT fun _ => by simp) hg hr
  intro r hmem
  have heff : r.Effective := hsound.1 r hmem
  refine ⟨heff, fun hb => ?_⟩
  have hstate : r.state = .blocked := by
    rw [heff, hb]
    rfl
  exact mem_map_of_mem (mem_filter.mpr ⟨hmem, by simp [hstate]⟩)

end

def sampleRow : Row := Row.unknownAccountState 0 ⟨"aa", by decide, by decide⟩

def sampleTable : Table := ⟨[sampleRow], List.nodup_singleton _⟩

def sampleProjections : Projections where
  trustHops := fun _ => some 0
  hasProfile := fun _ => false
  noteCount := fun _ => none

def sampleList (heap : List Row) : Action Bool :=
  .list false sampleProjections ⟨0, 500⟩ 1 heap

def sampleApply : List (Action Bool) := [.next false 3, .applyUpdate false, .commit false]

def sampleOverride (override : String) : List (Action Bool) :=
  [.beginOverride true 2 "AA " override, .loadForOverride true, .applyOverride true, .commit true]

def samplePromote : List (Action Bool) :=
  [.beginPromote true 1 "aa", .insertTracked true, .promote true, .commit true]

def outcome (as : List (Action Bool)) : Option (List Row) :=
  (run step (Session.start sampleTable .idle) as).bind fun s =>
    if s.pending.isEmpty ∧ ∀ t, s.phase t = .idle then some s.committed.rows else none

/-- A recompute that applies what it has read before the account is blocked. -/
theorem effective_apply_then_block :
    outcome (sampleList [sampleRow] :: sampleApply ++ sampleOverride "blocked" ++ [.next false 4]) =
      some [{ sampleRow with
        state := .blocked, derivedState := .trusted, manualOverride := some .blocked,
        updatedAt := 2 }] ∧
    ∀ s, run step (Session.start sampleTable .idle)
        (sampleList [sampleRow] :: sampleApply ++ sampleOverride "blocked" ++ [.next false 4]) =
          some s →
      ∀ r ∈ s.committed.rows,
        r.state = effectiveState r.derivedState r.manualOverride r.firstTrackedAt.isSome ∧
          (r.manualOverride = some .blocked →
            r.pubkey ∈ s.committed.loadPubkeysByStates [.blocked]) := by
  refine ⟨by decide, fun s hs => ?_⟩
  exact effective_of_fresh sampleTable (by decide) _ (by decide) hs

/-- A recompute that has read its signals before the override takes a blocked account out of the
blocked set, and clearing an override takes a tracked account back to its derived state. -/
theorem override_lost_to_stale_recompute :
    outcome (sampleList [sampleRow] :: sampleOverride "blocked" ++ sampleApply ++ [.next false 4]) =
      some [{ sampleRow with
        state := .trusted, derivedState := .trusted, manualOverride := some .blocked,
        updatedAt := 3 }] ∧
    effectiveState .trusted (some .blocked) false = .blocked ∧
    outcome (samplePromote ++ sampleOverride "") =
      some [{ sampleRow with state := .unknown, firstTrackedAt := some 1, updatedAt := 2 }] ∧
    effectiveState .unknown none true = .tracked := by
  refine ⟨by decide, rfl, by decide, rfl⟩

end NostrMash.Account
