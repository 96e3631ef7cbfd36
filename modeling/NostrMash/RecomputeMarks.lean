import NostrMash.PendingRecomputes

/-!
# No mark is lost

A row is deleted only by a sweeper whose claim has seen the last mark of the author, and that has
rebuilt the statistics since.
-/

namespace NostrMash.Recompute
open AuthorStats KeyedTable List

section
variable {τ : Type}

/-- Every mark of an author is pending, or a rebuild that started after it has succeeded. -/
def NoMarkLost (s : State τ) : Prop :=
  ∀ sweep pubkey i, i < (s.marks sweep pubkey).length →
    ((s.pending sweep).get pubkey).isSome = true ∨
      ∃ seen, ⟨sweep, pubkey, seen⟩ ∈ s.rebuilds ∧ i < seen

def DistinctMarks (stored : String → Option EventContent) (s : State τ) : Act τ → Prop
  | .mark sweep affected eventID now =>
    ∀ pubkey ∈ (dirtyPubkeys stored sweep affected eventID).toOption.getD [],
      now ∉ s.marks sweep pubkey
  | _ => True

instance (stored : String → Option EventContent) (s : State τ) :
    (a : Act τ) → Decidable (DistinctMarks stored s a)
  | .mark _ _ _ _ => inferInstanceAs (Decidable (∀ _ ∈ _, _))
  | .claim _ _ _ _ | .startRebuild _ | .finishRebuild _ | .failRebuild _ | .release _
  | .deleteRow _ | .clear _ | .quit _ => isTrue trivial

end

section
variable {T : PendingTable} {pubkey : String} {now : ℤ} {pubkeys : List String}

theorem get_markDirty_self (T : PendingTable) (now : ℤ) (h : pubkey ∈ pubkeys) :
    ∃ row, (markDirty pubkeys now T).get pubkey = some row ∧ row.markedAt = now := by
  -- the last mark of the author in the list is the one that stays
  induction pubkeys using List.reverseRecOn with
  | nil => exact nomatch h
  | append_singleton pubkeys key ih =>
    have hlast : markDirty (pubkeys ++ [key]) now T = (markDirty pubkeys now T).upsert key
        ⟨now, none, none⟩ fun row => { row with markedAt := now } := by
      rw [markDirty, foldl_append]
      rfl
    rw [hlast]
    by_cases hkey : pubkey = key
    · subst hkey
      rw [get_upsert_self]
      refine ⟨_, rfl, ?_⟩
      cases (markDirty pubkeys now T).get pubkey <;> rfl
    · rw [get_upsert_ne hkey]
      refine ih ((mem_append.mp h).resolve_right fun hmem => ?_)
      exact hkey (mem_singleton.mp hmem)

theorem get_markDirty_ne (h : pubkey ∉ pubkeys) :
    (markDirty pubkeys now T).get pubkey = T.get pubkey := by
  induction pubkeys generalizing T with
  | nil => rfl
  | cons key pubkeys ih =>
    rw [← get_upsert_ne (T := T) (ne_of_not_mem_cons h) ⟨now, none, none⟩
      fun row => { row with markedAt := now }]
    exact ih (not_mem_of_not_mem_cons h)

theorem get_update_markedAt (T : PendingTable) (p : String → PendingRow → Bool)
    {f : PendingRow → PendingRow} (pubkey : String) (hf : ∀ row, (f row).markedAt = row.markedAt) :
    (∀ row', (T.update p f).get pubkey = some row' →
      ∃ row, T.get pubkey = some row ∧ row'.markedAt = row.markedAt) ∧
      ((T.update p f).get pubkey = none → T.get pubkey = none) := by
  rw [get_update]
  refine ⟨fun row' h => ?_, fun h => Option.map_eq_none_iff.mp h⟩
  obtain ⟨row, hrow, rfl⟩ := Option.map_eq_some_iff.mp h
  refine ⟨row, hrow, ?_⟩
  split_ifs
  · exact hf row
  · rfl

theorem claimPending_eq_some {ctx : ClaimContext} {token : String} {c : Claim} {T' : PendingTable}
    (h : claimPending ctx token T = some (c, T')) :
    (∃ row, T.get c.pubkey = some row ∧ row.markedAt = c.markedAt) ∧
      ∃ p, T' = T.update p fun old =>
        { old with claimedAt := some ctx.now, claimToken := some token } := by
  obtain ⟨row, hfind, heq⟩ := Option.map_eq_some_iff.mp h
  obtain ⟨rfl, rfl⟩ := Prod.mk.inj heq
  have hmem : row ∈ (T.rows.filter fun row => ctx.claimable row.1 row.2).insertionSort marksFirst :=
    mem_of_mem_take (List.mem_of_find?_eq_some hfind)
  have hrow := (mem_filter.mp ((perm_insertionSort _ _).mem_iff.mp hmem)).1
  exact ⟨⟨row.2, mem_rows.mp hrow, rfl⟩, _, rfl⟩

end

variable {τ : Type} {s s' : State τ} {sweep : Sweep} {pubkey : String} {n : ℕ}

def State.Covered (s : State τ) (sweep : Sweep) (pubkey : String) (n : ℕ) : Prop :=
  n = 0 ∨ ∃ seen, ⟨sweep, pubkey, seen⟩ ∈ s.rebuilds ∧ n ≤ seen

def State.Saw (s : State τ) (sweep : Sweep) (c : Claim) (n : ℕ) : Prop :=
  ∃ newer older, s.marks sweep c.pubkey = newer ++ c.markedAt :: older ∧ older.length + 1 = n

def State.Backs (s : State τ) : Phase → Prop
  | .idle => True
  | .claimed sweep c | .failed sweep c => ∃ n, s.Saw sweep c n
  | .rebuilding sweep c seen => ∃ n, s.Saw sweep c n ∧ n ≤ seen
  | .rebuilt sweep c | .unmatched sweep c => ∃ n, s.Saw sweep c n ∧ s.Covered sweep c.pubkey n

structure Inv (s : State τ) : Prop where
  distinct : ∀ sweep pubkey, (s.marks sweep pubkey).Nodup
  latest : ∀ sweep pubkey row, (s.pending sweep).get pubkey = some row →
    (s.marks sweep pubkey).head? = some row.markedAt
  covered : ∀ sweep pubkey, (s.pending sweep).get pubkey = none →
    s.Covered sweep pubkey (s.marks sweep pubkey).length
  workers : ∀ w, s.Backs (s.phase w)

theorem inv_init : Inv (init : State τ) where
  distinct _ _ := nodup_nil
  latest _ _ _ h := nomatch h
  covered _ _ _ := .inl rfl
  workers _ := trivial

theorem noMarkLost_of_inv (h : Inv s) : NoMarkLost s := by
  intro sweep pubkey i hi
  cases hrow : (s.pending sweep).get pubkey with
  | some row => exact .inl rfl
  | none =>
    rcases h.covered sweep pubkey hrow with hzero | ⟨seen, hmem, hle⟩
    · omega
    · exact .inr ⟨seen, hmem, by omega⟩

theorem State.Covered.mono (h : s.Covered sweep pubkey n)
    (hrebuilds : ∀ r ∈ s.rebuilds, r ∈ s'.rebuilds) : s'.Covered sweep pubkey n :=
  h.imp_right fun ⟨seen, hmem, hle⟩ => ⟨seen, hrebuilds _ hmem, hle⟩

theorem State.Backs.mono {p : Phase} (h : s.Backs p)
    (hsaw : ∀ sweep c n, s.Saw sweep c n → s'.Saw sweep c n)
    (hrebuilds : ∀ r ∈ s.rebuilds, r ∈ s'.rebuilds) : s'.Backs p := by
  cases p with
  | idle => trivial
  | claimed sweep c => exact h.imp fun n => hsaw sweep c n
  | failed sweep c => exact h.imp fun n => hsaw sweep c n
  | rebuilding sweep c seen => exact h.imp fun n hn => ⟨hsaw sweep c n hn.1, hn.2⟩
  | rebuilt sweep c => exact h.imp fun n hn => ⟨hsaw sweep c n hn.1, hn.2.mono hrebuilds⟩
  | unmatched sweep c => exact h.imp fun n hn => ⟨hsaw sweep c n hn.1, hn.2.mono hrebuilds⟩

variable [DecidableEq τ] {q : Phase} {w : τ}

theorem Inv.sweeper (h : Inv s) (hmarks : s'.marks = s.marks)
    (hrebuilds : ∀ r ∈ s.rebuilds, r ∈ s'.rebuilds)
    (hrows : ∀ sweep pubkey row', (s'.pending sweep).get pubkey = some row' →
      ∃ row, (s.pending sweep).get pubkey = some row ∧ row'.markedAt = row.markedAt)
    (hgone : ∀ sweep pubkey, (s'.pending sweep).get pubkey = none →
      (s.pending sweep).get pubkey = none ∨ s.Covered sweep pubkey (s.marks sweep pubkey).length)
    (hphase : s'.phase = Function.update s.phase w q) (hq : s'.Backs q) : Inv s' where
  distinct sweep pubkey := hmarks ▸ h.distinct sweep pubkey
  latest sweep pubkey row' hrow' := by
    obtain ⟨row, hrow, hat⟩ := hrows sweep pubkey row' hrow'
    rw [hmarks, hat]
    exact h.latest sweep pubkey row hrow
  covered sweep pubkey hnone := by
    rw [hmarks]
    rcases hgone sweep pubkey hnone with hold | hcovered
    · exact (h.covered sweep pubkey hold).mono hrebuilds
    · exact hcovered.mono hrebuilds
  workers u := by
    rw [hphase]
    by_cases hu : u = w
    · subst hu
      rwa [Function.update_self]
    · rw [Function.update_of_ne hu]
      refine (h.workers u).mono (fun sweep c n hsaw => ?_) hrebuilds
      rwa [State.Saw, hmarks]

theorem Inv.goto (h : Inv s) (hq : (s.goto w q).Backs q) : Inv (s.goto w q) :=
  h.sweeper rfl (fun _ hr => hr) (fun _ _ row hrow => ⟨row, hrow, rfl⟩) (fun _ _ => .inl) rfl hq

theorem Inv.setPending {T : PendingTable} (h : Inv s)
    (hrows : ∀ pubkey row', T.get pubkey = some row' →
      ∃ row, (s.pending sweep).get pubkey = some row ∧ row'.markedAt = row.markedAt)
    (hgone : ∀ pubkey, T.get pubkey = none → (s.pending sweep).get pubkey = none ∨
      s.Covered sweep pubkey (s.marks sweep pubkey).length)
    (hq : ((s.setPending sweep T).goto w q).Backs q) : Inv ((s.setPending sweep T).goto w q) := by
  refine h.sweeper rfl (fun _ hr => hr) (fun sweep' pubkey row' hrow' => ?_)
    (fun sweep' pubkey hnone => ?_) rfl hq
  · by_cases hs : sweep' = sweep
    · subst hs
      exact hrows pubkey row' (by simpa [State.setPending, State.goto] using hrow')
    · exact ⟨row', by simpa [State.setPending, State.goto, hs] using hrow', rfl⟩
  · by_cases hs : sweep' = sweep
    · subst hs
      exact hgone pubkey (by simpa [State.setPending, State.goto] using hnone)
    · exact .inl (by simpa [State.setPending, State.goto, hs] using hnone)

end NostrMash.Recompute
