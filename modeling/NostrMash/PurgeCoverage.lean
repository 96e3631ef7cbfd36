import NostrMash.UntrustedPurge

/-!
# What each statement of the purge sync keeps

An index is sound for the stored events when its rows belong to them and every event that a kind
cursor has passed is located: it is a candidate or deferred, its author is mirrored, or the resync
of its author has not reached it.
-/

namespace NostrMash.UntrustedPurge
open KeyedTable List Option
variable {T : Tables} {ix : Index} {id pubkey p : String} {row : EventRow}
  {last : String × EventRow}

def Stored (T : Tables) (id : String) (row : EventRow) : Prop :=
  ∃ stored, T.events.get id = some stored ∧ stored.pubkey = row.pubkey ∧ stored.kind = row.kind

def Indexed (ix : Index) (id pubkey : String) : Prop :=
  (ix.candidates.get id).isSome ∨ (ix.deferred.get id).isSome ∨ pubkey ∈ ix.trustedPubkeys

def Queued (ix : Index) (id : String) (row : EventRow) : Prop :=
  ∃ cursor, ix.authorResync.get row.pubkey = some cursor ∧ cursor < createdKey (id, row)

structure Purgeable (T : Tables) (id : String) (row : EventRow) : Prop where
  stored : T.events.get id = some row
  kind : row.kind ∈ untrustedPurgeKinds
  noReply : ¬ T.IsReply id row

structure Sound (T : Tables) (ix : Index) : Prop where
  candidates : ∀ id c, ix.candidates.get id = some c → Stored T id c
  deferred : ∀ id d, ix.deferred.get id = some d → Stored T id d.toEventRow
  located : ∀ id row, Purgeable T id row → seenKey (id, row) ≤ ix.kindCursor row.kind →
    Indexed ix id row.pubkey ∨ Queued ix id row

theorem Purgeable.mem_rows (h : Purgeable T id row) : (id, row) ∈ T.events.rows :=
  KeyedTable.mem_rows.mpr h.stored

section
variable {rows : List (String × EventRow)} {aged : EventRow → Bool}

theorem Indexed.record (h : Indexed ix id pubkey) : Indexed (ix.record rows aged) id pubkey := by
  rcases h with h | h | h
  · exact .inl (isSome_get_insertAll_of_isSome h _)
  · exact .inr (.inl (isSome_get_insertAll_of_isSome h _))
  · exact .inr (.inr h)

theorem indexed_record (h : (id, row) ∈ rows) : Indexed (ix.record rows aged) id pubkey := by
  cases haged : aged row with
  | true => exact .inl (isSome_get_insertAll (mem_filter.mpr ⟨h, haged⟩))
  | false =>
    have hmem : (id, row) ∈ rows.filter fun e => !aged e.2 :=
      mem_filter.mpr ⟨h, by rw [haged]; rfl⟩
    exact .inr (.inl (isSome_get_insertAll (mem_map_of_mem hmem)))

theorem Sound.record (h : Sound T ix) (hrows : ∀ e ∈ rows, e ∈ T.events.rows) :
    Sound T (ix.record rows aged) where
  candidates := by
    intro id c hc
    rcases get_or_mem_of_get_insertAll hc with hc | hc
    · exact h.candidates id c hc
    · exact ⟨c, KeyedTable.mem_rows.mp (hrows _ (mem_filter.mp hc).1), rfl, rfl⟩
  deferred := by
    intro id d hd
    rcases get_or_mem_of_get_insertAll hd with hd | hd
    · exact h.deferred id d hd
    · obtain ⟨e, he, heq⟩ := mem_map.mp hd
      obtain ⟨rfl, rfl⟩ := Prod.mk.inj heq
      exact ⟨e.2, KeyedTable.mem_rows.mp (hrows e (mem_filter.mp he).1), rfl, rfl⟩
  located := fun id row hp hseen => (h.located id row hp hseen).imp_left Indexed.record

theorem indexed_of_mem_page {page : List (String × EventRow)} (hp : Purgeable T id row)
    (hmem : (id, row) ∈ page)
    (htrusted : row.pubkey ∈ T.snapshot → row.pubkey ∈ ix.trustedPubkeys) :
    Indexed (ix.record (T.eligible page) aged) id row.pubkey := by
  by_cases h : row.pubkey ∈ T.snapshot
  · exact .inr (.inr (htrusted h))
  · exact indexed_record (mem_filter.mpr ⟨hmem, decide_eq_true ⟨h, hp.noReply⟩⟩)

end

section
variable {cursor : Cursor} {olderThan : ℤ}

theorem get_authorResync_dropResync_ne (h : p ≠ pubkey) :
    (ix.dropResync pubkey).authorResync.get p = ix.authorResync.get p := by
  refine Option.ext fun c => ?_
  rw [Index.dropResync, get_delete, and_iff_left (decide_eq_false h)]

theorem Sound.dropResync (h : Sound T ix)
    (hindexed : ∀ id row, Purgeable T id row → row.pubkey = pubkey → Queued ix id row →
      Indexed ix id row.pubkey) : Sound T (ix.dropResync pubkey) where
  candidates := h.candidates
  deferred := h.deferred
  located := by
    intro id row hp hseen
    rcases h.located id row hp hseen with hi | hq
    · exact .inl hi
    · by_cases hne : row.pubkey = pubkey
      · exact .inl (hindexed id row hp hne hq)
      · refine .inr ?_
        rw [Queued, get_authorResync_dropResync_ne hne]
        exact hq

theorem get_authorResync_advanceResync (p : String) :
    (ix.advanceResync pubkey cursor).authorResync.get p =
      (ix.authorResync.get p).map fun c => if p = pubkey then cursor else c := by
  rw [Index.advanceResync, get_update]
  simp only [decide_eq_true_eq]

theorem Sound.advanceResync (h : Sound T ix)
    (hindexed : ∀ id row, Purgeable T id row → row.pubkey = pubkey → Queued ix id row →
      createdKey (id, row) ≤ cursor → Indexed ix id row.pubkey) :
    Sound T (ix.advanceResync pubkey cursor) where
  candidates := h.candidates
  deferred := h.deferred
  located := by
    intro id row hp hseen
    rcases h.located id row hp hseen with hi | hq
    · exact .inl hi
    · have hq' := hq
      obtain ⟨c, hc, hlt⟩ := hq'
      rw [Queued, get_authorResync_advanceResync, hc]
      by_cases hne : row.pubkey = pubkey
      · rcases le_or_gt (createdKey (id, row)) cursor with hle | hgt
        · exact .inl (hindexed id row hp hne hq hle)
        · exact .inr ⟨cursor, congrArg some (if_pos hne), hgt⟩
      · exact .inr ⟨c, congrArg some (if_neg hne), hlt⟩

theorem Purgeable.mem_resyncRows (hp : Purgeable T id row) (hlt : cursor < createdKey (id, row)) :
    (id, row) ∈ T.events.rows.filter fun e =>
      e.2.pubkey = row.pubkey ∧ e.2.kind ∈ untrustedPurgeKinds ∧ cursor < createdKey e :=
  mem_filter.mpr ⟨hp.mem_rows, decide_eq_true ⟨rfl, hp.kind, hlt⟩⟩

theorem Purgeable.mem_resyncPage_of_le (hp : Purgeable T id row)
    (hlt : cursor < createdKey (id, row))
    (hlast : last ∈ (resyncUntrustedAuthorPage T row.pubkey cursor).getLast?)
    (hle : createdKey (id, row) ≤ createdKey last) :
    (id, row) ∈ resyncUntrustedAuthorPage T row.pubkey cursor := by
  refine mem_scan_of_le_last ?_ hlast (hp.mem_resyncRows hlt) hle
  intro a ha b hb heq
  exact eq_of_mem_rows (mem_of_mem_filter ha) (mem_of_mem_filter hb)
    (congrArg (fun c => (ofLex c).2) heq)

theorem sound_resyncUntrustedAuthor (h : Sound T ix)
    (hrow : ix.authorResync.get pubkey = some cursor)
    (htrusted : pubkey ∈ T.snapshot → pubkey ∈ ix.trustedPubkeys) :
    Sound T (resyncUntrustedAuthor T ix olderThan pubkey cursor) := by
  have hrecord : ∀ aged, Sound T
      (ix.record (T.eligible (resyncUntrustedAuthorPage T pubkey cursor)) aged) := fun aged =>
    h.record fun e he => mem_of_mem_filter (mem_of_mem_scan (mem_of_mem_filter he))
  have hbehind : ∀ {id row}, row.pubkey = pubkey → Queued ix id row →
      cursor < createdKey (id, row) := by
    rintro id row rfl ⟨c, hc, hlt⟩
    exact some.inj (hrow.symm.trans hc) ▸ hlt
  unfold resyncUntrustedAuthor
  dsimp only
  split_ifs with hshort
  · refine (hrecord _).dropResync fun id row hp hpub hq => ?_
    have hlt := hbehind hpub hq
    subst hpub
    have hmem := mem_scan_of_length_lt hshort (hp.mem_resyncRows hlt)
    exact indexed_of_mem_page hp hmem htrusted
  · cases hlast : (resyncUntrustedAuthorPage T pubkey cursor).getLast? with
    | none => exact hrecord _
    | some last =>
      refine (hrecord _).advanceResync fun id row hp hpub hq hle => ?_
      have hlt := hbehind hpub hq
      subst hpub
      exact indexed_of_mem_page hp (hp.mem_resyncPage_of_le hlt hlast hle) htrusted

end

section
variable {kind olderThan : ℤ}

theorem Sound.advanceKind {cursor : Cursor} (h : Sound T ix)
    (hindexed : ∀ id row, Purgeable T id row → row.kind = kind →
      ix.kindCursor kind < seenKey (id, row) → seenKey (id, row) ≤ cursor →
      Indexed ix id row.pubkey) : Sound T (ix.advanceKind kind cursor) where
  candidates := h.candidates
  deferred := h.deferred
  located := by
    intro id row hp hseen
    change seenKey (id, row) ≤ Function.update ix.kindCursor kind cursor row.kind at hseen
    by_cases hk : row.kind = kind
    · rw [hk, Function.update_self] at hseen
      rcases le_or_gt (seenKey (id, row)) (ix.kindCursor kind) with hle | hgt
      · exact h.located id row hp (hk.symm ▸ hle)
      · exact .inl (hindexed id row hp hk hgt hseen)
    · rw [Function.update_of_ne hk] at hseen
      exact h.located id row hp hseen

theorem firstSeenAt_le_of_seenKey_le {a b : String × EventRow} (h : seenKey a ≤ seenKey b) :
    a.2.firstSeenAt ≤ b.2.firstSeenAt := by
  rcases Prod.Lex.toLex_le_toLex.mp h with hlt | ⟨heq, -⟩
  · exact hlt.le
  · exact heq.le

theorem mem_backfillRows {e : String × EventRow} (h : e ∈ backfillPage T ix olderThan kind) :
    e ∈ T.events.rows ∧ e.2.kind = kind ∧ ix.kindCursor kind < seenKey e ∧
      e.2.firstSeenAt < olderThan := by
  obtain ⟨hmem, hcond⟩ := mem_filter.mp (mem_of_mem_scan h)
  exact ⟨hmem, of_decide_eq_true hcond⟩

theorem Purgeable.mem_backfillPage (hp : Purgeable T id row) (hk : row.kind = kind)
    (hlt : ix.kindCursor kind < seenKey (id, row))
    (hlast : last ∈ (backfillPage T ix olderThan kind).getLast?)
    (hle : seenKey (id, row) ≤ seenKey last) : (id, row) ∈ backfillPage T ix olderThan kind := by
  have haged : row.firstSeenAt < olderThan :=
    (firstSeenAt_le_of_seenKey_le hle).trans_lt
      (mem_backfillRows (List.mem_of_mem_getLast? hlast)).2.2.2
  refine mem_scan_of_le_last ?_ hlast
    (mem_filter.mpr ⟨hp.mem_rows, decide_eq_true ⟨hk, hlt, haged⟩⟩) hle
  intro a ha b hb heq
  exact eq_of_mem_rows (mem_of_mem_filter ha) (mem_of_mem_filter hb)
    (congrArg (fun c => (ofLex c).2) heq)

theorem sound_backfillUntrustedKindPage {pending : Index} {full : Bool} (h : Sound T ix)
    (hpresent : T.snapshot ≠ [])
    (htrusted : ∀ e ∈ T.events.rows, e.2.kind = kind → ix.kindCursor kind < seenKey e →
      e.2.firstSeenAt < olderThan → e.2.pubkey ∈ T.snapshot → e.2.pubkey ∈ ix.trustedPubkeys)
    (hpage : backfillUntrustedKindPage T ix olderThan kind = some (pending, full)) :
    Sound T pending := by
  obtain ⟨last, hlast, heq⟩ := map_eq_some_iff.mp hpage
  obtain ⟨rfl, -⟩ := Prod.mk.inj heq
  rw [if_neg hpresent]
  have hrows : ∀ e ∈ T.eligible (backfillPage T ix olderThan kind), e ∈ T.events.rows :=
    fun e he => (mem_backfillRows (mem_of_mem_filter he)).1
  refine (h.record hrows).advanceKind fun id row hp hk hlt hle => ?_
  have hmem := hp.mem_backfillPage hk hlt hlast hle
  obtain ⟨hrow, -, -, haged⟩ := mem_backfillRows hmem
  exact indexed_of_mem_page hp hmem (htrusted _ hrow hk hlt haged)

end

section
variable {olderThan : ℤ}

theorem mem_dueDeferred {d : String × DeferredRow} (h : d ∈ dueDeferred ix olderThan) :
    ix.deferred.get d.1 = some d.2 ∧ d.2.eligibleAt ≤ olderThan := by
  obtain ⟨hmem, hdue⟩ := mem_filter.mp (mem_of_mem_scan h)
  exact ⟨KeyedTable.mem_rows.mp hmem, of_decide_eq_true hdue⟩

theorem stored_of_mem_promotedDeferred (h : Sound T ix)
    (hmem : (id, row) ∈ promotedDeferred T ix olderThan) : Stored T id row := by
  obtain ⟨d, hd, heq⟩ := mem_map.mp (mem_of_mem_filter hmem)
  obtain ⟨rfl, rfl⟩ := Prod.mk.inj heq
  exact h.deferred d.1 d.2 (mem_dueDeferred hd).1

theorem indexed_of_dropsDeferred {d : DeferredRow} (h : Sound T ix) (hp : Purgeable T id row)
    (htrusted : ∀ d ∈ ix.deferred.rows, d.2.eligibleAt ≤ olderThan → d.2.pubkey ∈ T.snapshot →
      d.2.pubkey ∈ ix.trustedPubkeys) (hdrop : dropsDeferred T ix olderThan id d = true) :
    Indexed (promoteDeferredUntrusted T ix olderThan).1 id row.pubkey := by
  obtain ⟨hdue, -, hcase⟩ := of_decide_eq_true hdrop
  obtain ⟨hget, helig⟩ := mem_dueDeferred hdue
  obtain ⟨stored, hstored, hpub, hkind⟩ := h.deferred id d hget
  obtain rfl := some.inj (hp.stored.symm.trans hstored)
  rcases hcase with hins | hcand | htrust | hreply
  · obtain ⟨e, he, rfl⟩ := mem_map.mp hins
    exact .inl (isSome_get_insertAll he)
  · exact .inl (isSome_get_insertAll_of_isSome hcand _)
  · refine .inr (.inr ?_)
    rw [hpub]
    exact htrusted (id, d) (KeyedTable.mem_rows.mpr hget) helig htrust
  · exact absurd ⟨hkind.trans hreply.1, hreply.2⟩ hp.noReply

theorem sound_promoteDeferredUntrusted (h : Sound T ix)
    (htrusted : ∀ d ∈ ix.deferred.rows, d.2.eligibleAt ≤ olderThan → d.2.pubkey ∈ T.snapshot →
      d.2.pubkey ∈ ix.trustedPubkeys) : Sound T (promoteDeferredUntrusted T ix olderThan).1 where
  candidates := by
    intro id c hc
    rcases get_or_mem_of_get_insertAll hc with hc | hc
    · exact h.candidates id c hc
    · exact stored_of_mem_promotedDeferred h hc
  deferred := fun id d hd => h.deferred id d ((get_delete _).mp hd).1
  located := by
    intro id row hp hseen
    rcases h.located id row hp hseen with (hcand | hdef | hmirror) | hq
    · exact .inl (.inl (isSome_get_insertAll_of_isSome hcand _))
    · obtain ⟨d, hd⟩ := isSome_iff_exists.mp hdef
      cases hdrop : dropsDeferred T ix olderThan id d with
      | true => exact .inl (indexed_of_dropsDeferred h hp htrusted hdrop)
      | false =>
        exact .inl (.inr (.inl (isSome_get_delete hd hdrop)))
    · exact .inl (.inr (.inr hmirror))
    · exact .inr hq

end

theorem mem_trustedPubkeys_diff :
    p ∈ (diffUntrustedTrustMirror T ix).trustedPubkeys ↔ p ∈ T.snapshot := by
  simp only [diffUntrustedTrustMirror, mem_append, mem_filter, decide_eq_true_eq]
  tauto

theorem authorResync_diff_of_removed (hmirror : p ∈ ix.trustedPubkeys) (hleft : p ∉ T.snapshot) :
    ((diffUntrustedTrustMirror T ix).authorResync.get p).isSome := by
  have hremoved : p ∈ ix.trustedPubkeys.filter fun p => p ∉ T.snapshot :=
    mem_filter.mpr ⟨hmirror, decide_eq_true hleft⟩
  exact isSome_get_insertAll (mem_map_of_mem hremoved)

theorem resyncStart_lt (h : 0 ≤ row.createdAt) : resyncStart < createdKey (id, row) :=
  Prod.Lex.toLex_lt_toLex.mpr (.inl (show -1 < row.createdAt by omega))

theorem queued_diff (hcreated : 0 ≤ row.createdAt) (hmirror : row.pubkey ∈ ix.trustedPubkeys)
    (hleft : row.pubkey ∉ T.snapshot)
    (hfresh : ∀ c, ix.authorResync.get row.pubkey = some c → c = resyncStart) :
    Queued (diffUntrustedTrustMirror T ix) id row := by
  obtain ⟨c, hc⟩ := isSome_iff_exists.mp (authorResync_diff_of_removed hmirror hleft)
  refine ⟨c, hc, ?_⟩
  rcases get_or_mem_of_get_insertAll hc with hold | hnew
  · exact hfresh c hold ▸ resyncStart_lt hcreated
  · obtain ⟨p, -, heq⟩ := mem_map.mp hnew
    exact (Prod.mk.inj heq).2 ▸ resyncStart_lt hcreated

theorem sound_diffUntrustedTrustMirror (h : Sound T ix)
    (hcreated : ∀ id row, T.events.get id = some row → 0 ≤ row.createdAt)
    (hfresh : ∀ p ∈ ix.trustedPubkeys, p ∉ T.snapshot →
      ∀ c, ix.authorResync.get p = some c → c = resyncStart) :
    Sound T (diffUntrustedTrustMirror T ix) where
  candidates := fun id c hc => h.candidates id c ((get_delete _).mp hc).1
  deferred := fun id d hd => h.deferred id d ((get_delete _).mp hd).1
  located := by
    intro id row hp hseen
    by_cases htrust : row.pubkey ∈ T.snapshot
    · exact .inl (.inr (.inr (mem_trustedPubkeys_diff.mpr htrust)))
    rcases h.located id row hp hseen with (hcand | hdef | hmirror) | hq
    · obtain ⟨c, hc⟩ := isSome_iff_exists.mp hcand
      obtain ⟨stored, hstored, hpub, -⟩ := h.candidates id c hc
      obtain rfl := some.inj (hp.stored.symm.trans hstored)
      exact .inl (.inl (isSome_get_delete hc (decide_eq_false (hpub ▸ htrust))))
    · obtain ⟨d, hd⟩ := isSome_iff_exists.mp hdef
      obtain ⟨stored, hstored, hpub, -⟩ := h.deferred id d hd
      obtain rfl := some.inj (hp.stored.symm.trans hstored)
      exact .inl (.inr (.inl (isSome_get_delete hd (decide_eq_false (hpub ▸ htrust)))))
    · have hqueue := hfresh _ hmirror htrust
      exact .inr (queued_diff (hcreated id row hp.stored) hmirror htrust hqueue)
    · obtain ⟨c, hc, hlt⟩ := hq
      exact .inr ⟨c, by rw [diffUntrustedTrustMirror, get_insertAll, hc, some_or], hlt⟩

end NostrMash.UntrustedPurge
