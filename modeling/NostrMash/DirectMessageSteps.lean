import NostrMash.DirectMessageRuns

/-!
# Steps of the projections of direct messages

Each step keeps the invariant, provided that no message is stored and no deletion of one commits
while another transaction is between computing and writing a counter of it.
-/

namespace NostrMash.DirectMessages
open KeyedTable Replaceable List
variable {cursors : Cursors} {P : List String} {T : Tables} {own : List Write} {p : Phase}
  {d : Deletion} {source : Option String}

section
variable {receiver sender : String} {rows : List UnreadRow}

theorem Phase.Found.counting (h : p.Found receiver sender rows) : p.Counting receiver sender := by
  cases p with
  | pairCounted => exact ⟨h.1, h.2.1⟩
  | allCounted => exact ⟨h.1, h.2.1⟩
  | _ => exact h

theorem Phase.Found.mem_todo (h : p.Found receiver sender rows) : receiver ∈ p.todo := by
  cases p with
  | pairCounted => exact h.1 ▸ (.head _)
  | allCounted => exact h.1 ▸ (.head _)
  | _ => exact h.elim

theorem source_eq_some {id : String} (h : p.source = some id) :
    ∃ j, p.job = some j ∧ j.projects = true ∧ j.id = id := by
  unfold Phase.source at h
  obtain ⟨j, hj, hid⟩ := Option.bind_eq_some_iff.mp h
  split_ifs at hid with hprojects
  exact ⟨j, hj, hprojects, Option.some.inj hid⟩

theorem txInv_idle : TxInv cursors P T [] .idle where
  idle _ := rfl
  recorded _ h := nomatch h
  deletion _ h := nomatch h
  job _ h := nomatch h
  other _ h := nomatch h
  valid _ h := nomatch h
  written _ h := nomatch h
  found _ _ _ h := h.elim
  right _ _ h := absurd h.choose_spec not_mem_nil

end

section
variable {id : String} {e : StoredEvent} {receiver sender : String}

def stored (T : Tables) (id : String) (e : StoredEvent) : Tables :=
  { T with events := T.events.upsert id e fun _ => e }

theorem get_stored_self : (stored T id e).events.get id = some e := by
  rw [stored, get_upsert_self]
  cases T.events.get id <;> rfl

theorem get_stored_of_some (hid : id ∉ T.events.keys) {x : String} {e' : StoredEvent}
    (h : T.events.get x = some e') : (stored T id e).events.get x = some e' := by
  have hne : x ≠ id := by
    rintro rfl
    exact hid (mem_keys.mpr (by rw [h]; rfl))
  rw [stored, get_upsert_ne hne, h]

theorem owed_stored (hid : id ∉ T.events.keys) (h : Owed P T source receiver sender) :
    Owed P (stored T id e) source receiver sender := by
  obtain ⟨x, e', hx, hP, hsource, htouch⟩ := h
  exact ⟨x, e', get_stored_of_some hid hx, hP, hsource, htouch⟩

theorem unread_foldl_stored (hr : ValidReceiver receiver) (hid : id ∉ T.events.keys)
    (h : ¬ Touches e.toEventContent receiver sender) :
    unread cursors (own.foldl Write.apply (stored T id e)) receiver sender =
      unread cursors (own.foldl Write.apply T) receiver sender := by
  have hkeys : id ∉ (own.foldl Write.apply T).events.keys := by rwa [events_foldl]
  refine Eq.trans ?_ (unread_store hr hkeys h)
  rw [stored, foldl_store, events_foldl]

theorem cnt_foldl_stored : cnt (own.foldl Write.apply (stored T id e)) receiver
    sender = cnt (own.foldl Write.apply T) receiver sender := by
  rw [stored, foldl_store]
  rfl

theorem right_stored (hr : ValidReceiver receiver) (hP : ∀ x ∈ P, (T.events.get x).isSome)
    (hid : id ∉ T.events.keys) (hsource : some id ≠ source)
    (h : Right cursors (own.foldl Write.apply T) receiver sender ∨
      Owed P T source receiver sender) :
    Right cursors (own.foldl Write.apply (stored T id e)) receiver sender ∨
      Owed P (stored T id e) source receiver sender := by
  by_cases htouch : Touches e.toEventContent receiver sender
  · refine .inr ⟨id, e, get_stored_self, fun hmem => ?_, hsource, htouch⟩
    exact hid (mem_keys.mpr (hP id hmem))
  · refine h.imp (fun hright => ?_) (owed_stored hid)
    rwa [Right, unread_foldl_stored hr hid htouch, cnt_foldl_stored]

theorem txInv_stored (h : TxInv cursors P T own p) (hP : ∀ x ∈ P, (T.events.get x).isSome)
    (hid : id ∉ T.events.keys) (hcount : ∀ receiver sender, p.Counting receiver sender →
      ¬ Touches e.toEventContent receiver sender) : TxInv cursors P (stored T id e) own p where
  idle := h.idle
  recorded := h.recorded
  deletion := h.deletion
  job j hj := ⟨get_stored_of_some hid (h.job j hj).1, (h.job j hj).2⟩
  other target htarget := by
    obtain ⟨e', he', hkind⟩ := h.other target htarget
    exact ⟨e', get_stored_of_some hid he', hkind⟩
  valid := h.valid
  written := h.written
  found receiver sender rows hfound := by
    have hr := h.valid receiver hfound.mem_todo
    rw [unread_foldl_stored hr hid (hcount _ _ hfound.counting)]
    exact h.found receiver sender rows hfound
  right receiver sender hwritten hr := by
    refine right_stored hr hP hid ?_ (h.right receiver sender hwritten hr)
    intro hsource
    obtain ⟨j, hj, -, rfl⟩ := source_eq_some hsource.symm
    exact hid (mem_keys.mpr (by rw [(h.job j hj).1]; rfl))

theorem committedInv_stored (h : CommittedInv cursors P T) (hid : id ∉ T.events.keys)
    (hnodup : e.kind = 4 → (pValues e.toEventContent).Nodup) :
    CommittedInv cursors P (stored T id e) where
  projected x hx := by
    obtain ⟨e', he'⟩ := Option.isSome_iff_exists.mp (h.projected x hx)
    rw [get_stored_of_some hid he']
    rfl
  distinct row hrow hkind := by
    obtain ⟨x, e'⟩ := row
    by_cases hx : x = id
    · subst hx
      have hsame : e' = e := Option.some.inj ((mem_rows.mp hrow).symm.trans get_stored_self)
      subst hsame
      exact hnodup hkind
    · have hold : T.events.get x = some e' := by
        have hget := mem_rows.mp hrow
        rwa [stored, get_upsert_ne hx] at hget
      exact h.distinct (x, e') (mem_rows.mpr hold) hkind
  right receiver sender hr := by
    have hnone : some id ≠ none := by simp
    have hfirst : Right cursors (([] : List Write).foldl Write.apply T) receiver sender ∨
        Owed P T none receiver sender := h.right receiver sender hr
    exact right_stored hr h.projected hid hnone hfirst

end

section
variable {id : String} {e : StoredEvent}

theorem owed_cons_of_empty {receiver sender : String} (he : T.events.get id = some e)
    (hempty : receivers e.toEventContent = []) (h : Owed P T source receiver sender) :
    Owed (id :: P) T source receiver sender := by
  obtain ⟨x, e', hx, hP, hsource, htouch⟩ := h
  refine ⟨x, e', hx, fun hmem => ?_, hsource, htouch⟩
  rcases mem_cons.mp hmem with rfl | hmem
  · obtain rfl : e = e' := Option.some.inj (he.symm.trans hx)
    have hreceiver := htouch.2.1
    rw [hempty] at hreceiver
    exact not_mem_nil hreceiver
  · exact hP hmem

theorem committedInv_cons_of_empty (h : CommittedInv cursors P T) (he : T.events.get id = some e)
    (hempty : receivers e.toEventContent = []) : CommittedInv cursors (id :: P) T where
  projected x hx := by
    rcases mem_cons.mp hx with rfl | hx
    · rw [he]
      rfl
    · exact h.projected x hx
  distinct := h.distinct
  right receiver sender hr := (h.right receiver sender hr).imp_right (owed_cons_of_empty he hempty)

theorem txInv_cons_of_empty (h : TxInv cursors P T own p) (he : T.events.get id = some e)
    (hempty : receivers e.toEventContent = []) : TxInv cursors (id :: P) T own p :=
  { h with
    right := fun receiver sender hw hr =>
      (h.right receiver sender hw hr).imp_right (owed_cons_of_empty he hempty) }

theorem txInv_next {job : Job} (he : T.events.get job.id = some job.message)
    (hkind : job.message.kind = 4) (hwritten : ∀ receiver sender, ¬ Written own receiver sender)
    (hdeletion : ∀ d, .recordDeletion d ∈ own → job.projects = false ∧ d.targetEventID = job.id) :
    TxInv cursors P T own (.next job job.receivers) where
  idle h := nomatch h
  recorded _ h := nomatch h
  deletion d hd := by
    obtain ⟨hprojects, htarget⟩ := hdeletion d hd
    simp [Phase.target, Phase.job, hprojects, htarget]
  job j hj := by
    cases hj
    exact ⟨he, hkind⟩
  other _ h := nomatch h
  valid receiver hr := validReceiver_of_mem (mem_of_mem_filter hr)
  written j hj receiver sender htouch := by
    cases hj
    exact .inr (mem_filter.mpr ⟨htouch.2.1, decide_eq_true htouch.2.2.1⟩)
  found _ _ _ h := h.elim
  right receiver sender hw := absurd hw (hwritten receiver sender)

theorem txInv_of_job_eq_none (hidle : p ≠ .idle) (hjob : p.job = none) (htodo : p.todo = [])
    (hfound : ∀ receiver sender rows, ¬ p.Found receiver sender rows)
    (htarget : p.target = some d.targetEventID)
    (hrecorded : ∀ target, p = .deletionRecorded target → d.targetEventID = target)
    (hother : ∀ target, p = .targetOther target → ∃ e, T.events.get target = some e ∧ e.kind ≠ 4) :
    TxInv cursors P T [.recordDeletion d] p where
  idle h := absurd h hidle
  recorded target h := ⟨d, rfl, hrecorded target h⟩
  deletion d' hd' := by
    rw [mem_singleton, Write.recordDeletion.injEq] at hd'
    rw [hd', htarget]
  job j hj := by
    rw [hjob] at hj
    cases hj
  other := hother
  valid receiver hr := by
    rw [htodo] at hr
    exact nomatch hr
  written j hj := by
    rw [hjob] at hj
    cases hj
  found receiver sender rows h := absurd h (hfound receiver sender rows)
  right receiver sender hw := by
    obtain ⟨row, hrow⟩ := hw
    rw [mem_singleton] at hrow
    cases hrow

theorem txInv_deletionRecorded (d : Deletion) :
    TxInv cursors P T [.recordDeletion d] (.deletionRecorded d.targetEventID) :=
  txInv_of_job_eq_none (by simp) rfl rfl (fun _ _ _ h => h) rfl
    (fun _ h => Phase.deletionRecorded.inj h) fun _ h => by simp at h

theorem txInv_loadTarget (d : Deletion) :
    TxInv cursors P T [.recordDeletion d] (loadTarget T d.targetEventID) := by
  unfold loadTarget
  cases he : T.events.get d.targetEventID with
  | none =>
    exact txInv_of_job_eq_none (by simp) rfl rfl (fun _ _ _ h => h) rfl
      (fun _ h => by simp at h) fun _ h => by simp at h
  | some e =>
    dsimp only
    split_ifs with hkind
    · refine txInv_of_job_eq_none (by simp) rfl rfl (fun _ _ _ h => h) rfl
        (fun _ h => by simp at h) fun target h => ?_
      cases h
      exact ⟨e, he, hkind⟩
    · refine txInv_next he (not_not.mp hkind) (fun receiver sender hw => ?_) fun d' hd' => ?_
      · obtain ⟨row, hrow⟩ := hw
        rw [mem_singleton] at hrow
        cases hrow
      · rw [mem_singleton, Write.recordDeletion.injEq] at hd'
        exact ⟨rfl, congrArg Deletion.targetEventID hd'⟩

end

variable {job : Job} {receiver : String} {todo : List String} {rows : List UnreadRow}
  {row : CounterRow}

theorem txInv_pairCounted (h : TxInv cursors P T own (.next job (receiver :: todo))) :
    TxInv cursors P T own (.pairCounted job receiver todo
      (unread cursors (own.foldl Write.apply T) receiver job.message.pubkey)) where
  idle h := nomatch h
  recorded _ h := nomatch h
  deletion := h.deletion
  job := h.job
  other _ h := nomatch h
  valid := h.valid
  written := h.written
  found _ _ _ hf := by
    obtain ⟨rfl, rfl, rfl⟩ := hf
    rfl
  right := h.right

theorem txInv_allCounted (h : TxInv cursors P T own (.pairWritten job receiver todo)) :
    TxInv cursors P T own (.allCounted job receiver todo
      (unread cursors (own.foldl Write.apply T) receiver "")) where
  idle h := nomatch h
  recorded _ h := nomatch h
  deletion := h.deletion
  job := h.job
  other _ h := nomatch h
  valid := h.valid
  written := h.written
  found _ _ _ hf := by
    obtain ⟨rfl, rfl, rfl⟩ := hf
    rfl
  right := h.right

theorem written_append {sender : String} {r s : String} :
    Written (own ++ [.upsertCounter receiver sender row]) r s ↔
      Written own r s ∨ (r = receiver ∧ s = sender) := by
  constructor
  · rintro ⟨row', hrow'⟩
    rcases mem_append.mp hrow' with hold | hnew
    · exact .inl ⟨row', hold⟩
    · rw [mem_singleton, Write.upsertCounter.injEq] at hnew
      exact .inr ⟨hnew.1, hnew.2.1⟩
  · rintro (⟨row', hold⟩ | ⟨rfl, rfl⟩)
    · exact ⟨row', mem_append_left _ hold⟩
    · exact ⟨row, mem_append_right _ (.head _)⟩

theorem right_append {sender : String}
    (hfound : rows = unread cursors (own.foldl Write.apply T) receiver sender)
    (h : ∀ r s, Written own r s → ValidReceiver r →
      Right cursors (own.foldl Write.apply T) r s ∨ Owed P T source r s) :
    ∀ r s, Written (own ++ [.upsertCounter receiver sender (counterRow rows)]) r s →
      ValidReceiver r →
      Right cursors ((own ++ [Write.upsertCounter receiver sender (counterRow rows)]).foldl
        Write.apply T) r s ∨ Owed P T source r s := by
  intro r s hw hr
  rw [foldl_append, foldl_cons, foldl_nil, Right, cnt_apply]
  dsimp only
  have hunread : unread cursors (Write.apply (own.foldl Write.apply T)
      (.upsertCounter receiver sender (counterRow rows))) r s =
        unread cursors (own.foldl Write.apply T) r s := rfl
  rw [hunread]
  split_ifs with heq
  · obtain ⟨rfl, rfl⟩ := Prod.mk.inj heq
    exact .inl (congrArg List.length hfound)
  · exact h r s ((written_append.mp hw).resolve_right fun he => heq (Prod.ext he.1 he.2)) hr

theorem mem_deletion_append {sender : String} :
    Write.recordDeletion d ∈ own ++ [.upsertCounter receiver sender row] ↔
      Write.recordDeletion d ∈ own := by
  simp

theorem txInv_pairWritten (h : TxInv cursors P T own (.pairCounted job receiver todo rows)) :
    TxInv cursors P T (own ++ [.upsertCounter receiver job.message.pubkey (counterRow rows)])
      (.pairWritten job receiver todo) where
  idle h := nomatch h
  recorded _ h := nomatch h
  deletion d hd := h.deletion d (mem_deletion_append.mp hd)
  job := h.job
  other _ h := nomatch h
  valid := h.valid
  written j hj r s htouch := by
    rcases h.written j hj r s htouch with hw | hrest
    · exact .inl (written_append.mpr (.inl hw))
    · rcases mem_cons.mp hrest with rfl | hmem
      · cases hj
        rcases htouch.2.2.2 with hall | hpair
        · exact .inr (.inl ⟨rfl, hall⟩)
        · exact .inl (written_append.mpr (.inr ⟨rfl, hpair⟩))
      · exact .inr (.inr hmem)
  found _ _ _ h := h.elim
  right := right_append (h.found _ _ _ ⟨rfl, rfl, rfl⟩) h.right

theorem txInv_allWritten (h : TxInv cursors P T own (.allCounted job receiver todo rows)) :
    TxInv cursors P T (own ++ [.upsertCounter receiver "" (counterRow rows)]) (.next job todo) where
  idle h := nomatch h
  recorded _ h := nomatch h
  deletion d hd := h.deletion d (mem_deletion_append.mp hd)
  job := h.job
  other _ h := nomatch h
  valid r hr := h.valid r (mem_cons_of_mem receiver hr)
  written j hj r s htouch := by
    rcases h.written j hj r s htouch with hw | ⟨rfl, rfl⟩ | hmem
    · exact .inl (written_append.mpr (.inl hw))
    · exact .inl (written_append.mpr (.inr ⟨rfl, rfl⟩))
    · exact .inr hmem
  found _ _ _ h := h.elim
  right := right_append (h.found _ _ _ ⟨rfl, rfl, rfl⟩) h.right

end NostrMash.DirectMessages
