import NostrMash.DirectMessages

/-!
# Runs of the projections of direct messages

A counter is right unless a message that it counts has not been projected yet. This holds for the
committed counters, and in the view of a transaction for those that it has written: no other one can
commit a change of them before.
-/

namespace NostrMash.DirectMessages
open AuthorStats KeyedTable Replaceable List

section
variable {cursors : Cursors} {T : Tables} {receiver sender : String} {e : EventContent}

structure ValidReceiver (receiver : String) : Prop where
  trimmed : trimSpace receiver = receiver
  nonblank : receiver ≠ ""

theorem mem_receivers (hr : ValidReceiver receiver) (h : receiver ∈ pValues e) :
    receiver ∈ receivers e := by
  refine mem_normalizeUniqueIDs.mpr ⟨hr.nonblank, receiver, ?_, hr.trimmed⟩
  rw [mem_filter, mem_map]
  exact ⟨⟨receiver, h, hr.trimmed⟩, decide_eq_true hr.nonblank⟩

theorem validReceiver_of_mem (h : receiver ∈ receivers e) :
    ValidReceiver receiver := by
  obtain ⟨hne, i, -, rfl⟩ := mem_normalizeUniqueIDs.mp h
  exact ⟨trimSpace_trimSpace i, hne⟩

def unreadOf (cursors : Cursors) (T : Tables) (receiver sender : String)
    (row : String × StoredEvent) : List UnreadRow :=
  if isUnread cursors T receiver sender row.1 row.2.toEventContent then
    ((pValues row.2.toEventContent).filter (· = receiver)).map fun _ => ⟨row.1, row.2.createdAt⟩
  else []

theorem unread_eq : unread cursors T receiver sender =
    T.events.rows.flatMap (unreadOf cursors T receiver sender) := rfl

section
variable (hr : ValidReceiver receiver)
include hr

theorem unreadOf_eq_nil {row : String × StoredEvent}
    (h : ¬ Touches row.2.toEventContent receiver sender) :
    unreadOf cursors T receiver sender row = [] := by
  unfold unreadOf
  split_ifs with hunread
  · obtain ⟨hkind, hself, hsender, -⟩ := of_decide_eq_true hunread
    rw [map_eq_nil_iff, filter_eq_nil_iff]
    intro value hvalue heq
    obtain rfl : value = receiver := of_decide_eq_true heq
    exact h ⟨hkind, mem_receivers hr hvalue, Ne.symm hself, hsender.imp id Eq.symm⟩
  · rfl

theorem unread_eq_of_deletions {T' : Tables}
    (hevents : T'.events = T.events) (h : ∀ d, (d ∈ T'.deletions ↔ d ∈ T.deletions) ∨
      ∀ e, T.events.get d.targetEventID = some e → ¬ Touches e.toEventContent receiver sender) :
    unread cursors T' receiver sender = unread cursors T receiver sender := by
  rw [unread_eq, unread_eq, hevents]
  refine flatMap_congr fun row hrow => ?_
  by_cases htouch : Touches row.2.toEventContent receiver sender
  · have hsame : deletedByAuthor T' row.1 row.2.toEventContent =
        deletedByAuthor T row.1 row.2.toEventContent := by
      have hmem : ∀ d : Deletion, d.targetEventID = row.1 →
          (d ∈ T'.deletions ↔ d ∈ T.deletions) := fun d hd =>
        (h d).resolve_right fun hnot => hnot row.2 (hd ▸ mem_rows.mp hrow) htouch
      rw [Bool.eq_iff_iff, deletedByAuthor, deletedByAuthor, any_eq_true, any_eq_true]
      refine exists_congr fun d => and_congr_left fun hd => hmem d (of_decide_eq_true hd).1
    unfold unreadOf isUnread
    rw [hsame]
  · rw [unreadOf_eq_nil hr htouch, unreadOf_eq_nil hr htouch]

theorem unread_store {id : String} {e : StoredEvent}
    (hid : id ∉ T.events.keys) (h : ¬ Touches e.toEventContent receiver sender) :
    unread cursors { T with events := T.events.upsert id e fun _ => e } receiver sender =
      unread cursors T receiver sender := by
  have hrows : (T.events.upsert id e fun _ => e).rows = (id, e) :: T.events.rows := by
    rw [KeyedTable.keys, mem_toFinset] at hid
    rw [KeyedTable.upsert, dif_neg hid]
  rw [unread_eq, unread_eq, hrows, flatMap_cons, unreadOf_eq_nil hr h]
  rfl

end
end

section
variable {T : Tables} {ws : List Write} {receiver sender : String}

def Written (ws : List Write) (receiver sender : String) : Prop :=
  ∃ row, .upsertCounter receiver sender row ∈ ws

theorem events_foldl : (ws.foldl Write.apply T).events = T.events := by
  induction ws generalizing T with
  | nil => rfl
  | cons w ws ih =>
    rw [foldl_cons, ih]
    cases w <;> rfl

theorem mem_deletions_foldl {d : Deletion} :
    d ∈ (ws.foldl Write.apply T).deletions ↔ d ∈ T.deletions ∨ .recordDeletion d ∈ ws := by
  induction ws generalizing T with
  | nil => simp
  | cons w ws ih =>
    rw [foldl_cons, ih]
    cases w with
    | recordDeletion d' =>
      simp only [Write.apply, mem_insert_iff, mem_cons, Write.recordDeletion.injEq]
      tauto
    | upsertCounter r s row => simp [Write.apply]

theorem cnt_apply (w : Write) : cnt (w.apply T) receiver sender =
    match w with
    | .upsertCounter r s row => if (receiver, sender) = (r, s) then row.cnt else
        cnt T receiver sender
    | .recordDeletion _ => cnt T receiver sender := by
  cases w with
  | recordDeletion d => rfl
  | upsertCounter r s row =>
    dsimp only
    split_ifs with h
    · rw [cnt, h, Write.apply, get_upsert_self]
      cases T.counters.get (r, s) <;> rfl
    · rw [cnt, Write.apply, get_upsert_ne h, cnt]

theorem cnt_foldl_of_not_written (h : ¬ Written ws receiver sender) :
    cnt (ws.foldl Write.apply T) receiver sender = cnt T receiver sender := by
  induction ws generalizing T with
  | nil => rfl
  | cons w ws ih =>
    have hrest : ¬ Written ws receiver sender := fun ⟨row, hrow⟩ =>
      h ⟨row, mem_cons_of_mem w hrow⟩
    rw [foldl_cons, ih hrest, cnt_apply]
    cases w with
    | recordDeletion d => rfl
    | upsertCounter r s row =>
      refine if_neg fun heq => h ⟨row, ?_⟩
      rw [Prod.mk.injEq] at heq
      rw [heq.1, heq.2]
      exact .head _

theorem cnt_foldl_of_written (h : Written ws receiver sender) (T' : Tables) :
    cnt (ws.foldl Write.apply T) receiver sender =
      cnt (ws.foldl Write.apply T') receiver sender := by
  induction ws generalizing T T' with
  | nil => exact absurd h.choose_spec not_mem_nil
  | cons w ws ih =>
    rw [foldl_cons, foldl_cons]
    by_cases hrest : Written ws receiver sender
    · exact ih hrest _
    · rw [cnt_foldl_of_not_written hrest, cnt_foldl_of_not_written hrest]
      obtain ⟨row, hrow⟩ := h
      rcases mem_cons.mp hrow with rfl | hmem
      · rw [cnt_apply, cnt_apply]
        exact (if_pos rfl).trans (if_pos rfl).symm
      · exact absurd ⟨row, hmem⟩ hrest

theorem foldl_store (E : KeyedTable String StoredEvent) :
    ws.foldl Write.apply { T with events := E } =
      { ws.foldl Write.apply T with events := E } := by
  induction ws generalizing T with
  | nil => rfl
  | cons w ws ih =>
    rw [foldl_cons, foldl_cons, ← ih]
    cases w <;> rfl

end

def Phase.job : Phase → Option Job
  | .next job _ | .pairCounted job _ _ _ | .pairWritten job _ _ | .allCounted job _ _ _ => some job
  | _ => none

def Phase.target : Phase → Option String
  | .deletionRecorded target | .targetMissing target | .targetOther target => some target
  | p => p.job.bind fun job => if job.projects then none else some job.id

def Phase.source (p : Phase) : Option String :=
  p.job.bind fun job => if job.projects then some job.id else none

def Phase.todo : Phase → List String
  | .next _ todo => todo
  | .pairCounted _ receiver todo _ | .pairWritten _ receiver todo
  | .allCounted _ receiver todo _ => receiver :: todo
  | _ => []

def Phase.Remaining (receiver sender : String) : Phase → Prop
  | .next _ todo => receiver ∈ todo
  | .pairCounted _ r todo _ => receiver ∈ r :: todo
  | .pairWritten _ r todo | .allCounted _ r todo _ =>
    (receiver = r ∧ sender = "") ∨ receiver ∈ todo
  | _ => False

def Phase.Found (receiver sender : String) (found : List UnreadRow) : Phase → Prop
  | .pairCounted job r _ rows => r = receiver ∧ job.message.pubkey = sender ∧ rows = found
  | .allCounted _ r _ rows => r = receiver ∧ "" = sender ∧ rows = found
  | _ => False

/-- A message that the counter concerns is stored and has not been projected. -/
def Owed (P : List String) (T : Tables) (source : Option String) (receiver sender : String) :
    Prop :=
  ∃ id e, T.events.get id = some e ∧ id ∉ P ∧ some id ≠ source ∧
    Touches e.toEventContent receiver sender

variable (cursors : Cursors)

def Right (T : Tables) (receiver sender : String) : Prop :=
  cnt T receiver sender = (unread cursors T receiver sender).length

structure CommittedInv (P : List String) (T : Tables) : Prop where
  projected : ∀ id ∈ P, (T.events.get id).isSome
  distinct : ∀ row ∈ T.events.rows, row.2.kind = 4 → (pValues row.2.toEventContent).Nodup
  right : ∀ receiver sender, ValidReceiver receiver →
    Right cursors T receiver sender ∨ Owed P T none receiver sender

structure TxInv (P : List String) (T : Tables) (own : List Write) (p : Phase) : Prop where
  idle : p = .idle → own = []
  recorded : ∀ target, p = .deletionRecorded target →
    ∃ d, own = [.recordDeletion d] ∧ d.targetEventID = target
  deletion : ∀ d, .recordDeletion d ∈ own → p.target = some d.targetEventID
  job : ∀ j, p.job = some j → T.events.get j.id = some j.message ∧ j.message.kind = 4
  other : ∀ target, p = .targetOther target → ∃ e, T.events.get target = some e ∧ e.kind ≠ 4
  valid : ∀ receiver ∈ p.todo, ValidReceiver receiver
  written : ∀ j, p.job = some j → ∀ receiver sender,
    Touches j.message.toEventContent receiver sender →
      Written own receiver sender ∨ p.Remaining receiver sender
  found : ∀ receiver sender rows, p.Found receiver sender rows →
    rows = unread cursors (own.foldl Write.apply T) receiver sender
  right : ∀ receiver sender, Written own receiver sender → ValidReceiver receiver →
    Right cursors (own.foldl Write.apply T) receiver sender ∨ Owed P T p.source receiver sender

structure Inv {τ : Type} [DecidableEq τ] (s : State τ) : Prop where
  runs : s.db.Holds (CommittedInv cursors s.projected) fun _ => TxInv cursors s.projected
  exclusive : s.db.Exclusive schema

end NostrMash.DirectMessages
