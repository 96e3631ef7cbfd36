import NostrMash.DirectMessageCommits

/-!
# Exact counters of direct messages

When all transactions have ended and all messages have been projected, no counter is owed a
message, so that every counter is right.
-/

namespace NostrMash.DirectMessages
open KeyedTable List Machine

section
variable {cursors : Cursors} {T : Tables} {receiver sender : String}

def Names (cursors : Cursors) (T : Tables) (receiver sender : String)
    (row : String × StoredEvent) : Bool :=
  isUnread cursors T receiver sender row.1 row.2.toEventContent ∧
    receiver ∈ pValues row.2.toEventContent

theorem length_unreadOf {row : String × StoredEvent}
    (h : row.2.kind = 4 → (pValues row.2.toEventContent).Nodup) :
    (unreadOf cursors T receiver sender row).length =
      if Names cursors T receiver sender row then 1 else 0 := by
  unfold unreadOf Names
  by_cases hunread : isUnread cursors T receiver sender row.1 row.2.toEventContent = true
  · have hnodup := h (of_decide_eq_true hunread).1
    rw [if_pos hunread, length_map, ← countP_eq_length_filter]
    by_cases hmem : receiver ∈ pValues row.2.toEventContent
    · rw [if_pos (decide_eq_true ⟨hunread, hmem⟩)]
      have hcount := count_eq_one_of_mem hnodup hmem
      rw [← hcount, List.count]
      exact countP_congr fun x _ => by simp
    · rw [if_neg fun hall => hmem (of_decide_eq_true hall).2, countP_eq_zero]
      intro x hx heq
      exact hmem (of_decide_eq_true heq ▸ hx)
  · rw [if_neg hunread, if_neg fun hall => hunread (of_decide_eq_true hall).1]
    rfl

theorem length_flatMap_unreadOf {rows : List (String × StoredEvent)}
    (h : ∀ row ∈ rows, row.2.kind = 4 → (pValues row.2.toEventContent).Nodup) :
    (rows.flatMap (unreadOf cursors T receiver sender)).length =
      rows.countP (Names cursors T receiver sender) := by
  induction rows with
  | nil => rfl
  | cons row rows ih =>
    rw [flatMap_cons, length_append, countP_cons,
      ih fun r hr => h r (mem_cons_of_mem row hr), length_unreadOf (h row (.head _)),
      Nat.add_comm]

theorem length_messages (hs : sender ≠ "") (hne : sender ≠ receiver) :
    (messages cursors T receiver sender).length =
      T.events.rows.countP (Names cursors T receiver sender) := by
  rw [messages, ← countP_eq_length_filter]
  refine countP_congr fun row _ => ?_
  simp only [Names, isUnread, hs, false_or, decide_eq_true_eq]
  constructor
  · rintro ⟨hkind, rfl, hmem, hdel, hafter⟩
    exact ⟨⟨hkind, hne, rfl, hdel, hafter⟩, hmem⟩
  · rintro ⟨⟨hkind, -, rfl, hdel, hafter⟩, hmem⟩
    exact ⟨hkind, rfl, hmem, hdel, hafter⟩

theorem countP_or_of_disjoint {α : Type} {p q : α → Bool} {l : List α}
    (h : ∀ x, p x = true → q x = false) :
    (l.countP fun x => p x || q x) = l.countP p + l.countP q := by
  induction l with
  | nil => rfl
  | cons x l ih =>
    rw [countP_cons, countP_cons, countP_cons, ih]
    cases hp : p x with
    | true =>
      rw [h x hp]
      simp
      omega
    | false =>
      simp
      omega

theorem sum_countP_eq {α : Type} (f : α → String) (p : α → Bool) (l : List α) {keys : List String}
    (hkeys : keys.Nodup) : (keys.map fun k => l.countP fun x => f x = k ∧ p x = true).sum =
      l.countP fun x => f x ∈ keys ∧ p x = true := by
  induction keys with
  | nil => simp
  | cons k keys ih =>
    obtain ⟨hnot, hrest⟩ := nodup_cons.mp hkeys
    rw [map_cons, sum_cons, ih hrest, ← countP_or_of_disjoint]
    · refine countP_congr fun x _ => ?_
      simp only [Bool.or_eq_true, decide_eq_true_eq, mem_cons]
      tauto
    · intro x hx
      obtain ⟨rfl, -⟩ := of_decide_eq_true hx
      exact decide_eq_false fun h => hnot h.1

theorem countP_names_all : T.events.rows.countP (Names cursors T receiver "") =
    ((senders T receiver).map fun sender =>
      T.events.rows.countP (Names cursors T receiver sender)).sum := by
  have hnodup : (senders T receiver).Nodup := (nodup_dedup _).filter _
  have hsenders : ∀ sender ∈ senders T receiver,
      T.events.rows.countP (Names cursors T receiver sender) =
        T.events.rows.countP fun row => row.2.pubkey = sender ∧
          Names cursors T receiver "" row = true := by
    intro sender hsender
    obtain ⟨hmem, -⟩ := mem_filter.mp hsender
    obtain ⟨row, -, rfl⟩ := mem_map.mp (mem_dedup.mp hmem)
    refine countP_congr fun row' _ => ?_
    simp only [Names, isUnread, row.2.nonblank, false_or, true_or, true_and, decide_eq_true_eq]
    tauto
  rw [map_congr_left hsenders, sum_countP_eq _ _ _ hnodup]
  refine countP_congr fun row hrow => ?_
  rw [decide_eq_true_eq]
  refine ⟨fun h => ⟨?_, h⟩, And.right⟩
  have hother := (of_decide_eq_true (of_decide_eq_true h).1).2.1
  exact mem_filter.mpr ⟨mem_dedup.mpr (mem_map.mpr ⟨row, hrow, rfl⟩), decide_eq_true hother⟩

theorem exact_of_right (hdistinct : ∀ row ∈ T.events.rows, row.2.kind = 4 →
      (pValues row.2.toEventContent).Nodup)
    (h : ∀ receiver sender, ValidReceiver receiver → Right cursors T receiver sender) :
    Exact cursors T := by
  intro receiver htrim hblank
  have hcnt : ∀ sender, cnt T receiver sender =
      T.events.rows.countP (Names cursors T receiver sender) := fun sender =>
    (h receiver sender ⟨htrim, hblank⟩).trans (length_flatMap_unreadOf hdistinct)
  refine ⟨fun sender hs hne => (hcnt sender).trans (length_messages hs hne).symm, ?_⟩
  rw [hcnt, countP_names_all]
  exact congrArg List.sum (map_congr_left fun sender _ => (hcnt sender).symm)

end

variable {τ : Type} [DecidableEq τ] {cursors : Cursors}

theorem Inv.exact_of_quiet {s : State τ} (h : Inv cursors s) (hq : s.Quiet) :
    Exact cursors s.db.committed := by
  refine exact_of_right h.runs.1.distinct fun receiver sender hr => ?_
  refine (h.runs.1.right receiver sender hr).resolve_right ?_
  rintro ⟨id, e, he, hP, -, htouch⟩
  exact hP (hq.2 (id, e) (mem_rows.mpr he) htouch.1)

/-- In every run of the transactions in which no message names a receiver twice, and in which
nothing is stored or deleted between computing and writing a counter of it, the counters are exact
whenever all transactions have ended and all messages have been projected. -/
theorem always_exact_of_settled (cursors : Cursors) (deletions : List Deletion)
    (as : List (Act τ)) (h : Machine.Guarded (step cursors) Settled (init deletions) as) :
    Machine.Always (step cursors) (fun s => s.Quiet → Exact cursors s.db.committed)
      (init deletions) as := by
  intro bs hpre s hrun hq
  have hinv : Inv cursors s := run_invariant (I := Inv cursors)
    (fun s a s' hs hg hstep => inv_step hs a hg hstep) (inv_init deletions)
    (guarded_initial hpre h) hrun
  exact hinv.exact_of_quiet hq

def messageToBob (tags : List Tag) : StoredEvent where
  toEventContent := ⟨"alice", 4, 10, tags⟩
  trimmed := by decide
  nonblank := by decide

def projectMessage (tags : List Tag) : List (Act Unit) :=
  [.store "dm" (messageToBob tags), .project () "dm", .countPair (), .writePair (), .countAll (),
    .writeAll (), .commit ()]

theorem settled_projectMessage : Machine.Guarded (step fun _ _ => none) Settled (init [])
    (projectMessage [["p", "bob"]]) := by
  refine guarded_cons (fun _ => ⟨by decide, fun _ _ _ h => h.elim⟩) rfl ?_
  refine guarded_cons trivial rfl ?_
  refine guarded_cons trivial rfl ?_
  refine guarded_cons trivial rfl ?_
  refine guarded_cons trivial rfl ?_
  refine guarded_cons trivial rfl ?_
  refine guarded_cons ?_ rfl trivial
  exact fun h => nomatch h

theorem always_exact_projectMessage : Machine.Always (step fun _ _ => none)
      (fun s => s.Quiet → Exact (fun _ _ => none) s.db.committed) (init [])
      (projectMessage [["p", "bob"]]) :=
  always_exact_of_settled (fun _ _ => none) [] _ settled_projectMessage

/-- A message that names the receiver in two tags counts twice. -/
theorem message_counted_twice : ¬ Machine.Always (step fun _ _ => none)
      (fun s => s.Quiet → Exact (fun _ _ => none) s.db.committed) (init [])
      (projectMessage [["p", "bob"], ["p", "bob"]]) := by
  intro h
  have hexact := h _ (prefix_refl _) _ rfl ⟨fun _ => rfl, by decide⟩ "bob" (by decide)
    (by decide)
  have hpair := hexact.1 "alice" (by decide) (by decide)
  revert hpair
  decide

end NostrMash.DirectMessages
