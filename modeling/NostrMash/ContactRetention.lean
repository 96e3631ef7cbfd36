import NostrMash.ProfileReversal

/-!
# Deleting contact lists

The edges of a contact list are deleted with it. The reversal of a purge leaves the follower counts
that `ProjectContactListsLatest` has added, so that they stay behind when edges go.
-/

namespace NostrMash.ContactLists
open KeyedTable Replaceable List

section

/-- The counters of every profile are the numbers of its edges. -/
def Tables.CountsAgree (S : Tables) : Prop :=
  ∀ k, counter ProfileStats.followerCount S.profiles k = S.followerEdges k ∧
    counter ProfileStats.followingCount S.profiles k = S.followingEdges k

/-- A column that a change to a profile leaves alone. -/
structure Keeps (column : ProfileStats → ℤ)
    (f : KeyedTable String ProfileStats → KeyedTable String ProfileStats) : Prop where
  counter_eq : ∀ T k, counter column (f T) k = counter column T k

variable {column : ProfileStats → ℤ}
  {f g : KeyedTable String ProfileStats → KeyedTable String ProfileStats}

theorem Keeps.comp (hf : Keeps column f) (hg : Keeps column g) : Keeps column fun T => g (f T) :=
  ⟨fun T k => (hg.counter_eq _ k).trans (hf.counter_eq T k)⟩

theorem keeps_id : Keeps column fun T => T := ⟨fun _ _ => rfl⟩

theorem keeps_ite {c : Prop} [Decidable c] (hf : Keeps column f) (hg : Keeps column g) :
    Keeps column fun T => if c then f T else g T := by
  split_ifs
  · exact hf
  · exact hg

theorem keeps_update (p : String → ProfileStats → Bool) {change : ProfileStats → ProfileStats}
    (h : ∀ row, column (change row) = column row) : Keeps column fun T => T.update p change := by
  refine ⟨fun T k => ?_⟩
  rw [counter, get_update, counter]
  cases T.get k with
  | none => rfl
  | some row =>
    simp only [Option.map_some, Option.getD_some]
    split_ifs
    · exact h row
    · rfl

theorem keeps_upsert (pubkey : String) {new : ProfileStats} {merge : ProfileStats → ProfileStats}
    (hnew : column new = 0) (h : ∀ row, column (merge row) = column row) :
    Keeps column fun T => T.upsert pubkey new merge := by
  refine ⟨fun T k => ?_⟩
  by_cases hk : k = pubkey
  · subst hk
    rw [counter, get_upsert_self, counter]
    cases T.get k with
    | none => exact hnew
    | some row => exact h row
  · rw [counter, get_upsert_ne hk, counter]

theorem keeps_foldl {α : Type} (l : List α)
    {change : α → KeyedTable String ProfileStats → KeyedTable String ProfileStats}
    (h : ∀ a ∈ l, Keeps column (change a)) :
    Keeps column fun T => l.foldl (fun T a => change a T) T := by
  induction l with
  | nil => exact keeps_id
  | cons a l ih =>
    exact (h a (.head _)).comp (ih fun b hb => h b (mem_cons_of_mem a hb))

def CountsEdges (column : ProfileStats → ℤ) : Prop :=
  column = ProfileStats.followerCount ∨ column = ProfileStats.followingCount

variable (hcol : CountsEdges column)
include hcol

theorem keeps_adjustProfileZapCounters (pubkey : String) (received sats sent : ℤ) :
    Keeps column (adjustProfileZapCounters pubkey received sats sent) := by
  refine keeps_ite keeps_id (keeps_upsert pubkey ?_ fun row => ?_)
  · rcases hcol with rfl | rfl <;> rfl
  · rcases hcol with rfl | rfl <;> rfl

theorem keeps_applyZapProfileCounters (zapReceipts : KeyedTable String ZapReceipt)
    (eventID eventPubkey : String) (sign : ℤ) :
    Keeps column (applyZapProfileCounters zapReceipts eventID eventPubkey sign) := by
  unfold applyZapProfileCounters
  cases zapReceipts.get eventID with
  | none => exact keeps_id
  | some receipt =>
    dsimp only
    cases receipt.receiverPubkey.filter (· ≠ "") with
    | none => exact keeps_adjustProfileZapCounters hcol _ _ _ _
    | some receiver =>
      exact keeps_ite (keeps_adjustProfileZapCounters hcol _ _ _ _)
        ((keeps_adjustProfileZapCounters hcol _ _ _ _).comp
          (keeps_adjustProfileZapCounters hcol _ _ _ _))

theorem keeps_unapplyProfileDeltas (events : KeyedTable String RetainedEvent)
    (zapReceipts : KeyedTable String ZapReceipt) (eventID : String) (e : RetainedEvent) :
    Keeps column (unapplyProfileDeltas events zapReceipts eventID e) := by
  refine ((keeps_update _ fun row => ?_).comp (keeps_update _ fun row => ?_)).comp
    (keeps_ite (keeps_applyZapProfileCounters hcol _ _ _ _) keeps_id)
  · rcases hcol with rfl | rfl <;> rfl
  · rcases hcol with rfl | rfl <;> rfl

theorem keeps_refreshProfileTimeJoined (events : KeyedTable String RetainedEvent)
    (pubkeys : List String) : Keeps column (refreshProfileTimeJoined events pubkeys) := by
  refine keeps_foldl pubkeys fun pubkey _ => keeps_update _ fun row => ?_
  rcases hcol with rfl | rfl <;> rfl

variable {events : KeyedTable String RetainedEvent} {zapReceipts : KeyedTable String ZapReceipt}
  {S : StatTables}

omit hcol in
theorem counter_reverseIfCurrent {kinds : List ℕ} {eventID pubkey : String}
    {decrement : ProfileStats → ProfileStats} (h : ∀ row, column (decrement row) = column row)
    (k : String) :
    counter column (reverseIfCurrent kinds eventID pubkey decrement S).tables.profiles k =
      counter column S.tables.profiles k := by
  unfold reverseIfCurrent
  split_ifs
  · exact (keeps_update _ h).counter_eq S.tables.profiles k
  · rfl

theorem counter_reverseIncrementalProfilePublicStats (eventID : String) (e : RetainedEvent)
    (k : String) : counter column (reverseIncrementalProfilePublicStats events zapReceipts eventID e
      S).tables.profiles k = counter column S.tables.profiles k := by
  have hlong : ∀ row : ProfileStats, column { row with
      longFormNoteCount := max (row.longFormNoteCount - 1) 0 } = column row := by
    rcases hcol with rfl | rfl <;> exact fun _ => rfl
  have hmedia : ∀ row : ProfileStats, column { row with
      mediaCount := max (row.mediaCount - 1) 0 } = column row := by
    rcases hcol with rfl | rfl <;> exact fun _ => rfl
  have hunapply := (keeps_unapplyProfileDeltas hcol events zapReceipts eventID e).counter_eq
    S.tables.profiles k
  simp only [reverseIncrementalProfilePublicStats, reverseLongFormIfCurrent,
    reverseAddressableMediaIfCurrent, apply_ite StatTables.tables, apply_ite Tables.profiles,
    apply_ite (counter column · k), counter_reverseIfCurrent hlong,
    counter_reverseIfCurrent hmedia, ite_self]
  split_ifs
  · exact hunapply
  · rfl

theorem counter_reverseIncrementalAuthorStats (eventID : String) (k : String) :
    counter column (reverseIncrementalAuthorStats events zapReceipts S eventID).tables.profiles k =
      counter column S.tables.profiles k := by
  unfold reverseIncrementalAuthorStats
  split_ifs with hblank
  · rfl
  · cases events.get (trimSpace eventID) with
    | none => rfl
    | some e => exact counter_reverseIncrementalProfilePublicStats hcol _ e k

theorem counter_reverseAll (ids : List String) (k : String) :
    counter column (ids.foldl (reverseIncrementalAuthorStats events zapReceipts)
      S).tables.profiles k = counter column S.tables.profiles k := by
  induction ids generalizing S with
  | nil => rfl
  | cons id ids ih => rw [foldl_cons, ih, counter_reverseIncrementalAuthorStats hcol]

theorem counter_reverseAndDelete (S : Store) (ids : List String) (k : String) :
    counter column (reverseAndDelete S ids).stats.tables.profiles k =
      counter column S.stats.tables.profiles k := by
  unfold reverseAndDelete
  split_ifs
  · rfl
  · exact ((keeps_refreshProfileTimeJoined hcol _ _).counter_eq _ k).trans
      (counter_reverseAll hcol ids k)

end

variable {S : Store} {ids : List String}

theorem edges_reverseAndDelete : (reverseAndDelete S ids).stats.tables.edges.rows =
    S.stats.tables.edges.rows.filter fun row => row.2.sourceEventID ∉ ids := by
  unfold reverseAndDelete
  split_ifs with hids
  · subst hids
    simp
  · show (cascade ids _ (ids.foldl _ S.stats).tables.edges).rows = _
    rw [edges_reverseAll]
    simp [cascade, KeyedTable.delete]

/-- Deleting a batch of events keeps the counters and the edges in step exactly when no edge comes
from one of them. -/
theorem countsAgree_reverseAndDelete_iff (S : Store) (h : S.stats.tables.CountsAgree)
    (ids : List String) : (reverseAndDelete S ids).stats.tables.CountsAgree ↔
      ∀ row ∈ S.stats.tables.edges.rows, row.2.sourceEventID ∉ ids := by
  constructor
  · intro hagree row hrow hid
    have hcount := (hagree row.1.1).1
    rw [counter_reverseAndDelete (.inl rfl), (h row.1.1).1, Tables.followerEdges,
      Tables.followerEdges, edges_reverseAndDelete, Int.natCast_inj,
      countP_eq_countP_filter_add _ _ fun row => row.2.sourceEventID ∉ ids] at hcount
    have hnone := countP_eq_zero.mp (Nat.add_eq_left.mp hcount) row
      (mem_filter.mpr ⟨hrow, by simpa using hid⟩)
    simp at hnone
  · intro hkept
    have hedges : (reverseAndDelete S ids).stats.tables.edges.rows =
        S.stats.tables.edges.rows := by
      rw [edges_reverseAndDelete, filter_eq_self]
      exact fun row hrow => decide_eq_true (hkept row hrow)
    intro k
    rw [counter_reverseAndDelete (.inl rfl), counter_reverseAndDelete (.inr rfl),
      Tables.followerEdges, Tables.followingEdges, hedges]
    exact h k

def oneFollow : Store where
  events := ⟨[("list", ⟨⟨"alice", 3, 50, [["p", "bob"], ["expiration", "100"]]⟩, false, false,
    some 100⟩)], by simp⟩
  zapReceipts := .empty
  stats :=
    { tables := { Tables.empty with
        latest := ⟨[("alice", ⟨"list", 50, ["bob"]⟩)], by simp⟩
        edges := ⟨[(("bob", "alice"), ⟨"list", 50⟩)], by simp⟩
        profiles := ⟨[("alice", { followingCount := 1 }), ("bob", { followerCount := 1 })], by simp⟩
        appliedStatDeltas := [("list", .followerCounts)] }
      replaceableState := .empty }
  edge_source := by decide

theorem countsAgree_oneFollow : oneFollow.stats.tables.CountsAgree := by
  intro k
  by_cases ha : k = "alice"
  · subst ha
    decide
  · by_cases hb : k = "bob"
    · subst hb
      decide
    · simp [oneFollow, counter, KeyedTable.get, lookup_cons, Tables.followerEdges,
        Tables.followingEdges, beq_false_of_ne ha, beq_false_of_ne hb, Ne.symm ha, Ne.symm hb]

theorem countsAgree_other_batch : (reverseAndDelete oneFollow ["note"]).stats.tables.CountsAgree :=
  (countsAgree_reverseAndDelete_iff oneFollow countsAgree_oneFollow ["note"]).mpr (by decide)

/-- The contact has a follower and no edge when the list has expired. -/
theorem follower_count_left_behind : oneFollow.stats.tables.CountsAgree ∧
    ∃ S, purgeExpiredNIP40Events oneFollow (some 200) 10 = .ok S ∧
      counter ProfileStats.followerCount S.stats.tables.profiles "bob" = 1 ∧
      S.stats.tables.followerEdges "bob" = 0 :=
  ⟨countsAgree_oneFollow, _, rfl, by decide, by decide⟩

end NostrMash.ContactLists
