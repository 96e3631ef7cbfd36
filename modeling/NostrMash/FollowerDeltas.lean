import NostrMash.ContactLists
import NostrMash.EdgeCounts

/-!
# Follower deltas

A contact list adds one delta for each edge that it gains or loses. The deltas of a pubkey are
summed and added to its row of `profile_public_stats`, clamped at zero.
-/

namespace NostrMash.ContactLists
open AuthorStats EdgeCounts KeyedTable List

/-- Pubkeys as a list of contacts has them. -/
structure Clean (pubkeys : List String) : Prop where
  nodup : pubkeys.Nodup
  trimmed : ∀ p ∈ pubkeys, trimSpace p = p
  nonblank : ∀ p ∈ pubkeys, p ≠ ""

theorem Clean.map_filter {l : List String} (h : Clean l) :
    (l.map trimSpace).filter (· ≠ "") = l := by
  rw [map_congr_left h.trimmed, map_id', filter_eq_self]
  exact fun p hp => decide_eq_true (h.nonblank p hp)

theorem Clean.pubkeySet_eq {l : List String} (h : Clean l) : pubkeySet l = l := by
  rw [pubkeySet, h.map_filter, h.nodup.dedup]

theorem Clean.filter {l : List String} (h : Clean l) (p : String → Bool) : Clean (l.filter p) where
  nodup := h.nodup.filter p
  trimmed x hx := h.trimmed x (mem_of_mem_filter hx)
  nonblank x hx := h.nonblank x (mem_of_mem_filter hx)

theorem clean_contacts (tags : List Tag) : Clean (contacts tags) where
  nodup := (perm_insertionSort _ _).nodup_iff.mpr (nodup_dedup _)
  trimmed p hp := by
    obtain ⟨_, i, _, rfl⟩ := mem_normalizeUniqueIDs.mp hp
    exact trimSpace_trimSpace i
  nonblank p hp := (mem_normalizeUniqueIDs.mp hp).1

def Names (tags : List Tag) (k : String) : Prop :=
  k ≠ "" ∧ ∃ value rest, ("p" :: value :: rest) ∈ tags ∧ trimSpace value = k

theorem mem_contacts {tags : List Tag} {k : String} : k ∈ contacts tags ↔ Names tags k := by
  rw [contacts, mem_normalizeUniqueIDs]
  refine and_congr_right fun hk => ⟨?_, ?_⟩
  · rintro ⟨i, hi, rfl⟩
    obtain ⟨tag, htag, hvalue⟩ := mem_filterMap.mp hi
    split at hvalue
    · split_ifs at hvalue
      cases hvalue
      exact ⟨_, _, htag, (trimSpace_trimSpace _).symm⟩
    · exact nomatch hvalue
  · rintro ⟨value, rest, htag, rfl⟩
    refine ⟨trimSpace value, mem_filterMap.mpr ⟨_, htag, ?_⟩, trimSpace_trimSpace value⟩
    simp [hk]

variable {e : EventContent} {id : String}

theorem EventTable.trimmed (stored : EventTable) (h : stored.content id = some e) :
    trimSpace e.pubkey = e.pubkey :=
  trimSpace_of_isLowerHex (stored.pubkey_hex h)

theorem EventTable.nonblank (stored : EventTable) (h : stored.content id = some e) :
    e.pubkey ≠ "" := by
  intro hblank
  have hhex := stored.pubkey_hex h
  rw [hblank] at hhex
  exact nomatch hhex

section

def deltaAt (D : Deltas) (k : String) : FollowerDelta := (D.get k).getD ⟨0, 0, 0⟩

variable {D : Deltas} {author p k : String} {trustedStep sign : ℤ} {l : List String}

theorem deltaAt_bump (ht : trimSpace p = p) (hne : p ≠ "") (d : FollowerDelta) :
    deltaAt (bump D p d) k = if k = p then (deltaAt D k).add d else deltaAt D k := by
  rw [bump, ht, if_neg hne]
  split_ifs with hk
  · subst hk
    rw [deltaAt, get_upsert_self, deltaAt]
    cases D.get k with
    | none => simp [FollowerDelta.add]
    | some e => rfl
  · rw [deltaAt, get_upsert_ne hk, deltaAt]

variable (trustedStep sign D k) (hat : trimSpace author = author) (hane : author ≠ "")
  {next prev : List String}

include hat hane

theorem deltaAt_bumpEdge (ht : trimSpace p = p) (hne : p ≠ "") :
    (deltaAt (bumpEdge author trustedStep sign D p) k).follower =
        (deltaAt D k).follower + (if k = p then sign else 0) ∧
      (deltaAt (bumpEdge author trustedStep sign D p) k).following =
        (deltaAt D k).following + if k = author then sign else 0 := by
  simp only [bumpEdge, deltaAt_bump ht hne, deltaAt_bump hat hane]
  split_ifs <;> simp [FollowerDelta.add]

theorem deltaAt_foldl (hl : Clean l) :
    (deltaAt (l.foldl (bumpEdge author trustedStep sign) D) k).follower =
        (deltaAt D k).follower + (if k ∈ l then sign else 0) ∧
      (deltaAt (l.foldl (bumpEdge author trustedStep sign) D) k).following =
        (deltaAt D k).following + if k = author then sign * l.length else 0 := by
  induction l generalizing D with
  | nil => simp
  | cons p l ih =>
    obtain ⟨hnotin, hnodup⟩ := nodup_cons.mp hl.nodup
    have hrest : Clean l := ⟨hnodup, fun x hx => hl.trimmed x (mem_cons_of_mem p hx),
      fun x hx => hl.nonblank x (mem_cons_of_mem p hx)⟩
    obtain ⟨hfollower, hfollowing⟩ := ih (bumpEdge author trustedStep sign D p) hrest
    obtain ⟨hone, htwo⟩ := deltaAt_bumpEdge D k trustedStep sign hat hane
      (hl.trimmed p (.head _)) (hl.nonblank p (.head _))
    rw [foldl_cons, hfollower, hfollowing, hone, htwo, length_cons]
    constructor
    · by_cases hk : k = p
      · subst hk
        simp [hnotin]
      · simp [hk]
    · split_ifs
      · rw [add_assoc, Int.natCast_add, Int.mul_add, Int.natCast_one, Int.mul_one, add_comm sign]
      · simp

omit hat hane in
theorem length_filter_notMem (hp : prev.Nodup) (hn : next.Nodup) :
    (next.filter (· ∉ prev)).length + prev.length =
      (prev.filter (· ∉ next)).length + next.length := by
  have hgained : (next.filter (· ∉ prev)).toFinset = next.toFinset \ prev.toFinset := by
    ext x
    simp
  have hlost : (prev.filter (· ∉ next)).toFinset = prev.toFinset \ next.toFinset := by
    ext x
    simp
  rw [← toFinset_card_of_nodup (hn.filter _), ← toFinset_card_of_nodup (hp.filter _),
    ← toFinset_card_of_nodup hn, ← toFinset_card_of_nodup hp, hgained, hlost,
    Finset.card_sdiff_add_card, Finset.card_sdiff_add_card, Finset.union_comm]

theorem deltaAt_edgeDeltas (hp : Clean prev) (hn : Clean next) :
    (deltaAt (edgeDeltas author trustedStep prev next) k).follower =
        (if k ∈ next then 1 else 0) - (if k ∈ prev then 1 else 0) ∧
      (deltaAt (edgeDeltas author trustedStep prev next) k).following =
        if k = author then (next.length : ℤ) - prev.length else 0 := by
  have hgain := deltaAt_foldl .empty k trustedStep 1 hat hane (hn.filter (· ∉ prev))
  have hloss := deltaAt_foldl ((next.filter (· ∉ prev)).foldl (bumpEdge author trustedStep 1)
    .empty) k trustedStep (-1) hat hane (hp.filter (· ∉ next))
  have hlength := length_filter_notMem hp.nodup hn.nodup
  have hempty : deltaAt (.empty : Deltas) k = ⟨0, 0, 0⟩ := rfl
  rw [edgeDeltas, hloss.1, hloss.2, hgain.1, hgain.2, hempty]
  constructor
  · by_cases hkn : k ∈ next <;> by_cases hkp : k ∈ prev <;> simp [hkn, hkp]
  · dsimp only
    split_ifs <;> omega

end

section

def counter (column : ProfileStats → ℤ) (T : KeyedTable String ProfileStats) (k : String) : ℤ :=
  ((T.get k).map column).getD 0

variable {T : KeyedTable String ProfileStats} {D : Deltas} {k : String}

theorem mem_writtenDeltas {d : FollowerDelta} :
    (k, d) ∈ writtenDeltas D ↔ D.get k = some d ∧ d ≠ ⟨0, 0, 0⟩ := by
  rw [writtenDeltas, mem_filter, (perm_insertionSort _ _).mem_iff, mem_rows]
  simp

theorem nodup_writtenDeltas : ((writtenDeltas D).map Prod.fst).Nodup :=
  (((perm_insertionSort _ _).map Prod.fst).nodup_iff.mpr D.nodup).sublist
    (filter_sublist.map _)

theorem counter_upsertAll {column : ProfileStats → ℤ} {part : FollowerDelta → ℤ}
    (hzero : part ⟨0, 0, 0⟩ = 0) (hinsert : ∀ d, column d.insert = max (part d) 0)
    (hupdate : ∀ d row, column (d.update row) = max (column row + part d) 0)
    (h : 0 ≤ counter column T k + part (deltaAt D k)) :
    counter column (T.upsertAll (writtenDeltas D) FollowerDelta.insert FollowerDelta.update) k =
      counter column T k + part (deltaAt D k) := by
  by_cases hd : deltaAt D k = ⟨0, 0, 0⟩
  · have hnot : k ∉ (writtenDeltas D).map Prod.fst := by
      rintro hk
      obtain ⟨⟨_, d⟩, hmem, rfl⟩ := mem_map.mp hk
      obtain ⟨hget, hne⟩ := mem_writtenDeltas.mp hmem
      rw [deltaAt, hget] at hd
      exact hne hd
    rw [counter, get_upsertAll_of_notMem hnot, hd, hzero, add_zero, counter]
  · have hget : D.get k = some (deltaAt D k) := by
      cases hk : D.get k with
      | none => exact absurd (by rw [deltaAt, hk]; rfl) hd
      | some d => rw [deltaAt, hk, Option.getD_some]
    rw [counter, get_upsertAll_of_mem nodup_writtenDeltas (mem_writtenDeltas.mpr ⟨hget, hd⟩)]
    unfold counter at h ⊢
    cases hrow : T.get k with
    | none =>
      rw [hrow] at h
      simpa [hinsert] using h
    | some row =>
      rw [hrow] at h
      simpa [hupdate] using h

end

def Tables.followerEdges (S : Tables) (k : String) : ℕ := S.edges.rows.countP fun row => row.1.1 = k

def Tables.followingEdges (S : Tables) (k : String) : ℕ :=
  S.edges.rows.countP fun row => row.1.2 = k

variable {S : Tables} {author k : String} {list : LatestRow}

theorem followerEdges_eq : S.followerEdges k = into S.edges.keys k :=
  (S.edges.card_filter_keys fun key => key.1 = k).symm

theorem followingEdges_eq : S.followingEdges k = outOf S.edges.keys k :=
  (S.edges.card_filter_keys fun key => key.2 = k).symm

theorem mem_followed : k ∈ S.followed author ↔ (k, author) ∈ S.edges.keys := by
  rw [KeyedTable.keys, mem_toFinset, Tables.followed, mem_map, mem_map]
  constructor
  · rintro ⟨row, hrow, rfl⟩
    obtain ⟨hmem, ha⟩ := mem_filter.mp hrow
    exact ⟨row, hmem, Prod.ext rfl (of_decide_eq_true ha)⟩
  · rintro ⟨row, hmem, hkey⟩
    exact ⟨row, mem_filter.mpr ⟨hmem, by simp [hkey]⟩, by simp [hkey]⟩

theorem nodup_followed : (S.followed author).Nodup := by
  have hinj : ((S.edges.rows.filter fun row => row.1.2 = author).map Prod.fst).Nodup :=
    S.edges.nodup.sublist (filter_sublist.map _)
  rw [Tables.followed, List.Nodup, pairwise_map]
  refine (pairwise_map.mp hinj).imp_of_mem fun {x y} hx hy hne heq => hne ?_
  have hx' : x.1.2 = author := of_decide_eq_true (mem_filter.mp hx).2
  have hy' : y.1.2 = author := of_decide_eq_true (mem_filter.mp hy).2
  exact Prod.ext heq (hx'.trans hy'.symm)

theorem length_followed : (S.followed author).length = S.followingEdges author := by
  rw [Tables.followed, length_map, Tables.followingEdges, countP_eq_length_filter]

theorem keys_rewriteEdges (hc : Clean list.contacts) : (S.rewriteEdges author list).edges.keys =
      redirect S.edges.keys author list.contacts.toFinset := by
  ext ⟨k, a⟩
  have hdelete : (k, a) ∈ (S.edges.delete fun key _ => key.2 = author).keys ↔
      a ≠ author ∧ (k, a) ∈ S.edges.keys := by
    simp only [KeyedTable.mem_keys, Option.isSome_iff_exists, get_delete, decide_eq_false_iff_not]
    constructor
    · rintro ⟨r, hr, hne⟩
      exact ⟨hne, r, hr⟩
    · rintro ⟨hne, r, hr⟩
      exact ⟨r, hr, hne⟩
  rw [Tables.rewriteEdges, mem_keys_upsertAll, hdelete, hc.map_filter, mem_redirect]
  split_ifs with ha
  · simp [ha]
  · simp [ha, Ne.symm ha]

end NostrMash.ContactLists
