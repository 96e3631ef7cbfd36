import NostrMash.TrendingTrust
import NostrMash.WindowPages

/-!
# Consecutive pages of trending notes

With trusted authors preferred, the trusted candidates of a window are listed before the others. A
later page is cut from a larger window, and every trusted candidate that only the larger window has
moves the others back.
-/

namespace NostrMash.Search
open WindowPages List
variable (S : TrendingSettings) (D : TrendingSource)

def pageSize (limit : ℤ) : ℕ := (normalizeDiscoveryPage limit 0 20 100).1

def trendingPage (limit : ℤ) (k : ℕ) : List TrendingNote :=
  getTrendingTrustAware S D .preferTrusted limit (k * pageSize limit)

def singleRequestOrder : List TrendingNote :=
  let target := (D.candidates S).length + 1
  trustedNoteRowsByMode (collectTrustedTrending S D .preferTrusted target (target * 4))
    .preferTrusted S.discoveryScoreBoostWeight

def windowOrder (target : ℕ) : List TrendingNote :=
  trustedNoteRowsByMode ((D.candidates S).take (D.window S target)) .preferTrusted
    S.discoveryScoreBoostWeight

def trustedAmong (rows : List TrustedNoteCandidate) : ℕ := rows.countP (·.trusted)

/-- Without a boost, the trusted candidates in the window of page `k` fill the pages up to it or are
all trusted candidates. -/
def WindowSuffices (limit : ℤ) (k : ℕ) : Prop :=
  let size := pageSize limit
  let seen := trustedAmong ((D.candidates S).take (D.window S ((k + 1) * size)))
  if S.discoveryScoreBoostWeight ≤ 0 then
    (k + 1) * size ≤ seen ∨ seen = trustedAmong (D.candidates S)
  else (slice (windowOrder S D ((k + 1) * size)) size k).Perm
    (slice (singleRequestOrder S D) size k)

section
variable {S D}

theorem pageSize_pos (limit : ℤ) : 0 < pageSize limit := by
  simp only [pageSize, normalizeDiscoveryPage]
  split_ifs <;> omega

theorem trustedRows_of_large {target : ℕ} (h : (D.candidates S).length < target) :
    trustedNoteRowsByMode (collectTrustedTrending S D .preferTrusted target (target * 4))
        .preferTrusted S.discoveryScoreBoostWeight =
      trustedNoteRowsByMode (D.candidates S) .preferTrusted S.discoveryScoreBoostWeight := by
  rw [collectTrustedTrending_preferTrusted (by omega),
    take_of_length_le (h.le.trans (le_window target))]

theorem singleRequestOrder_eq : singleRequestOrder S D =
    trustedNoteRowsByMode (D.candidates S) .preferTrusted S.discoveryScoreBoostWeight :=
  trustedRows_of_large (Nat.lt_succ_self _)

theorem projectionListing_perm (rows : List TrustedNoteCandidate) :
    (projectionListing .preferTrusted rows).Perm rows := filter_append_perm _ rows

theorem nodup_candidates : ((D.candidates S).map (·.note)).Nodup := by
  refine List.Nodup.of_map TrendingNote.eventID ?_
  rw [map_map]
  unfold TrendingSource.candidates
  cases hp : D.projection with
  | none =>
    rw [map_map]
    exact D.nodup_ranked
  | some rows =>
    have hrows := ((projectionListing_perm rows).map (·.note.eventID)).nodup_iff.mpr
      (D.nodup_projection rows hp)
    have hcut := hrows.sublist
      ((take_sublist 500 (projectionListing .preferTrusted rows)).map _)
    dsimp only
    split_ifs
    · rw [map_map]
      exact hcut
    · exact hcut

theorem nodup_singleRequestOrder : (singleRequestOrder S D).Nodup := by
  rw [singleRequestOrder_eq]
  exact (trustedNoteRowsByMode_perm _ _ _).nodup_iff.mpr nodup_candidates

theorem windowOrder_subset (target : ℕ) : windowOrder S D target ⊆ singleRequestOrder S D := by
  intro note hnote
  rw [singleRequestOrder_eq, (trustedNoteRowsByMode_perm _ _ _).mem_iff]
  rw [windowOrder, (trustedNoteRowsByMode_perm _ _ _).mem_iff] at hnote
  exact ((take_sublist _ _).map _).subset hnote

theorem length_windowOrder (target : ℕ) :
    (windowOrder S D target).length = min (D.window S target) (singleRequestOrder S D).length := by
  rw [singleRequestOrder_eq, windowOrder, (trustedNoteRowsByMode_perm _ _ _).length_eq,
    (trustedNoteRowsByMode_perm _ _ _).length_eq, length_map, length_map,
    length_take]

end

theorem trendingPage_eq_slice (limit : ℤ) (k : ℕ) :
    trendingPage S D limit k = slice (windowOrder S D ((k + 1) * pageSize limit))
      (pageSize limit) k := by
  have hpos := pageSize_pos limit
  have hnorm : normalizeDiscoveryPage limit (k * pageSize limit) 20 100 =
      (pageSize limit, k * pageSize limit) := by
    simp only [pageSize, normalizeDiscoveryPage, Prod.mk.injEq, true_and]
    norm_cast
  have htarget : pageSize limit + k * pageSize limit = (k + 1) * pageSize limit := by
    rw [Nat.succ_mul, Nat.add_comm]
  simp only [trendingPage, getTrendingTrustAware, hnorm, htarget, paginateTrendingNotes, slice,
    windowOrder]
  rw [collectTrustedTrending_preferTrusted (Nat.mul_pos k.succ_pos hpos)]

theorem length_trendingPage (limit : ℤ) (k : ℕ) : (trendingPage S D limit k).length =
    (slice (singleRequestOrder S D) (pageSize limit) k).length := by
  have hle := le_window (S := S) (D := D) ((k + 1) * pageSize limit)
  rw [Nat.succ_mul] at hle
  rw [trendingPage_eq_slice, slice, slice, length_take, length_take, length_drop,
    length_drop, length_windowOrder, Nat.succ_mul]
  omega

theorem windowSuffices_iff (limit : ℤ) (k : ℕ) : WindowSuffices S D limit k ↔
    (trendingPage S D limit k).Perm (slice (singleRequestOrder S D) (pageSize limit) k) := by
  simp only [WindowSuffices, trendingPage_eq_slice]
  split_ifs with hboost
  · have hlen := length_windowOrder (S := S) (D := D) ((k + 1) * pageSize limit)
    have hle := le_window (S := S) (D := D) ((k + 1) * pageSize limit)
    have hnd := nodup_singleRequestOrder (S := S) (D := D)
    have htake := take_prefix (D.window S ((k + 1) * pageSize limit)) (D.candidates S)
    rw [singleRequestOrder_eq] at hlen hnd ⊢
    rw [windowOrder] at hlen ⊢
    rw [trustedNoteRowsByMode_unboosted _ hboost, trustedNoteRowsByMode_unboosted _ hboost]
      at hlen ⊢
    rw [trustedNoteRowsByMode_unboosted _ hboost] at hnd
    rw [slice_groups_perm_iff hnd ((htake.filter _).map _) ((htake.filter _).map _)
      (pageSize_pos limit) (by omega)]
    simp only [length_map, trustedAmong, countP_eq_length_filter]
  · rfl

deriving instance DecidableEq for TrendingNote

def sampleTrendingNote (id author : String) : TrendingNote where
  eventID := id
  authorPubkey := author
  createdAt := 1700000000
  content := ""
  replyCount := 0
  repostCount := 0
  reactionCount := 0
  zapCount := 0

def sampleSource : TrendingSource where
  ranked := [sampleTrendingNote "a" "mallory", sampleTrendingNote "b" "mallory",
    sampleTrendingNote "c" "mallory", sampleTrendingNote "d" "mallory",
    sampleTrendingNote "e" "alice"]
  qualification author :=
    if author = "alice" then some { unknownQualification author with trusted := true } else none
  projection := none
  nodup_ranked := by decide
  nodup_projection := by simp

end NostrMash.Search
