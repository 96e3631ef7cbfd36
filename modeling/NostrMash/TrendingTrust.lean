import NostrMash.SearchService

/-!
# Trending notes with trust

The trust-aware trending listings fetch more candidates than a page needs, qualify them by author
and order them by trust mode before the page is cut out. How many candidates are fetched depends on
the limit and the offset of the request.
-/

namespace NostrMash.Search
open List

structure TrustedNoteCandidate where
  note : TrendingNote
  trusted : Bool
  score : Option ℚ
  rank : Option ℤ

def normalizeDiscoveryPage (limit offset : ℤ) (defaultLimit maxLimit : ℕ) : ℕ × ℕ :=
  let limit := if limit ≤ 0 then defaultLimit else limit.toNat
  (min limit maxLimit, offset.toNat)

def paginateTrendingNotes (rows : List TrendingNote) (limit offset : ℕ) : List TrendingNote :=
  (rows.drop offset).take limit

def maxRank (rank : ℤ) (peers : List TrustedNoteCandidate) : ℤ :=
  peers.foldl (fun m peer => max m (peer.rank.getD m)) rank

def maxScore (score : ℚ) (peers : List TrustedNoteCandidate) : ℚ :=
  peers.foldl (fun m peer => max m (peer.score.getD m)) score

def normalizedTrustRank (score : Option ℚ) (rank : Option ℤ) (peers : List TrustedNoteCandidate) :
    ℚ :=
  match rank.filter (0 < ·), score with
  | some rank, _ =>
    if maxRank rank peers ≤ 1 then 0 else (rank - 1 : ℚ) / (maxRank rank peers - 1)
  | none, some score => if maxScore score peers ≤ 0 then 1 else 1 - score / maxScore score peers
  | none, none => 1

structure KeyedCandidate where
  row : TrustedNoteCandidate
  index : ℕ
  key : ℚ

def orderNoteBucket (rows : List TrustedNoteCandidate) (boostWeight : ℚ) :
    List TrustedNoteCandidate :=
  if boostWeight ≤ 0 ∨ rows.length < 2 then rows
  else
    let items := rows.zipIdx.map fun (row, i) => KeyedCandidate.mk row i
      (i + boostWeight * normalizedTrustRank row.score row.rank rows)
    (items.insertionSort fun a b => a.key < b.key ∨ a.key = b.key ∧ a.index ≤ b.index).map
      KeyedCandidate.row

def trustedNoteRowsByMode (rows : List TrustedNoteCandidate) (mode : TrustMode) (boostWeight : ℚ) :
    List TrendingNote :=
  if mode ≠ .preferTrusted then rows.map (·.note)
  else
    (orderNoteBucket (rows.filter (·.trusted)) boostWeight).map (·.note) ++
      (orderNoteBucket (rows.filter (!·.trusted)) boostWeight).map (·.note)

section
variable (rows : List TrustedNoteCandidate)
include rows

theorem orderNoteBucket_perm (boostWeight : ℚ) :
    (orderNoteBucket rows boostWeight).Perm rows := by
  unfold orderNoteBucket
  split_ifs
  · exact .refl _
  · refine ((perm_insertionSort _ _).map _).trans ?_
    rw [map_map]
    exact .of_eq (zipIdx_map_fst 0 rows)

theorem trustedNoteRowsByMode_perm (mode : TrustMode)
    (boostWeight : ℚ) : (trustedNoteRowsByMode rows mode boostWeight).Perm (rows.map (·.note)) := by
  unfold trustedNoteRowsByMode
  split_ifs
  · exact .refl _
  · rw [← map_append]
    exact (((orderNoteBucket_perm _ _).append (orderNoteBucket_perm _ _)).trans
      (filter_append_perm _ _)).map _

theorem trustedNoteRowsByMode_unboosted {boostWeight : ℚ}
    (h : boostWeight ≤ 0) : trustedNoteRowsByMode rows .preferTrusted boostWeight =
      (rows.filter (·.trusted)).map (·.note) ++ (rows.filter (!·.trusted)).map (·.note) := by
  simp [trustedNoteRowsByMode, orderNoteBucket, h]

end

/-- The rows a listing is made from: the plain ranking, what is known of the trust of authors, and
the trusted projection while it is ready. -/
structure TrendingSource where
  ranked : List TrendingNote
  qualification : String → Option TrustQualification
  projection : Option (List TrustedNoteCandidate)
  nodup_ranked : (ranked.map TrendingNote.eventID).Nodup
  nodup_projection : ∀ rows, projection = some rows → (rows.map (·.note.eventID)).Nodup

structure TrendingSettings where
  discoveryTrustScanSize : ℕ
  discoveryScoreBoostWeight : ℚ

section
variable (S : TrendingSettings) (D : TrendingSource) (mode : TrustMode)

def qualifyNote (note : TrendingNote) : TrustedNoteCandidate :=
  let qualification := D.qualification note.authorPubkey
  { note := note
    trusted := qualification.any (·.trusted)
    score := qualification.bind (·.score)
    rank := qualification.bind (·.rank) }

def enrichTrustSignals (row : TrustedNoteCandidate) : TrustedNoteCandidate :=
  let qualification := D.qualification row.note.authorPubkey
  { row with score := qualification.bind (·.score), rank := qualification.bind (·.rank) }

def projectionListing (rows : List TrustedNoteCandidate) : List TrustedNoteCandidate :=
  match mode with
  | .openMode => rows
  | .preferTrusted => rows.filter (·.trusted) ++ rows.filter (!·.trusted)
  | .trustedOnly => rows.filter (·.trusted)

def getTrustQualifiedTrendingNotes (rows : List TrustedNoteCandidate) (limit offset : ℕ) :
    List TrustedNoteCandidate :=
  let limit := if limit = 0 then 20 else min limit 500
  ((projectionListing mode rows).drop offset).take limit

/-- The scan loop. -/
def scanTrending (targetRows scanBudget : ℕ) :
    ℕ → ℕ → List TrustedNoteCandidate → List TrustedNoteCandidate
  | 0, _, out => out
  | fuel + 1, fetched, out =>
    if scanBudget ≤ fetched then out
    else
      let batchSize := min 100 (scanBudget - fetched)
      let batch := (D.ranked.drop fetched).take batchSize
      if batch = [] then out
      else
        let qualified := batch.map (qualifyNote D)
        let out := out ++ if mode = .trustedOnly then qualified.filter (·.trusted) else qualified
        if targetRows ≤ out.length then out
        else if batch.length < batchSize then out
        else scanTrending targetRows scanBudget fuel (fetched + batchSize) out

def scanBudgetFor (targetRows scanBudget : ℕ) : ℕ :=
  let scanBudget := if scanBudget = 0 then targetRows * 4 else scanBudget
  max (min scanBudget S.discoveryTrustScanSize) targetRows

def collectTrustedTrending (targetRows scanBudget : ℕ) : List TrustedNoteCandidate :=
  let targetRows := if targetRows = 0 then 20 else targetRows
  let scanBudget := scanBudgetFor S targetRows scanBudget
  match D.projection with
  | some rows =>
    let rows := getTrustQualifiedTrendingNotes mode rows scanBudget 0
    if S.discoveryScoreBoostWeight > 0 then rows.map (enrichTrustSignals D) else rows
  | none => scanTrending D mode targetRows scanBudget scanBudget 0 []

def getTrendingTrustAware (limit offset : ℤ) : List TrendingNote :=
  let (limit, offset) := normalizeDiscoveryPage limit offset 20 100
  let target := limit + offset
  let candidates := collectTrustedTrending S D mode target (target * 4)
  paginateTrendingNotes
    (trustedNoteRowsByMode candidates mode S.discoveryScoreBoostWeight) limit offset

end

variable (S : TrendingSettings) (D : TrendingSource)

/-- All candidates in the order in which they are fetched when trusted authors are preferred. -/
def TrendingSource.candidates : List TrustedNoteCandidate :=
  match D.projection with
  | some rows =>
    let rows := (projectionListing .preferTrusted rows).take 500
    if S.discoveryScoreBoostWeight > 0 then rows.map (enrichTrustSignals D) else rows
  | none => D.ranked.map (qualifyNote D)

/-- How many candidates are fetched for a page that ends at `target`: four times as many rows within
the scan size, and from the plain ranking no more full batches than the page needs. -/
def TrendingSource.window (target : ℕ) : ℕ :=
  match D.projection with
  | some _ => scanBudgetFor S target (target * 4)
  | none => min (scanBudgetFor S target (target * 4)) (100 * ((target + 99) / 100))

variable {S D} {target : ℕ}

theorem le_scanBudgetFor (target budget : ℕ) : target ≤ scanBudgetFor S target budget :=
  le_max_right _ _

theorem le_window (target : ℕ) : target ≤ D.window S target := by
  unfold TrendingSource.window
  have := le_scanBudgetFor (S := S) target (target * 4)
  split
  · exact this
  · exact le_min this (by omega)

theorem scanTrending_preferTrusted {budget : ℕ} (hbudget : target ≤ budget) (fuel j : ℕ)
    (hj : 100 * j < target) (hfuel : budget ≤ fuel + 100 * j) :
    scanTrending D .preferTrusted target budget fuel (100 * j)
        ((D.ranked.take (100 * j)).map (qualifyNote D)) =
      (D.ranked.take (min budget (100 * ((target + 99) / 100)))).map (qualifyNote D) := by
  induction fuel generalizing j with
  | zero => omega
  | succ fuel ih =>
    set size := min 100 (budget - 100 * j) with hsize
    have hout : (D.ranked.take (100 * j)).map (qualifyNote D) ++
        ((D.ranked.drop (100 * j)).take size).map (qualifyNote D) =
          (D.ranked.take (100 * j + size)).map (qualifyNote D) := by
      rw [← map_append, ← take_add]
    rw [scanTrending, if_neg (by omega)]
    simp only [← hsize, reduceCtorEq, if_false, hout, length_map, length_take, length_drop]
    split_ifs with hempty htarget hshort
    · have hlen : D.ranked.length ≤ 100 * j := by
        have := congrArg List.length hempty
        simp only [length_take, length_drop, length_nil] at this
        omega
      rw [take_of_length_le hlen, take_of_length_le (by omega)]
    · congr 2
      omega
    · rw [take_of_length_le (by omega), take_of_length_le (by omega)]
    · have hfull : size = 100 := by omega
      rw [hfull]
      have := ih (j + 1) (by omega) (by omega)
      rwa [Nat.mul_succ] at this

theorem collectTrustedTrending_preferTrusted (h : 0 < target) :
    collectTrustedTrending S D .preferTrusted target (target * 4) =
      (D.candidates S).take (D.window S target) := by
  unfold collectTrustedTrending TrendingSource.candidates TrendingSource.window
  rw [if_neg h.ne']
  have hle := le_scanBudgetFor (S := S) target (target * 4)
  cases D.projection with
  | some rows =>
    have hne : scanBudgetFor S target (target * 4) ≠ 0 := by omega
    simp only [getTrustQualifiedTrendingNotes, drop_zero, if_neg hne, ← take_take]
    split_ifs
    · rw [map_take]
    · rfl
  | none =>
    have := scanTrending_preferTrusted (D := D) hle (scanBudgetFor S target (target * 4)) 0 h
      (by omega)
    simpa [map_take] using this

end NostrMash.Search
