import Mathlib
import NostrMash.TrustRuns

/-!
# Personalized rankings and their cache

A ranking for one viewer starts from the accounts the viewer follows, or is the global ranking when
the viewer follows nobody or too many. It is cut to the limit of the request, and the cut list is
what the cache keeps for the viewer.
-/

namespace NostrMash.Trust
open Machine List

inductive RankingSource where
  | personalized
  | globalFallback
  deriving DecidableEq

structure PersonalizedScore (σ : Type) where
  pubkey : String
  score : σ
  rank : ℤ
  runID : ℤ
  source : RankingSource
  deriving DecidableEq

structure GlobalScore (σ : Type) where
  pubkey : String
  score : σ
  rank : ℤ

structure PersonalizedRanker (σ : Type) where
  redisKeyPrefix : String
  maxSeedFollows : ℕ
  ranker : Ranker (Finset String) σ
  runID : ℤ
  followerEdges : List Edge
  trustScoresGlobal : List (GlobalScore σ)

structure RankingRequest where
  viewerPubkey : String
  limit : ℤ
  readable : Bool
  writable : Bool
  deriving DecidableEq

def RankingRequest.rows (q : RankingRequest) : ℕ := if q.limit ≤ 0 then 50 else q.limit.toNat

abbrev RankingCache (σ : Type) := String → Option (List (PersonalizedScore σ))

namespace PersonalizedRanker

variable {σ : Type} (R : PersonalizedRanker σ)

def listFollowedPubkeys (followerPubkey : String) (limit : ℕ) : List String :=
  let followed := (R.followerEdges.filter (·.1 = followerPubkey)).map Prod.snd
  (((followed.insertionSort (· ≤ ·)).take limit).map trimSpace).filter (· ≠ "")

def globalFallback (limit : ℕ) : List (PersonalizedScore σ) :=
  ((R.trustScoresGlobal.insertionSort fun a b => a.rank ≤ b.rank).take limit).map fun row =>
    { pubkey := row.pubkey, score := row.score, rank := row.rank, runID := R.runID,
      source := .globalFallback }

def personalizedScores (ranked : List (RankNode σ)) (limit : ℕ) : List (PersonalizedScore σ) :=
  (ranked.take limit).mapIdx fun i node =>
    { pubkey := node.pubkey, score := node.score, rank := i + 1, runID := R.runID,
      source := .personalized }

def computeRanking (viewerPubkey : String) (limit : ℕ) : List (PersonalizedScore σ) :=
  let follows := R.listFollowedPubkeys viewerPubkey (R.maxSeedFollows + 1)
  if follows.length = 0 ∨ follows.length > R.maxSeedFollows then R.globalFallback limit
  else
    let graph := FollowGraph.ofRows R.followerEdges
    if graph.nodes = ∅ then R.globalFallback limit
    else
      let teleport := insert viewerPubkey follows.toFinset
      R.personalizedScores (R.ranker.rank graph teleport) limit

def cacheKey (viewerPubkey : String) : String :=
  let key := if trimSpace R.redisKeyPrefix = "" then "nostrmash" else trimSpace R.redisKeyPrefix
  key ++ ":trust:personalized:" ++ toString R.runID ++ ":" ++ viewerPubkey

def readCache (cache : Option (RankingCache σ)) (readable : Bool) (viewerPubkey : String) :
    Option (List (PersonalizedScore σ)) :=
  if R.runID ≤ 0 ∨ ¬ readable then none else cache.bind (· (R.cacheKey viewerPubkey))

def writeCache (cache : Option (RankingCache σ)) (writable : Bool) (viewerPubkey : String)
    (scores : List (PersonalizedScore σ)) : Option (RankingCache σ) :=
  if R.runID ≤ 0 ∨ scores = [] ∨ ¬ writable then cache
  else cache.map fun entries => Function.update entries (R.cacheKey viewerPubkey) (some scores)

def truncatePersonalizedScores (scores : List (PersonalizedScore σ)) (limit : ℕ) :
    List (PersonalizedScore σ) :=
  if limit = 0 ∨ scores.length ≤ limit then scores else scores.take limit

def getRanking (cache : Option (RankingCache σ)) (q : RankingRequest) :
    Except String (List (PersonalizedScore σ)) × Option (RankingCache σ) :=
  let viewerPubkey := trimSpace q.viewerPubkey
  if viewerPubkey = "" then (.error "viewer pubkey is required", cache)
  else
    match R.readCache cache q.readable viewerPubkey with
    | some cached => (.ok (truncatePersonalizedScores cached q.rows), cache)
    | none =>
      let scores := R.computeRanking viewerPubkey q.rows
      (.ok scores, R.writeCache cache q.writable viewerPubkey scores)

def uncached (q : RankingRequest) : Except String (List (PersonalizedScore σ)) :=
  (R.getRanking none q).1

def ranking (viewerPubkey : String) : List (PersonalizedScore σ) :=
  let follows := R.listFollowedPubkeys viewerPubkey (R.maxSeedFollows + 1)
  let graph := FollowGraph.ofRows R.followerEdges
  if follows.length = 0 ∨ follows.length > R.maxSeedFollows then
    R.globalFallback R.trustScoresGlobal.length
  else if graph.nodes = ∅ then R.globalFallback R.trustScoresGlobal.length
  else
    let ranked := R.ranker.rank graph (insert viewerPubkey follows.toFinset)
    R.personalizedScores ranked ranked.length

inductive CacheAction where
  | request (q : RankingRequest)
  | expire (key : String)

structure Served (σ : Type) where
  cache : RankingCache σ
  answers : List (RankingRequest × Except String (List (PersonalizedScore σ)))

def start (σ : Type) : Served σ := { cache := fun _ => none, answers := [] }

def step (s : Served σ) : CacheAction → Option (Served σ)
  | .request q =>
    let (answer, cache) := R.getRanking (some s.cache) q
    some { cache := cache.getD s.cache, answers := (q, answer) :: s.answers }
  | .expire key => some { s with cache := Function.update s.cache key none }

/-- Every request so far was answered as it is without Redis. -/
def Transparent (s : Served σ) : Prop := ∀ a ∈ s.answers, a.2 = R.uncached a.1

/-- A request that finds a cached list asks for no more rows than the list has, or the list is the
whole ranking. -/
def Sufficient (s : Served σ) : CacheAction → Prop
  | .request q => trimSpace q.viewerPubkey ≠ "" →
    ∀ cached, R.readCache (some s.cache) q.readable (trimSpace q.viewerPubkey) = some cached →
      min q.rows (R.ranking (trimSpace q.viewerPubkey)).length ≤ cached.length
  | .expire _ => True

def Cut (s : Served σ) : Prop :=
  ∀ viewerPubkey cached, s.cache (R.cacheKey viewerPubkey) = some cached →
    cached <+: R.ranking viewerPubkey

theorem globalFallback_eq_take (limit : ℕ) :
    R.globalFallback limit = (R.globalFallback R.trustScoresGlobal.length).take limit := by
  have hall := take_of_length_le
    (length_insertionSort (fun a b : GlobalScore σ => a.rank ≤ b.rank) R.trustScoresGlobal).le
  rw [globalFallback, globalFallback, hall, map_take]

theorem personalizedScores_eq_take (ranked : List (RankNode σ)) (limit : ℕ) :
    R.personalizedScores ranked limit = (R.personalizedScores ranked ranked.length).take limit := by
  rw [personalizedScores, personalizedScores, take_length]
  exact ext_getElem (by simp) fun i h₁ h₂ => by simp

theorem computeRanking_eq_take (viewerPubkey : String) (limit : ℕ) :
    R.computeRanking viewerPubkey limit = (R.ranking viewerPubkey).take limit := by
  simp only [computeRanking, ranking]
  split_ifs
  · exact R.globalFallback_eq_take limit
  · exact R.globalFallback_eq_take limit
  · exact R.personalizedScores_eq_take _ limit

theorem truncatePersonalizedScores_eq_take (scores : List (PersonalizedScore σ)) {limit : ℕ}
    (h : 0 < limit) : truncatePersonalizedScores scores limit = scores.take limit := by
  unfold truncatePersonalizedScores
  split_ifs with hlong
  · rw [take_of_length_le (by omega)]
  · rfl

theorem rows_pos (q : RankingRequest) : 0 < q.rows := by
  unfold RankingRequest.rows
  split_ifs <;> omega

theorem take_eq_take_iff_of_isPrefix {α : Type} {l full : List α} (h : l <+: full) (n : ℕ) :
    l.take n = full.take n ↔ min n full.length ≤ l.length := by
  obtain ⟨rest, rfl⟩ := h
  constructor
  · intro heq
    have hlen := congrArg List.length heq
    simp only [length_take, length_append] at hlen ⊢
    omega
  · intro hle
    rw [take_append]
    rcases Nat.lt_or_ge l.length n with hn | hn
    · obtain rfl : rest = [] := by
        rw [length_append] at hle
        exact length_eq_zero_iff.mp (by omega)
      simp
    · simp [Nat.sub_eq_zero_of_le hn]

section
variable {R} {s t : Served σ} {q : RankingRequest} {a : CacheAction}

theorem uncached_viewer (h : trimSpace q.viewerPubkey ≠ "") :
    R.uncached q = .ok ((R.ranking (trimSpace q.viewerPubkey)).take q.rows) := by
  simp [uncached, getRanking, h, readCache, computeRanking_eq_take]

theorem cut_expire (hs : R.Cut s) (key : String) :
    R.Cut { s with cache := Function.update s.cache key none } := by
  intro v cached h
  by_cases hk : R.cacheKey v = key
  · simp [hk] at h
  · exact hs v cached (by simpa [Function.update_of_ne hk] using h)

theorem cut_write (hs : R.Cut s) (v : String) (n : ℕ)
    (answers : List (RankingRequest × Except String (List (PersonalizedScore σ)))) :
    R.Cut ⟨Function.update s.cache (R.cacheKey v) (some ((R.ranking v).take n)), answers⟩ := by
  intro w cached h
  by_cases hk : R.cacheKey w = R.cacheKey v
  · obtain rfl := (String.append_right_inj _).mp hk
    obtain rfl : (R.ranking w).take n = cached := by simpa using h
    exact take_prefix _ _
  · exact hs w cached (by simpa [Function.update_of_ne hk] using h)

theorem step_request (q : RankingRequest) :
    (trimSpace q.viewerPubkey = "" ∧ R.step s (.request q) =
      some { s with answers := (q, .error "viewer pubkey is required") :: s.answers }) ∨
    (trimSpace q.viewerPubkey ≠ "" ∧ ∃ cached,
      R.readCache (some s.cache) q.readable (trimSpace q.viewerPubkey) = some cached ∧
      R.step s (.request q) =
        some { s with answers := (q, .ok (cached.take q.rows)) :: s.answers }) ∨
    (trimSpace q.viewerPubkey ≠ "" ∧
      R.readCache (some s.cache) q.readable (trimSpace q.viewerPubkey) = none ∧
      ∃ cache, (cache = s.cache ∨ cache = Function.update s.cache
          (R.cacheKey (trimSpace q.viewerPubkey))
          (some ((R.ranking (trimSpace q.viewerPubkey)).take q.rows))) ∧
        R.step s (.request q) = some { cache := cache, answers :=
          (q, .ok ((R.ranking (trimSpace q.viewerPubkey)).take q.rows)) :: s.answers }) := by
  by_cases hblank : trimSpace q.viewerPubkey = ""
  · exact .inl ⟨hblank, by simp [step, getRanking, hblank]⟩
  · cases hread : R.readCache (some s.cache) q.readable (trimSpace q.viewerPubkey) with
    | some cached =>
      refine .inr (.inl ⟨hblank, cached, rfl, ?_⟩)
      simp [step, getRanking, hblank, hread, truncatePersonalizedScores_eq_take _ (rows_pos q)]
    | none =>
      refine .inr (.inr ⟨hblank, rfl, ?_⟩)
      simp only [step, getRanking, hblank, hread, if_false, computeRanking_eq_take, writeCache]
      split_ifs
      · exact ⟨_, .inl rfl, rfl⟩
      · exact ⟨_, .inr rfl, rfl⟩

theorem readCache_cut (hs : R.Cut s) {v : String} {readable : Bool}
    {cached : List (PersonalizedScore σ)}
    (h : R.readCache (some s.cache) readable v = some cached) : cached <+: R.ranking v := by
  unfold readCache at h
  split_ifs at h
  exact hs v cached h

theorem cut_step (hs : R.Cut s) (h : R.step s a = some t) : R.Cut t := by
  cases a with
  | expire key =>
    cases h
    exact cut_expire hs key
  | request q =>
    obtain ⟨-, hq⟩ | ⟨-, _, -, hq⟩ | ⟨-, -, cache, rfl | rfl, hq⟩ :=
      step_request (R := R) (s := s) q
    all_goals obtain rfl := Option.some.inj (hq.symm.trans h)
    · exact hs
    · exact hs
    · exact hs
    · exact cut_write hs _ _ _

theorem transparent_step_iff (hs : R.Cut s) (htr : R.Transparent s) (h : R.step s a = some t) :
    R.Transparent t ↔ R.Sufficient s a := by
  cases a with
  | expire key =>
    cases h
    exact iff_of_true htr trivial
  | request q =>
    have hcons : ∀ answer cache, R.Transparent ⟨cache, (q, answer) :: s.answers⟩ ↔
        answer = R.uncached q := fun answer cache =>
      ⟨fun ht => ht (q, answer) (.head _), fun heq a ha =>
        (mem_cons.mp ha).elim (fun hq => by rw [hq]; exact heq) (htr a)⟩
    obtain ⟨hv, hq⟩ | ⟨hv, cached, hread, hq⟩ | ⟨hv, hread, cache, -, hq⟩ :=
      step_request (R := R) (s := s) q
    all_goals
      obtain rfl := Option.some.inj (hq.symm.trans h)
      rw [hcons]
    · exact iff_of_true (by simp [uncached, getRanking, hv]) fun hne => absurd hv hne
    · rw [uncached_viewer hv, Except.ok.injEq,
        take_eq_take_iff_of_isPrefix (readCache_cut hs hread)]
      exact ⟨fun hle _ c hc => Option.some.inj (hread.symm.trans hc) ▸ hle,
        fun hsuff => hsuff hv cached hread⟩
    · refine iff_of_true (uncached_viewer hv).symm fun _ c hc => ?_
      simp [hread] at hc

end

/-- The cache is transparent throughout a run exactly when no request finds a cached list shorter
than both its limit and the ranking. -/
theorem always_transparent_iff_sufficient (actions : List CacheAction) :
    Always R.step R.Transparent (start σ) actions ↔ Guarded R.step R.Sufficient (start σ) actions :=
  always_iff_guarded (fun _ _ _ hs h => cut_step hs h)
    (fun _ _ _ hs htr h => transparent_step_iff hs htr h)
    (fun s a _ _ h => by cases a <;> simp [step] at h) (fun _ _ h => nomatch h) fun _ h => nomatch h

def sampleRanker : PersonalizedRanker ℕ where
  redisKeyPrefix := "nostrmash"
  maxSeedFollows := 2000
  ranker := { rank := fun g _ => (g.nodes.sort (· ≥ ·)).map fun pubkey => ⟨pubkey, 1⟩
              ranks_nodes := by simp }
  runID := 7
  followerEdges := []
  trustScoresGlobal := [⟨"alice", 9, 1⟩, ⟨"bob", 4, 2⟩]

/-- A viewer who asks for one row and then for ten gets one row again. -/
theorem second_request_cut_short : ¬ Always sampleRanker.step sampleRanker.Transparent (start ℕ)
      [.request ⟨"carol", 1, true, true⟩, .request ⟨"carol", 10, true, true⟩] := by
  intro h
  have htr := h _ (prefix_refl _) _ rfl
  exact absurd (htr _ (.head _)) (by decide)

end PersonalizedRanker
end NostrMash.Trust
