import Mathlib
import NostrMash.KeyedTable
import NostrMash.OldestFirst
import NostrMash.Text

/-!
# The trust frontier

`ingest_pubkey_frontier` schedules the authors whose events are fetched from relays. A refresh adds
the candidates, turns failed rows whose retry is due into candidates again, and promotes stable
candidates.
-/

namespace NostrMash.Frontier

structure Candidate where
  pubkey : String
  score : ℚ
  rank : ℤ
  sourceRunID : ℤ

def appendUnique (out : List Candidate) (cap : ℕ) : List Candidate → List Candidate
  | [] => out
  | candidate :: rows =>
    if cap ≤ out.length then out
    else if trimSpace candidate.pubkey = "" ∨
        trimSpace candidate.pubkey ∈ out.map (·.pubkey) then appendUnique out cap rows
    else appendUnique (out ++ [{ candidate with pubkey := trimSpace candidate.pubkey }]) cap rows

structure Sources where
  trustRows : List Candidate
  popular : List Candidate

def mergeFrontierCandidates (sources : Sources) (limit : ℕ) : List Candidate :=
  let popular := appendUnique [] (limit - limit / 2) sources.popular
  appendUnique (appendUnique popular limit sources.trustRows) limit sources.popular

inductive FetchState where
  | candidate
  | active
  | cooldown
  | failed
  deriving DecidableEq

structure FrontierRow where
  sourceRunID : ℤ
  trustRank : ℤ
  trustScore : ℚ
  state : FetchState
  firstSeenAt : ℤ
  nextEligibleAt : ℤ
  deriving DecidableEq

abbrev FrontierTable := KeyedTable String FrontierRow

structure RefreshParams where
  limit : ℤ
  minStableWindow : ℤ
  maxPromotions : ℤ

def RefreshParams.candidates (params : RefreshParams) (sources : Sources) : List Candidate :=
  mergeFrontierCandidates sources (if params.limit ≤ 0 then 2000 else params.limit.toNat)

def RefreshParams.promotions (params : RefreshParams) : ℕ :=
  if params.maxPromotions ≤ 0 then 100 else params.maxPromotions.toNat

def RefreshParams.stable (params : RefreshParams) : ℤ := max params.minStableWindow 0

def upsertCandidate (window now : ℤ) (T : FrontierTable) (candidate : Candidate) : FrontierTable :=
  if trimSpace candidate.pubkey = "" then T
  else
    T.upsert (trimSpace candidate.pubkey)
      { sourceRunID := candidate.sourceRunID, trustRank := candidate.rank
        trustScore := candidate.score, state := .candidate, firstSeenAt := now
        nextEligibleAt := now + window }
      fun row => { row with
        sourceRunID := candidate.sourceRunID, trustRank := candidate.rank
        trustScore := candidate.score }

def seenPubkeys (candidates : List Candidate) : List String :=
  (candidates.map fun candidate => trimSpace candidate.pubkey).filter (· ≠ "")

def popularPubkeys (candidates : List Candidate) : List String :=
  (candidates.filter fun candidate => candidate.rank < 0 ∧ candidate.pubkey ≠ "").map (·.pubkey)

def demotedLargeAccountFrontierRank : ℤ := 2 ^ 63 - 1

def demote (popular : List String) (T : FrontierTable) : FrontierTable :=
  T.update (fun pubkey row => row.trustRank < 0 ∧ pubkey ∉ popular)
    fun row => { row with trustRank := demotedLargeAccountFrontierRank }

def upsertCandidates (window now : ℤ) (candidates : List Candidate) (T : FrontierTable) :
    FrontierTable :=
  demote (popularPubkeys candidates) (candidates.foldl (upsertCandidate window now) T)

def retryDue (seen : List String) (now : ℤ) (pubkey : String) (row : FrontierRow) : Bool :=
  row.state = .failed ∧ row.nextEligibleAt ≤ now ∧ pubkey ∈ seen

def reactivate (seen : List String) (now : ℤ) (T : FrontierTable) : FrontierTable :=
  T.update (retryDue seen now) fun row => { row with state := .candidate }

def promotable (seen : List String) (stable : ℤ) (limit : ℕ) (now : ℤ) (T : FrontierTable) :
    List String :=
  (oldest (fun row : String × FrontierRow => row.2.trustRank) limit (T.rows.filter fun row =>
    row.1 ∈ seen ∧ row.2.state = .candidate ∧ row.2.firstSeenAt ≤ now - stable)).map Prod.fst

def promote (pubkeys : List String) (now : ℤ) (T : FrontierTable) : FrontierTable :=
  T.update (fun pubkey _ => pubkey ∈ pubkeys) fun row =>
    { row with state := .active, nextEligibleAt := min row.nextEligibleAt now }

def RefreshParams.considered (params : RefreshParams) (sources : Sources) (now : ℤ)
    (T : FrontierTable) : FrontierTable :=
  reactivate (seenPubkeys (params.candidates sources)) now
    (upsertCandidates params.minStableWindow now (params.candidates sources) T)

def RefreshParams.promoted (params : RefreshParams) (sources : Sources) (now : ℤ)
    (T : FrontierTable) : List String :=
  promotable (seenPubkeys (params.candidates sources)) params.stable params.promotions now
    (params.considered sources now T)

def RefreshParams.refreshed (params : RefreshParams) (sources : Sources) (now : ℤ)
    (T : FrontierTable) : FrontierTable :=
  if (params.candidates sources).isEmpty then T
  else promote (params.promoted sources now T) now (params.considered sources now T)

structure RefreshResult where
  candidatesUpserted : ℕ
  promotedToActive : ℕ
  reactivatedFailed : ℕ
  activeCount : ℕ

def countRows (T : FrontierTable) (p : String → FrontierRow → Bool) : ℕ :=
  T.rows.countP fun row => p row.1 row.2

def RefreshParams.result (params : RefreshParams) (sources : Sources) (now : ℤ)
    (T : FrontierTable) : RefreshResult :=
  let seen := seenPubkeys (params.candidates sources)
  if seen.isEmpty then ⟨0, 0, 0, 0⟩
  else
    { candidatesUpserted := seen.length
      promotedToActive := (params.promoted sources now T).length
      reactivatedFailed := countRows
        (upsertCandidates params.minStableWindow now (params.candidates sources) T)
        (retryDue seen now)
      activeCount := countRows (params.refreshed sources now T) fun _ row => row.state = .active }

def refreshTrustPubkeyFrontier (T : FrontierTable) (fault : Option String)
    (params : RefreshParams) (sources : Sources) (now : ℤ) :
    Except String (RefreshResult × FrontierTable) :=
  match fault with
  | some err => .error err
  | none => .ok (params.result sources now T, params.refreshed sources now T)

structure Entry where
  pubkey : String
  trustRank : ℤ
  trustScore : ℚ
  sourceRunID : ℤ

def claimable (T : FrontierTable) (limit : ℕ) (locked : String → Bool) (now : ℤ) :
    List (String × FrontierRow) :=
  oldest (fun row => row.2.trustRank) limit (T.rows.filter fun row =>
    row.2.state = .active ∧ row.2.nextEligibleAt ≤ now ∧ ¬ locked row.1)

def coolDown (pubkeys : List String) (cooldown now : ℤ) (T : FrontierTable) : FrontierTable :=
  T.update (fun pubkey _ => pubkey ∈ pubkeys) fun row =>
    { row with state := .cooldown, nextEligibleAt := now + cooldown }

/-- A claim fails before its statement has run, or while its rows are read. -/
inductive ClaimFault where
  | statement (err : String)
  | reading (err : String)

def claimTrustPubkeyFrontierForFetch (T : FrontierTable) (fault : Option ClaimFault)
    (limit cooldown : ℤ) (locked : String → Bool) (now : ℤ) :
    Except String (List Entry) × FrontierTable :=
  let rows := claimable T (if limit ≤ 0 then 50 else limit.toNat) locked now
  let claimed := coolDown (rows.map Prod.fst) (max cooldown 0) now T
  match fault with
  | some (.statement err) => (.error ("claim trust pubkey frontier rows: " ++ err), T)
  | some (.reading err) => (.error err, claimed)
  | none =>
    (.ok (rows.map fun row => ⟨row.1, row.2.trustRank, row.2.trustScore, row.2.sourceRunID⟩),
      claimed)

def markFetched (T : FrontierTable) (pubkey : String) (state : FetchState)
    (nextEligibleAt : ℤ) : FrontierTable :=
  T.update (fun key _ => key = pubkey) fun row =>
    { row with state := state, nextEligibleAt := nextEligibleAt }

def markTrustPubkeyFetchSuccess (T : FrontierTable) (fault : Option String) (pubkey : String)
    (cooldown now : ℤ) : Except String FrontierTable :=
  if trimSpace pubkey = "" then .error "pubkey is required"
  else
    match fault with
    | some err => .error ("mark trust pubkey fetch success: " ++ err)
    | none => .ok (markFetched T (trimSpace pubkey) .active (now + cooldown))

def markTrustPubkeyFetchFailure (T : FrontierTable) (fault : Option String) (pubkey : String)
    (retryAfter now : ℤ) : Except String FrontierTable :=
  if trimSpace pubkey = "" then .error "pubkey is required"
  else
    match fault with
    | some err => .error ("mark trust pubkey fetch failure: " ++ err)
    | none => .ok (markFetched T (trimSpace pubkey) .failed (now + retryAfter))

inductive Call where
  | refresh (fault : Option String) (params : RefreshParams) (sources : Sources) (now : ℤ)
  | claim (fault : Option ClaimFault) (limit cooldown : ℤ) (locked : String → Bool) (now : ℤ)
  | success (fault : Option String) (pubkey : String) (cooldown now : ℤ)
  | failure (fault : Option String) (pubkey : String) (retryAfter now : ℤ)

/-- A process that crashes makes no further call. -/
def Call.exec (T : FrontierTable) : Call → FrontierTable
  | .refresh fault params sources now =>
    ((refreshTrustPubkeyFrontier T fault params sources now).toOption.map (·.2)).getD T
  | .claim fault limit cooldown locked now =>
    (claimTrustPubkeyFrontierForFetch T fault limit cooldown locked now).2
  | .success fault pubkey cooldown now =>
    (markTrustPubkeyFetchSuccess T fault pubkey cooldown now).toOption.getD T
  | .failure fault pubkey retryAfter now =>
    (markTrustPubkeyFetchFailure T fault pubkey retryAfter now).toOption.getD T

def execAll (calls : List Call) : FrontierTable := calls.foldl Call.exec .empty

end NostrMash.Frontier
