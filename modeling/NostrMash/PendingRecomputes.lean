import NostrMash.AuthorStats
import NostrMash.KeyedTable

/-!
# Pending recomputes

An event marks the authors whose statistics it changes, in one table for the author analytics and
in another for the profile statistics.
-/

namespace NostrMash.Recompute
open AuthorStats

inductive Sweep where
  | authorAnalytics
  | profileStats
  deriving DecidableEq

structure PendingRow where
  markedAt : ℤ
  claimedAt : Option ℤ
  claimToken : Option String
  deriving DecidableEq

abbrev PendingTable := KeyedTable String PendingRow

def markDirty (pubkeys : List String) (now : ℤ) (T : PendingTable) : PendingTable :=
  pubkeys.foldl (fun T pubkey =>
    T.upsert pubkey ⟨now, none, none⟩ fun row => { row with markedAt := now }) T

def Sweep.marksKind : Sweep → ℕ → Bool
  | .authorAnalytics, _ => true
  | .profileStats, kind => kind ≠ 3

/-- The authors that a call of `MarkAuthorAnalyticsDirty` or `MarkProfileStatsDirty` marks. -/
def dirtyPubkeys (stored : String → Option EventContent) (sweep : Sweep) (affected : List String)
    (eventID : String) : Except String (List String) :=
  if trimSpace eventID = "" then .error "event id is required"
  else
    match stored (trimSpace eventID) with
    | none => .ok []
    | some e => .ok (if sweep.marksKind e.kind then normalizeUniqueIDs affected else [])

def claimCandidateWindow : ℕ := 32

def claimLease : ℤ := 5 * 60 * 1000000

/-- What the claim query reads besides the table: the clock, the gap between refreshes, when the
statistics of an author were last refreshed, and the locks of other transactions. -/
structure ClaimContext where
  now : ℤ
  sweeperRefreshGap : ℤ
  refreshedAt : String → Option ℤ
  rowLocked : String → Bool
  lockHeld : String → Bool

def ClaimContext.claimable (ctx : ClaimContext) (pubkey : String) (row : PendingRow) : Bool :=
  (row.claimedAt.all fun at_ => at_ < ctx.now - claimLease) &&
    (ctx.sweeperRefreshGap ≤ 0 ||
      (ctx.refreshedAt pubkey).all fun at_ => at_ < ctx.now - ctx.sweeperRefreshGap) &&
    !ctx.rowLocked pubkey

def marksFirst (a b : String × PendingRow) : Prop :=
  a.2.markedAt < b.2.markedAt ∨ (a.2.markedAt = b.2.markedAt ∧ a.1 ≤ b.1)

instance (a b : String × PendingRow) : Decidable (marksFirst a b) :=
  inferInstanceAs (Decidable (_ ∨ _))

def candidates (ctx : ClaimContext) (T : PendingTable) : List (String × PendingRow) :=
  ((T.rows.filter fun row => ctx.claimable row.1 row.2).insertionSort marksFirst).take
    claimCandidateWindow

structure Claim where
  pubkey : String
  claimToken : String
  markedAt : ℤ
  deriving DecidableEq

def claimPending (ctx : ClaimContext) (token : String) (T : PendingTable) :
    Option (Claim × PendingTable) :=
  ((candidates ctx T).find? fun row => !ctx.lockHeld row.1).map fun row =>
    (⟨row.1, token, row.2.markedAt⟩, T.update (fun pubkey _ => pubkey = row.1) fun old =>
        { old with claimedAt := some ctx.now, claimToken := some token })

def Claim.owns (c : Claim) (pubkey : String) (row : PendingRow) : Bool :=
  pubkey = c.pubkey ∧ row.claimToken = some c.claimToken

def Claim.finalizes (c : Claim) (pubkey : String) (row : PendingRow) : Bool :=
  c.owns pubkey row && row.markedAt = c.markedAt

def finalizeDelete (c : Claim) (T : PendingTable) : PendingTable := T.delete c.finalizes

def finalizeAffects (c : Claim) (T : PendingTable) : Bool :=
  (T.get c.pubkey).any (c.finalizes c.pubkey)

def clearClaim (c : Claim) (T : PendingTable) : PendingTable :=
  T.update c.owns fun row => { row with claimedAt := none, claimToken := none }

/-- Where a sweeper is with its claim. -/
inductive Phase where
  | idle
  | claimed (sweep : Sweep) (c : Claim)
  | rebuilding (sweep : Sweep) (c : Claim) (seen : ℕ)
  | rebuilt (sweep : Sweep) (c : Claim)
  | failed (sweep : Sweep) (c : Claim)
  | unmatched (sweep : Sweep) (c : Claim)

structure Rebuild where
  sweep : Sweep
  pubkey : String
  seen : ℕ

/-- Beside the tables and the sweepers, the marks of each author (the last one first) and the
rebuilds that have succeeded. -/
structure State (τ : Type) where
  pending : Sweep → PendingTable
  phase : τ → Phase
  marks : Sweep → String → List ℤ
  rebuilds : List Rebuild

inductive Act (τ : Type) where
  | mark (sweep : Sweep) (affected : List String) (eventID : String) (now : ℤ)
  | claim (w : τ) (sweep : Sweep) (ctx : ClaimContext) (token : String)
  | startRebuild (w : τ)
  | finishRebuild (w : τ)
  | failRebuild (w : τ)
  | release (w : τ)
  | deleteRow (w : τ)
  | clear (w : τ)
  /-- A crash, or an error that ends the cycle of the sweeper. -/
  | quit (w : τ)

variable {τ : Type} [DecidableEq τ]

def State.goto (s : State τ) (w : τ) (p : Phase) : State τ :=
  { s with phase := Function.update s.phase w p }

def State.setPending (s : State τ) (sweep : Sweep) (T : PendingTable) : State τ :=
  { s with pending := Function.update s.pending sweep T }

def State.mark (s : State τ) (sweep : Sweep) (pubkeys : List String) (now : ℤ) : State τ where
  pending := Function.update s.pending sweep (markDirty pubkeys now (s.pending sweep))
  phase := s.phase
  marks := fun sweep' pubkey =>
    if sweep' = sweep ∧ pubkey ∈ pubkeys then now :: s.marks sweep' pubkey
    else s.marks sweep' pubkey
  rebuilds := s.rebuilds

def claimStep (s : State τ) (w : τ) (sweep : Sweep) (ctx : ClaimContext) (token : String) :
    Option (State τ) :=
  match s.phase w, claimPending ctx token (s.pending sweep) with
  | .idle, some (c, T) => some ((s.setPending sweep T).goto w (.claimed sweep c))
  | _, _ => none

def startStep (s : State τ) (w : τ) : Option (State τ) :=
  match s.phase w with
  | .claimed sweep c => some (s.goto w (.rebuilding sweep c (s.marks sweep c.pubkey).length))
  | _ => none

def finishStep (s : State τ) (w : τ) : Option (State τ) :=
  match s.phase w with
  | .rebuilding sweep c seen =>
    some { s.goto w (.rebuilt sweep c) with rebuilds := ⟨sweep, c.pubkey, seen⟩ :: s.rebuilds }
  | _ => none

def failStep (s : State τ) (w : τ) : Option (State τ) :=
  match s.phase w with
  | .claimed sweep c => some (s.goto w (.failed sweep c))
  | .rebuilding sweep c _ => some (s.goto w (.failed sweep c))
  | _ => none

def releaseStep (s : State τ) (w : τ) : Option (State τ) :=
  match s.phase w with
  | .failed sweep c => some ((s.setPending sweep (clearClaim c (s.pending sweep))).goto w .idle)
  | _ => none

def deleteStep (s : State τ) (w : τ) : Option (State τ) :=
  match s.phase w with
  | .rebuilt sweep c =>
    if finalizeAffects c (s.pending sweep) then
      some ((s.setPending sweep (finalizeDelete c (s.pending sweep))).goto w .idle)
    else some (s.goto w (.unmatched sweep c))
  | _ => none

def clearStep (s : State τ) (w : τ) : Option (State τ) :=
  match s.phase w with
  | .unmatched sweep c =>
    some ((s.setPending sweep (clearClaim c (s.pending sweep))).goto w .idle)
  | _ => none

def step (stored : String → Option EventContent) (s : State τ) : Act τ → Option (State τ)
  | .mark sweep affected eventID now =>
    (dirtyPubkeys stored sweep affected eventID).toOption.map (s.mark sweep · now)
  | .claim w sweep ctx token => claimStep s w sweep ctx token
  | .startRebuild w => startStep s w
  | .finishRebuild w => finishStep s w
  | .failRebuild w => failStep s w
  | .release w => releaseStep s w
  | .deleteRow w => deleteStep s w
  | .clear w => clearStep s w
  | .quit w => some (s.goto w .idle)

def init : State τ where
  pending := fun _ => .empty
  phase := fun _ => .idle
  marks := fun _ _ => []
  rebuilds := []

end NostrMash.Recompute
