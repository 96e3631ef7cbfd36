import NostrMash.AuthorStatsReversal
import NostrMash.EngagementRetention
import NostrMash.ProjectedTable
import NostrMash.Validator

/-!
# Discovery windows

The discovery metrics of a pubkey over the last 24 hours, 7 days and 30 days are loaded in two
ways. The incremental loader adds up the hourly activity rows, which each event has changed once,
with the events stored at that time.
-/

namespace NostrMash.Discovery
open AuthorStats Counters ProjectedTable

/-- The content of an event that has passed validation. -/
structure StoredContent extends EventContent where
  pubkey_ne : pubkey ≠ ""
  createdAt_le : createdAt ≤ Nostr.maxUnixCreatedAt

section
variable (reader : RequestReader) (e : EventContent)

def replyTargets : List String :=
  normalizeUniqueIDs (CountFamily.projector .reply e.kind (deriveETagReferences e.tags))

def interactionTarget : String :=
  (((deriveETagReferences e.tags).map fun ref => trimSpace ref.id).find? (· ≠ "")).getD ""

structure InteractionRow where
  target : String
  pubkey : String
  createdAt : ℤ

def projectInteractionEvent (requiredKind : ℕ) : Option InteractionRow :=
  if e.kind ≠ requiredKind ∨ interactionTarget e = "" then none
  else some { target := interactionTarget e, pubkey := e.pubkey, createdAt := e.createdAt }

def projectReactionEvents : Option InteractionRow := projectInteractionEvent e 7

def projectRepostEvents : Option InteractionRow := projectInteractionEvent e 6

structure ZapRow where
  createdAt : ℤ
  senderPubkey : String
  receiverPubkey : Option String
  amountSats : ℤ

def projectZapReceipts : Option ZapRow :=
  if e.kind ≠ 9735 then none
  else
    let receiver := firstTagValue e.tags "p"
    some
      { createdAt := e.createdAt
        senderPubkey := zapReceiptSender reader e.pubkey e.tags
        receiverPubkey := if receiver = "" then none else some receiver
        amountSats := zapReceiptAmountSats reader e.tags }

def threadParent : Option String :=
  if e.kind ≠ 1 then none
  else
    let refs := deriveETagReferences e.tags
    let root := firstReferenceByRelation refs .root
    let reply := firstReferenceByRelation refs .reply
    let parent := if reply = "" then root else reply
    if parent = "" then none else some parent

end

section

inductive BundleStep where
  | projectReplyCounts
  | projectReactionEvents
  | projectRepostEvents
  | projectZapReceipts
  | updateThreadProjection
  | applyIncrementalAuthorStats
  deriving DecidableEq

def BundleStep.all : List BundleStep :=
  [.projectReplyCounts, .projectReactionEvents, .projectRepostEvents, .projectZapReceipts,
    .updateThreadProjection, .applyIncrementalAuthorStats]

structure DiscoveryState where
  stored : List String
  /-- The steps that have run. -/
  done : List (String × BundleStep)
  replyContributions : List (String × List String)
  reactionEvents : List (String × InteractionRow)
  repostEvents : List (String × InteractionRow)
  zapReceipts : List (String × ZapRow)
  threadEdges : List (String × String)
  hourlyRows : List (Delta HourlyKey HourlyField)
  hourlyLedger : List LedgerRow

def DiscoveryState.init : DiscoveryState :=
  { stored := [], done := [], replyContributions := [], reactionEvents := [], repostEvents := []
    zapReceipts := [], threadEdges := [], hourlyRows := [], hourlyLedger := [] }

inductive DiscoveryAction where
  | insertEvent (id : String)
  | derive (id : String) (step : BundleStep)

variable (reader : RequestReader) (content : String → StoredContent)

def contents (id : String) : EventContent := (content id).toEventContent

def applyHourly (s : DiscoveryState) (id : String) :
    List (Delta HourlyKey HourlyField) × List LedgerRow :=
  if id ∈ s.hourlyLedger.map Prod.fst then (s.hourlyRows, s.hourlyLedger)
  else
    let deltas := (hourly reader).eventDeltas (contents content) s.stored id
    (((hourly reader).writes deltas).foldl upsertRows s.hourlyRows,
      (id, s.stored) :: s.hourlyLedger)

def runStep (s : DiscoveryState) (id : String) (step : BundleStep) : DiscoveryState :=
  let e := contents content id
  match step with
  | .projectReplyCounts =>
    { s with replyContributions := put s.replyContributions id (some (replyTargets e)) }
  | .projectReactionEvents =>
    { s with reactionEvents := put s.reactionEvents id (projectReactionEvents e) }
  | .projectRepostEvents => { s with repostEvents := put s.repostEvents id (projectRepostEvents e) }
  | .projectZapReceipts =>
    { s with zapReceipts := putSome s.zapReceipts id (projectZapReceipts reader e) }
  | .updateThreadProjection => { s with threadEdges := put s.threadEdges id (threadParent e) }
  | .applyIncrementalAuthorStats =>
    { s with
      hourlyRows := (applyHourly reader content s id).1
      hourlyLedger := (applyHourly reader content s id).2 }

def discoveryStep (s : DiscoveryState) : DiscoveryAction → Option DiscoveryState
  | .insertEvent id => some { s with stored := if id ∈ s.stored then s.stored else id :: s.stored }
  | .derive id step =>
    if id ∈ s.stored then
      some { runStep reader content s id step with done := (id, step) :: s.done }
    else none

end

structure WindowMetrics where
  postCount : ℤ
  replyCount : ℤ
  engagement : ℤ
  zapVolumeMSats : ℤ
  activeDays : ℕ
  deriving DecidableEq

structure DualWindowMetrics where
  window24h : WindowMetrics
  window7d : WindowMetrics
  window30d : WindowMetrics
  deriving DecidableEq

def cutoff24h (now : ℤ) : ℤ := now - 86400

def cutoff7d (now : ℤ) : ℤ := now - 7 * 86400

def cutoff30d (now : ℤ) : ℤ := now - 30 * 86400

def bucketStart (key : HourlyKey) : ℤ := key.activityDate * 86400 + key.hourOfDay * 3600

def hourlyRowsOf (rows : List (Delta HourlyKey HourlyField)) (pubkey : String) (now : ℤ) :
    List (Delta HourlyKey HourlyField) :=
  rows.filter fun row =>
    row.1.pubkey = pubkey ∧ activityDate (cutoff30d now) ≤ row.1.activityDate

def incrementalWindow (rows : List (Delta HourlyKey HourlyField)) (cutoff : ℤ) : WindowMetrics :=
  let inWindow := fun key : HourlyKey => decide (cutoff ≤ bucketStart key)
  { postCount := rowSum inWindow .noteCount rows
    replyCount := rowSum inWindow .replyCount rows
    engagement := rowSum inWindow .engagementReceived rows
    zapVolumeMSats := rowSum inWindow .zapMsatsReceived rows
    activeDays := ((rows.filter fun row : Delta HourlyKey HourlyField =>
      inWindow row.1 ∧ 0 < row.2 .authoredEventCount).map (·.1.activityDate)).toFinset.card }

def loadProfileDualWindowMetricsIncremental (s : DiscoveryState) (pubkey : String) (now : ℤ) :
    DualWindowMetrics :=
  let rows := hourlyRowsOf s.hourlyRows pubkey now
  { window24h := incrementalWindow rows (cutoff24h now)
    window7d := incrementalWindow rows (cutoff7d now)
    window30d := incrementalWindow rows (cutoff30d now) }

variable (content : String → StoredContent)

def authoredIn (s : DiscoveryState) (pubkey : String) (now : ℤ) : List String :=
  s.stored.filter fun id => (content id).pubkey = pubkey ∧ cutoff30d now ≤ (content id).createdAt

def isReply (s : DiscoveryState) (id : String) : Bool := s.threadEdges.any (·.1 = id)

def replyTimes (s : DiscoveryState) (pubkey : String) (now : ℤ) : List ℤ :=
  s.replyContributions.flatMap fun row => row.2.filterMap fun target =>
    if row.1 ∈ s.stored ∧ target ∈ s.stored ∧ (content target).pubkey = pubkey ∧
        (content row.1).pubkey ≠ pubkey ∧ cutoff30d now ≤ (content row.1).createdAt then
      some (content row.1).createdAt
    else none

def interactionTimes (s : DiscoveryState) (table : List (String × InteractionRow))
    (pubkey : String) (now : ℤ) : List ℤ :=
  table.filterMap fun row =>
    if row.2.target ∈ s.stored ∧ (content row.2.target).pubkey = pubkey ∧
        row.2.pubkey ≠ pubkey ∧ cutoff30d now ≤ row.2.createdAt then
      some row.2.createdAt
    else none

def zapsTo (s : DiscoveryState) (pubkey : String) (now : ℤ) : List ZapRow :=
  (s.zapReceipts.map Prod.snd).filter fun row =>
    row.receiverPubkey = some pubkey ∧ row.senderPubkey ≠ pubkey ∧ cutoff30d now ≤ row.createdAt

def fullWindow (s : DiscoveryState) (pubkey : String) (now cutoff : ℤ) : WindowMetrics :=
  let authored := (authoredIn content s pubkey now).filter fun id =>
    cutoff ≤ (content id).createdAt
  let notes := authored.filter fun id => (content id).kind = 1
  let times := replyTimes content s pubkey now ++
    interactionTimes content s s.repostEvents pubkey now ++
    interactionTimes content s s.reactionEvents pubkey now
  let zaps := (zapsTo s pubkey now).filter fun row => cutoff ≤ row.createdAt
  { postCount := (notes.countP fun id => !isReply s id : ℕ)
    replyCount := (notes.countP fun id => isReply s id : ℕ)
    engagement := (times.countP (cutoff ≤ ·) + zaps.length : ℕ)
    zapVolumeMSats := (zaps.map fun row => row.amountSats * 1000).sum
    activeDays := ((authored.filter fun id =>
      (content id).createdAt ≤ Nostr.maxUnixCreatedAt).map fun id =>
        activityDate (content id).createdAt).toFinset.card }

def loadProfileDualWindowMetrics (s : DiscoveryState) (pubkey : String) (now : ℤ) :
    Option DualWindowMetrics :=
  if (zapsTo s pubkey now).all fun row => row.amountSats * 1000 < 2 ^ 63 then
    some
      { window24h := fullWindow content s pubkey now (cutoff24h now)
        window7d := fullWindow content s pubkey now (cutoff7d now)
        window30d := fullWindow content s pubkey now (cutoff30d now) }
  else none

end NostrMash.Discovery
