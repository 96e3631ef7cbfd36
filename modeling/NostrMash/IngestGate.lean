import NostrMash.References

/-!
# The trust gate of live ingest

The gate decides whether a valid event is kept.
-/

namespace NostrMash.Live

structure AddressCoordinate where
  kind : ℤ
  pubkey : String
  dTag : String
  deriving DecidableEq

def AddressCoordinate.text (a : AddressCoordinate) : String :=
  toString a.kind ++ ":" ++ a.pubkey ++ ":" ++ a.dTag

def parseAddressCoordinate (value : String) : Option AddressCoordinate :=
  match (trimSpace value).toList.span (· ≠ ':') with
  | (_, []) => none
  | (kindText, _ :: afterKind) =>
    match afterKind.span (· ≠ ':') with
    | (_, []) => none
    | (pubkeyText, _ :: dTag) =>
      match parseInt64 (String.ofList kindText) with
      | none => none
      | some kind =>
        let pubkey := toLower (trimSpace (String.ofList pubkeyText))
        if kind < 0 then none
        else if pubkey.utf8ByteSize ≠ 64 then none
        else some { kind := kind, pubkey := pubkey, dTag := String.ofList dTag }

def tagValues (tags : List Tag) (name : String) : List String :=
  tags.filterMap fun tag =>
    match tag with
    | key :: value :: _ => if key = name then some value else none
    | _ => none

def exactTagValues (tags : List Tag) (name : String) : List String :=
  (((tagValues tags name).map trimSpace).filter (· ≠ "")).eraseDups

def allETagValues (tags : List Tag) : List String := exactTagValues tags "e"

def firstETagValue (tags : List Tag) : Option String :=
  ((tagValues tags "e").map trimSpace).find? (· ≠ "")

def addressCoordinates (tags : List Tag) (name : String) : List AddressCoordinate :=
  ((tagValues tags name).filterMap parseAddressCoordinate).eraseDupsBy (·.text == ·.text)

def engagementTargetIDs (kind : ℤ) (tags : List Tag) : List String :=
  if kind ∈ [9735, 9321, 1018] then (firstETagValue tags).toList
  else if kind ∈ [6, 7, 16] then allETagValues tags
  else []

def nip22RootTargets (tags : List Tag) : List String × List AddressCoordinate :=
  (exactTagValues tags "E", addressCoordinates tags "A")

def replyParentTargetIDs (tags : List Tag) : List String :=
  let parent := replyParentEventID (deriveETagReferences tags)
  if parent = "" then [] else [parent]

def isAuthorGatedKind (kind : ℤ) : Bool :=
  kind ∈ [1, 4, 5, 8, 9, 11, 20, 21, 22, 1063, 1068, 1984, 1985, 9041, 9802,
    10000, 10001, 10003, 10006, 10007, 10009, 10012, 10015, 10019, 10030, 10050, 10063,
    30000, 30002, 30004, 30005, 30008, 30009, 30015, 30023, 30311, 30315, 34235, 34236]

def isRelayMetadataKind (kind : ℤ) : Bool := 39000 ≤ kind && kind ≤ 39003

def isEngagementKind (kind : ℤ) : Bool := kind ∈ [6, 7, 16, 1018, 1311, 9735]

def gateKindLabel (kind : ℤ) : String :=
  if kind ∈ [0, 3, 10002] then "open_kind"
  else if isAuthorGatedKind kind || isEngagementKind kind || isRelayMetadataKind kind ||
      kind ∈ [1059, 1111, 9321] then
    toString kind
  else "other"

inductive TrustGateMode where
  | openMode
  | trustedOnly
  deriving DecidableEq

inductive GateLabel where
  | accept
  | rejectUntrustedAuthor
  | rejectMissingTarget
  | shadowReject
  | failClosed
  deriving DecidableEq

structure GateDecision where
  accept : Bool
  kindLabel : String
  decision : GateLabel
  deriving DecidableEq

/-- What the gate learns from the trusted set, the store and the relay information. -/
structure GateAnswers where
  loaded : Bool
  contains : String → Bool
  eventsExist : List String → Except String Bool
  replaceableAddressesExist : List AddressCoordinate → Except String Bool
  relayInfoPubkey : String → Option String

section
variable (a : GateAnswers) (kindLabel : String) (enforce : Bool)

def acceptEvent : GateDecision := { accept := true, kindLabel := kindLabel, decision := .accept }

def rejectEvent (reason : GateLabel) : GateDecision :=
  if enforce then { accept := false, kindLabel := kindLabel, decision := reason }
  else { accept := true, kindLabel := kindLabel, decision := .shadowReject }

def evaluateAuthorGate (pubkey : String) : GateDecision :=
  if !a.loaded then rejectEvent kindLabel enforce .failClosed
  else if a.contains pubkey then acceptEvent kindLabel
  else rejectEvent kindLabel enforce .rejectUntrustedAuthor

def evaluateRecipientGate (tags : List Tag) : GateDecision :=
  let recipients := exactTagValues tags "p"
  if recipients = [] then rejectEvent kindLabel enforce .rejectMissingTarget
  else if !a.loaded then rejectEvent kindLabel enforce .failClosed
  else if recipients.any a.contains then acceptEvent kindLabel
  else rejectEvent kindLabel enforce .rejectUntrustedAuthor

def evaluateRelayMetadataGate (pubkey relayURL : String) : GateDecision :=
  if trimSpace relayURL = "" then rejectEvent kindLabel enforce .rejectUntrustedAuthor
  else
    match a.relayInfoPubkey relayURL with
    | none => rejectEvent kindLabel enforce .rejectUntrustedAuthor
    | some infoPubkey =>
      if toLower (trimSpace infoPubkey) = toLower (trimSpace pubkey) then acceptEvent kindLabel
      else rejectEvent kindLabel enforce .rejectUntrustedAuthor

def foundOrFailed : Except String Bool → Bool
  | .ok found => found
  | .error _ => true

def replyParentExists (tags : List Tag) : Bool :=
  let ids := replyParentTargetIDs tags
  ids ≠ [] && foundOrFailed (a.eventsExist ids)

def evaluateTargetExistsGate (ids : List String) : Option GateDecision :=
  if ids = [] then none
  else if foundOrFailed (a.eventsExist ids) then some (acceptEvent kindLabel)
  else some (rejectEvent kindLabel enforce .rejectMissingTarget)

def evaluateAnyTarget (ids : List String) (addrs : List AddressCoordinate) : Option GateDecision :=
  if ids = [] ∧ addrs = [] then none
  else
    match (evaluateTargetExistsGate a kindLabel enforce ids).filter (·.decision = .accept) with
    | some decision => some decision
    | none =>
      if addrs ≠ [] ∧ foundOrFailed (a.replaceableAddressesExist addrs) then
        some (acceptEvent kindLabel)
      else some (rejectEvent kindLabel enforce .rejectMissingTarget)

def acceptTargetOr (ids : List String) (addrs : List AddressCoordinate) (fallback : GateDecision) :
    GateDecision :=
  ((evaluateAnyTarget a kindLabel enforce ids addrs).filter (·.decision = .accept)).getD fallback

def requireTarget (ids : List String) (addrs : List AddressCoordinate) : GateDecision :=
  (evaluateAnyTarget a kindLabel enforce ids addrs).getD
    (rejectEvent kindLabel enforce .rejectMissingTarget)

end

def evaluateGate (mode : TrustGateMode) (a : GateAnswers) (kind : ℤ) (pubkey : String)
    (tags : List Tag) (relayURL : String) : GateDecision :=
  let kindLabel := gateKindLabel kind
  let enforce : Bool := mode = .trustedOnly
  if kind = 1 then
    if replyParentExists a tags then acceptEvent kindLabel
    else evaluateAuthorGate a kindLabel enforce pubkey
  else if kind = 1059 then evaluateRecipientGate a kindLabel enforce tags
  else if kind = 9321 then
    acceptTargetOr a kindLabel enforce (engagementTargetIDs kind tags) (addressCoordinates tags "a")
      (evaluateRecipientGate a kindLabel enforce tags)
  else if isRelayMetadataKind kind then
    evaluateRelayMetadataGate a kindLabel enforce pubkey relayURL
  else if kind = 1311 then requireTarget a kindLabel enforce [] (addressCoordinates tags "a")
  else if kind = 1111 then
    let (ids, addrs) := nip22RootTargets tags
    acceptTargetOr a kindLabel enforce ids addrs (evaluateAuthorGate a kindLabel enforce pubkey)
  else if isAuthorGatedKind kind then evaluateAuthorGate a kindLabel enforce pubkey
  else if isEngagementKind kind then
    requireTarget a kindLabel enforce (engagementTargetIDs kind tags)
      (if kind = 16 then addressCoordinates tags "a" else [])
  else acceptEvent kindLabel

end NostrMash.Live
