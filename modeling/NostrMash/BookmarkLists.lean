import NostrMash.ReadCommitted
import NostrMash.ReplaceableTracking

/-!
# Bookmark lists

A bookmark list (kind 10003 or 30003) names notes by `e` tags and articles by `a` tags.
-/

namespace NostrMash.Bookmarks
open AuthorStats ReadCommitted Replaceable

structure BookmarkTarget where
  eventID : String
  address : String
  pubkey : String
  dTag : String
  deriving DecidableEq

def isHex64 (value : String) : Bool :=
  value.utf8ByteSize = 64 ∧ value.toList.all isHexLetter = true

def parseBookmarkAddress (raw : String) : Option BookmarkTarget :=
  let chars := (trimSpace raw).toList
  if chars.length ≤ 6 ∨ String.ofList (chars.take 6) ≠ "30023:" then none
  else
    let rest := chars.drop 6
    let pubkey := String.ofList (rest.takeWhile (· ≠ ':'))
    match rest.dropWhile (· ≠ ':') with
    | [] => none
    | _ :: d =>
      let dTag := trimSpace (String.ofList d)
      if dTag = "" ∨ isHex64 pubkey = false then none
      else some ⟨"", "30023:" ++ toLower pubkey ++ ":" ++ dTag, toLower pubkey, dTag⟩

def tagTarget : Tag → Option BookmarkTarget
  | "e" :: value :: _ =>
    if isHex64 (toLower (trimSpace value)) then some ⟨toLower (trimSpace value), "", "", ""⟩
    else none
  | "a" :: value :: _ => parseBookmarkAddress value
  | _ => none

def BookmarkTarget.key (target : BookmarkTarget) : String :=
  if target.address = "" then target.eventID ++ "\n" else "\n" ++ target.address

def addTarget (out : List BookmarkTarget) (target : BookmarkTarget) : List BookmarkTarget :=
  if target.key ∈ out.map (·.key) then out else out ++ [target]

def bookmarkTargetsFromTags (tags : List Tag) : List BookmarkTarget :=
  (tags.filterMap tagTarget).foldl addTarget []

def resolveTarget (state : Address → Option Winner) (target : BookmarkTarget) : BookmarkTarget :=
  if target.address = "" then target
  else
    match state ⟨target.pubkey, 30023, target.dTag⟩ with
    | none => target
    | some row => if row.eventID = "" then target else { target with eventID := row.eventID }

def resolveBookmarkAddresses (state : Address → Option Winner) (targets : List BookmarkTarget) :
    List BookmarkTarget :=
  targets.map (resolveTarget state)

structure BookmarkEdge where
  source : Address
  targetEventID : String
  targetAddress : String
  listEventID : String
  listCreatedAt : ℤ
  deriving DecidableEq

def BookmarkEdge.primaryKey (row : BookmarkEdge) : Address × String × String :=
  (row.source, row.targetEventID, row.targetAddress)

def edgeRows (A : Address) (list : Winner) (targets : List BookmarkTarget) : List BookmarkEdge :=
  (targets.filter fun target => target.eventID ≠ "" ∨ target.address ≠ "").map fun target =>
    ⟨A, target.eventID, target.address, list.eventID, list.createdAt⟩

structure Tables where
  replaceable : Replaceable.Tables
  edges : List BookmarkEdge

inductive Write where
  | upsertState (v : Version)
  | queueLoser (v : Version)
  | lockPubkeyForWrite (pubkey : String)
  | deleteEdges (A : Address)
  | insertEdges (A : Address) (rows : List BookmarkEdge)

/-- An upsert is decided by the row that it has locked, so it does not matter that it is applied
when its transaction commits. -/
def Write.apply (T : Tables) : Write → Tables
  | .upsertState v => { T with replaceable := T.replaceable.upsert v.address v.row }
  | .queueLoser v => { T with replaceable := T.replaceable.queueLoser v.address v.row }
  | .lockPubkeyForWrite _ => T
  | .deleteEdges A => { T with edges := T.edges.filter (·.source ≠ A) }
  | .insertEdges _ rows =>
    { T with
      edges := (T.edges.filter fun row => row.primaryKey ∉ rows.map (·.primaryKey)) ++ rows }

inductive Lock where
  | state (A : Address)
  | pubkey (pubkey : String)
  deriving DecidableEq

def Write.lock : Write → Lock
  | .upsertState v => .state v.address
  | .queueLoser v => .state v.address
  | .lockPubkeyForWrite pubkey => .pubkey pubkey
  | .deleteEdges A => .pubkey A.pubkey
  | .insertEdges A _ => .pubkey A.pubkey

def schema : Schema Tables Write Lock := ⟨Write.apply, Write.lock⟩

inductive Phase where
  | queued
  | upserted
  | loserQueued
  | recorded
  | current
  | locked
  | resolved (targets : List BookmarkTarget)
  | deleted (targets : List BookmarkTarget)
  | inserted
  | done
  deriving DecidableEq

abbrev State (τ : Type) := Session τ Tables Write Phase

inductive Act (τ : Type) where
  | next (t : τ)
  | fail (t : τ)

variable {τ : Type} [DecidableEq τ]

def isBookmarkList (kind : ℕ) : Bool := kind = 10003 ∨ kind = 30003

def isCurrent (T : Tables) (v : Version) : Bool :=
  (T.replaceable.state v.address).any (·.eventID = v.row.eventID)

def next (v : Version) (tags : List Tag) (s : State τ) (t : τ) : Option (State τ) :=
  match s.phase t with
  | .queued => s.write schema t [.upsertState v] .upserted
  | .upserted => s.write schema t [.queueLoser v] .loserQueued
  | .loserQueued => some (s.commit schema t .recorded)
  | .recorded =>
    if isBookmarkList v.address.kind && isCurrent s.committed v then some (s.goto t .current)
    else some (s.goto t .done)
  | .current => s.write schema t [.lockPubkeyForWrite v.address.pubkey] .locked
  | .locked =>
    some (s.goto t (.resolved (resolveBookmarkAddresses (s.view schema t).replaceable.state
      (bookmarkTargetsFromTags tags))))
  | .resolved targets => s.write schema t [.deleteEdges v.address] (.deleted targets)
  | .deleted targets =>
    s.write schema t [.insertEdges v.address (edgeRows v.address v.row targets)] .inserted
  | .inserted => some (s.commit schema t .done)
  | .done => none

def loaded (stored : String → Option EventContent) (eventID : String) :
    Option (EventContent × Option Version) :=
  if trimSpace eventID = "" then none
  else (stored (trimSpace eventID)).map fun e => (e, version stored (trimSpace eventID))

/-- A failed job rolls back and is tried again from its start. -/
def step (stored : String → Option EventContent) (event : τ → String) (s : State τ) :
    Act τ → Option (State τ)
  | .next t =>
    match loaded stored (event t) with
    | none => none
    | some (_, none) => some (s.goto t .done)
    | some (e, some v) => next v e.tags s t
  | .fail t =>
    match s.phase t with
    | .done => none
    | _ => some (s.rollback t .queued)

def init (T : Tables) : State τ := Session.start T .queued

end NostrMash.Bookmarks
