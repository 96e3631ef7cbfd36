import NostrMash.AuthorStats
import NostrMash.OldestFirst

/-!
# Replaceable state

`UpdateReplaceableState` keeps the current event of each address in `replaceable_state`. A trigger
on that table queues the event that is displaced for deletion, and takes the new winner out of the
queue; a loser queues itself.
-/

namespace NostrMash.Replaceable
open AuthorStats

def allowedTagNames : List String :=
  ["a", "d", "e", "ends", "g", "group", "image", "imeta", "m", "p", "r", "series", "starts",
    "status", "summary", "t", "thumb", "title", "u", "url", "video", "word"]

def shouldPersist (kind : ℕ) (tagName : String) : Bool :=
  if tagName = "" then false
  else if tagName = "p" ∧ kind = 3 then false
  else if tagName = "r" ∧ kind = 10002 then false
  else decide (tagName ∈ allowedTagNames)

structure EventTag where
  tagName : String
  tagIndex : ℕ
  valueIndex : ℕ
  value : String
  deriving DecidableEq

def expandEventTags (kind : ℕ) (tags : List Tag) : List EventTag :=
  tags.zipIdx.flatMap fun (tag, tagIndex) =>
    match tag with
    | [] => []
    | tagName :: values =>
      if shouldPersist kind tagName then
        values.zipIdx.map fun (value, i) => ⟨tagName, tagIndex, i, value⟩
      else []

def dTag (e : EventContent) : String :=
  ((oldest (fun tag => (tag.tagIndex : ℤ)) 1 ((expandEventTags e.kind e.tags).filter fun tag =>
    tag.tagName = "d" ∧ tag.valueIndex = 0)).head?.map (·.value)).getD ""

structure Address where
  pubkey : String
  kind : ℕ
  dTag : String
  deriving DecidableEq

structure Winner where
  eventID : String
  createdAt : ℤ
  deriving DecidableEq

/-- `replaceable_state` by address, and `replaceable_event_purge`. -/
structure Tables where
  state : Address → Option Winner
  purge : List Winner

def Tables.empty : Tables := { state := fun _ => none, purge := [] }

def enqueue (purge : List Winner) (row : Winner) : List Winner :=
  if row.eventID ∈ purge.map (·.eventID) then purge else row :: purge

def replaceableStateEnqueuePurge (old : Option Winner) (new : Winner) (purge : List Winner) :
    List Winner :=
  let queued :=
    match old with
    | some old => if old.eventID ≠ new.eventID then enqueue purge old else purge
    | none => purge
  queued.filter (·.eventID ≠ new.eventID)

def Winner.Beats (new old : Winner) : Prop :=
  old.createdAt < new.createdAt ∨ (new.createdAt = old.createdAt ∧ old.eventID < new.eventID)

instance (new old : Winner) : Decidable (new.Beats old) := inferInstanceAs (Decidable (_ ∨ _))

def Tables.put (S : Tables) (A : Address) (new : Winner) : Tables where
  state := Function.update S.state A (some new)
  purge := replaceableStateEnqueuePurge (S.state A) new S.purge

def Tables.upsert (S : Tables) (A : Address) (new : Winner) : Tables :=
  if (S.state A).all (fun old => new.Beats old) then S.put A new else S

def Tables.queueLoser (S : Tables) (A : Address) (new : Winner) : Tables :=
  if (S.state A).any (·.eventID = new.eventID) then S
  else { S with purge := enqueue S.purge new }

def isReplaceableKind (kind : ℕ) : Bool :=
  if kind = 0 ∨ kind = 3 then true
  else if 10000 ≤ kind ∧ kind < 20000 then true
  else 30000 ≤ kind ∧ kind < 40000

def address (e : EventContent) : Option Address :=
  if isReplaceableKind e.kind then some ⟨e.pubkey, e.kind, dTag e⟩ else none

structure Version where
  address : Address
  row : Winner
  deriving DecidableEq

def version (stored : String → Option EventContent) (eventID : String) : Option Version :=
  (stored eventID).bind fun e => (address e).map fun A => ⟨A, ⟨eventID, e.createdAt⟩⟩

def Tables.record (S : Tables) (v : Version) : Tables :=
  (S.upsert v.address v.row).queueLoser v.address v.row

def updateReplaceableState (stored : String → Option EventContent) (S : Tables)
    (eventID : String) : Except String Tables :=
  if trimSpace eventID = "" then .error "event id is required"
  else if (stored (trimSpace eventID)).isNone then
    .error "load event for replaceable derivation: no rows in result set"
  else .ok ((version stored (trimSpace eventID)).elim S S.record)

def updateAll (stored : String → Option EventContent) (calls : List String) : Tables :=
  calls.foldl (fun S id => (updateReplaceableState stored S id).toOption.getD S) .empty

end NostrMash.Replaceable
