import Mathlib.Data.List.Basic
import Mathlib.Data.Int.Notation

/-!
# The cache of recently stored events

A bounded cache from identifiers of stored events to their authors. A map answers whether an
identifier is cached, and a list orders the entries by use, the most recent first.
-/

namespace NostrMash.Live

structure DedupEntry where
  id : String
  pubkey : String
  deriving DecidableEq

structure DedupCache where
  capacity : ℤ
  /-- The keys of the map. The element a key maps to is the one of `order` with this identifier. -/
  entries : List String
  order : List DedupEntry
  deriving DecidableEq

namespace DedupCache

def new (capacity : ℤ) : Option DedupCache :=
  if capacity ≤ 0 then none else some { capacity := capacity, entries := [], order := [] }

def moveToFront (c : DedupCache) (e : DedupEntry) : DedupCache :=
  { c with order := e :: c.order.filter (·.id ≠ e.id) }

def get (c : DedupCache) (id : String) : Option (String × DedupCache) :=
  if id ∈ c.entries then
    (c.order.find? (·.id = id)).map fun e => (e.pubkey, c.moveToFront e)
  else none

def evictOldest (c : DedupCache) : DedupCache :=
  match c.order.getLast? with
  | none => c
  | some oldest =>
    { c with order := c.order.dropLast, entries := c.entries.filter (· ≠ oldest.id) }

def add (c : DedupCache) (id pubkey : String) : DedupCache :=
  if id = "" then c
  else if id ∈ c.entries then c.moveToFront { id := id, pubkey := pubkey }
  else
    let room := if c.order.length ≥ c.capacity then c.evictOldest else c
    { room with
      entries := id :: room.entries
      order := { id := id, pubkey := pubkey } :: room.order }

end DedupCache
end NostrMash.Live
