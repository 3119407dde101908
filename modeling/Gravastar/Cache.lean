import Gravastar.Bytes
import Gravastar.Lib.Machine
import Mathlib.Data.List.AList

/-!
# The response cache (`cache.h`, `cache.cpp`)

`lru_` is a linked list whose iterators stay valid while other elements come
and go; its nodes carry an identity here, and a stored iterator is the identity
of a node. Every call of `std::time` is an argument of its own, so the clock
may do anything between two calls.
-/

namespace Gravastar

/-- An element of `lru_`; `id` is what an iterator to it holds on to. -/
structure LruNode where
  id : Nat
  key : Bytes
  deriving DecidableEq, Repr

/-- `DnsCache::Entry`. -/
structure Entry where
  response : Bytes
  expiry : Int
  size : Nat
  lruIt : Nat
  deriving DecidableEq, Repr

/-- `DnsCache`, with two fields the source lacks: `nextNode` is the identity the next node
gets, and `wrapped` remembers whether a subtraction from `current_bytes_` ever underflowed. -/
structure DnsCache where
  maxBytes : Nat
  ttlSec : Nat
  currentBytes : Nat
  lru : List LruNode
  entries : AList fun _ : Bytes => Entry
  nextNode : Nat
  wrapped : Bool
  deriving DecidableEq

/-- Subtraction on `size_t`: an underflow wraps around. -/
def sizeSub (a b : Nat) : Nat := if b ≤ a then a - b else a + 2 ^ 64 - b

namespace DnsCache

/-- The constructor. -/
def new (maxBytes ttlSec : Nat) : DnsCache := ⟨maxBytes, ttlSec, 0, [], ∅, 0, false⟩

/-- `current_bytes_ -= entry.size; entries_.erase(key)`. -/
def eraseEntry (c : DnsCache) (key : Bytes) (entry : Entry) : DnsCache :=
  { c with
    currentBytes := sizeSub c.currentBytes entry.size
    entries := c.entries.erase key
    wrapped := c.wrapped || c.currentBytes < entry.size }

/-- `lru_.erase(it)`. -/
def eraseNode (c : DnsCache) (it : Nat) : DnsCache :=
  { c with lru := c.lru.eraseP fun node => node.id = it }

/-- `lru_.push_back(key)`; the new node gets an identity never used before. -/
def pushBack (c : DnsCache) (key : Bytes) : DnsCache :=
  { c with lru := c.lru ++ [⟨c.nextNode, key⟩], nextNode := c.nextNode + 1 }

/-- The loop of `EvictExpired`: nodes already passed over, and nodes ahead. -/
def evictExpiredLoop (now : Int) (c : DnsCache) (passed : List LruNode) :
    List LruNode → DnsCache
  | [] => { c with lru := passed }
  | node :: rest =>
    match c.entries.lookup node.key with
    | none => evictExpiredLoop now c passed rest
    | some entry =>
      if entry.expiry ≤ now then
        evictExpiredLoop now (c.eraseEntry node.key entry) passed rest
      else
        evictExpiredLoop now c (passed ++ [node]) rest

def evictExpired (c : DnsCache) (now : Int) : DnsCache := evictExpiredLoop now c [] c.lru

/-- The loop of `EvictIfNeeded`, over the nodes from the front. -/
def evictIfNeededLoop (c : DnsCache) : List LruNode → DnsCache
  | [] => { c with lru := [] }
  | node :: rest =>
    if c.currentBytes > c.maxBytes then
      match c.entries.lookup node.key with
      | some entry => evictIfNeededLoop (c.eraseEntry node.key entry) rest
      | none => evictIfNeededLoop c rest
    else
      { c with lru := node :: rest }

def evictIfNeeded (c : DnsCache) : DnsCache := evictIfNeededLoop c c.lru

def setLimits (c : DnsCache) (maxBytes ttlSec : Nat) : DnsCache :=
  { c with maxBytes := maxBytes, ttlSec := ttlSec }.evictIfNeeded

/-- `Get`; `now` is the clock of `EvictExpired`. -/
def get (c : DnsCache) (key : Bytes) (now : Int) : Option Bytes × DnsCache :=
  let c := c.evictExpired now
  match c.entries.lookup key with
  | none => (none, c)
  | some entry =>
    let c := c.eraseNode entry.lruIt
    let it := c.nextNode
    (some entry.response,
      { c.pushBack key with entries := c.entries.insert key { entry with lruIt := it } })

/-- `Put`; `now` is the clock of `EvictExpired`, `time` the one the expiry is computed from. -/
def put (c : DnsCache) (key response : Bytes) (now time : Int) : DnsCache :=
  let c := c.evictExpired now
  let c := match c.entries.lookup key with
    | none => c
    | some entry => (c.eraseEntry key entry).eraseNode entry.lruIt
  let it := c.nextNode
  let entry : Entry := ⟨response, time + c.ttlSec, response.length, it⟩
  { c.pushBack key with
    entries := c.entries.insert key entry
    currentBytes := c.currentBytes + entry.size }.evictIfNeeded

end DnsCache

/-! ## Runs -/

/-- A call from outside, with the clock values it reads. -/
inductive CacheCall where
  | put (key response : Bytes) (now time : Int)
  | get (key : Bytes) (now : Int)
  | setLimits (maxBytes ttlSec : Nat)
  deriving DecidableEq, Repr

/-- The effect of a call, and what `Get` returns. -/
def DnsCache.call (c : DnsCache) : CacheCall → Option Bytes × DnsCache
  | .put key response now time => (none, c.put key response now time)
  | .get key now => c.get key now
  | .setLimits maxBytes ttlSec => (none, c.setLimits maxBytes ttlSec)

/-- A cache in use, from its constructor on. -/
def cacheMachine (maxBytes ttlSec : Nat) : Machine DnsCache CacheCall (Option Bytes) :=
  ⟨DnsCache.new maxBytes ttlSec, DnsCache.call⟩

end Gravastar
