import Gravastar.Cache.Representation

/-!
# The representation invariant of the cache

Whatever is called and whatever the clock says, the list and the map hold the
same keys, each entry's iterator points at the node of its key, and the byte
counter is the sum of the stored sizes and within the limit.
-/

namespace Gravastar

open DnsCache

/-- What `lru_`, `entries_` and `current_bytes_` owe each other between two calls. -/
structure DnsCache.Invariant (c : DnsCache) : Prop where
  lru_nodup : (c.lru.map LruNode.key).Nodup
  lru_keys : ∀ key, key ∈ c.lru.map LruNode.key ↔ key ∈ c.entries
  /-- Two elements of the list are never designated by the same iterator. -/
  ids_nodup : (c.lru.map LruNode.id).Nodup
  iterators : ∀ key entry, c.entries.lookup key = some entry → ⟨entry.lruIt, key⟩ ∈ c.lru
  sizes : ∀ key entry, c.entries.lookup key = some entry → entry.size = entry.response.length
  bytes : c.currentBytes = (c.entries.entries.map fun p => p.2.size).sum
  no_underflow : c.wrapped = false
  bounded : c.currentBytes ≤ c.maxBytes

theorem Represents.invariant {c : DnsCache} {xs : List Slot} (h : Represents c xs)
    (hb : c.currentBytes ≤ c.maxBytes) : c.Invariant where
  lru_nodup := by
    rw [h.lru, List.map_map]
    exact h.keys_nodup
  lru_keys key := by
    rw [h.lru, List.map_map, ← AList.lookup_isSome, Option.isSome_iff_exists]
    constructor
    · intro hk
      obtain ⟨x, hx, rfl⟩ := List.mem_map.mp hk
      exact ⟨x.2, h.lookup_mem hx⟩
    · rintro ⟨e, he⟩
      obtain ⟨x, hx, rfl, -⟩ := h.lookup_iff.mp he
      exact List.mem_map.mpr ⟨x, hx, rfl⟩
  ids_nodup := by
    rw [h.lru, List.map_map]
    exact h.ids
  iterators key entry he := by
    obtain ⟨x, hx, rfl, rfl⟩ := h.lookup_iff.mp he
    rw [h.lru, h.iterators x hx]
    exact List.mem_map_of_mem hx
  sizes key entry he := by
    obtain ⟨x, hx, rfl, rfl⟩ := h.lookup_iff.mp he
    exact h.sizes x hx
  bytes := by
    rw [h.bytes, (h.entries.map _).sum_eq, List.map_map]
    rfl
  no_underflow := h.exact
  bounded := hb

/-- A state reached by calls: it represents slots that fit into the limit. -/
def DnsCache.Sound (c : DnsCache) : Prop :=
  ∃ xs, Represents c xs ∧ Recency.total List.length (xs.map Slot.item) ≤ c.maxBytes

theorem DnsCache.Sound.invariant {c : DnsCache} (h : c.Sound) : c.Invariant := by
  obtain ⟨xs, hxs, hfit⟩ := h
  exact hxs.invariant (hxs.total_items ▸ hfit)

theorem represents_new (maxBytes ttlSec : Nat) : Represents (new maxBytes ttlSec) [] where
  entries := .nil
  iterators := by simp
  sizes := by simp
  ids := by simp
  fresh := by simp
  bytes := rfl
  exact := rfl
  lru := rfl

theorem sound_new (maxBytes ttlSec : Nat) : (new maxBytes ttlSec).Sound :=
  ⟨[], represents_new maxBytes ttlSec, Nat.zero_le _⟩

@[simp] theorem get_maxBytes (c : DnsCache) (key : Bytes) (now : Int) :
    (c.get key now).2.maxBytes = c.maxBytes := by
  rw [DnsCache.get]
  cases (c.evictExpired now).entries.lookup key <;> simp [pushBack, eraseNode]

@[simp] theorem get_ttlSec (c : DnsCache) (key : Bytes) (now : Int) :
    (c.get key now).2.ttlSec = c.ttlSec := by
  rw [DnsCache.get]
  cases (c.evictExpired now).entries.lookup key <;> simp [pushBack, eraseNode]

@[simp] theorem put_maxBytes (c : DnsCache) (key response : Bytes) (now time : Int) :
    (c.put key response now time).maxBytes = c.maxBytes := by
  rw [DnsCache.put]
  cases (c.evictExpired now).entries.lookup key <;> simp [pushBack, eraseNode, eraseEntry]

@[simp] theorem put_ttlSec (c : DnsCache) (key response : Bytes) (now time : Int) :
    (c.put key response now time).ttlSec = c.ttlSec := by
  rw [DnsCache.put]
  cases (c.evictExpired now).entries.lookup key <;> simp [pushBack, eraseNode, eraseEntry]

@[simp] theorem setLimits_maxBytes (c : DnsCache) (maxBytes ttlSec : Nat) :
    (c.setLimits maxBytes ttlSec).maxBytes = maxBytes := by simp [DnsCache.setLimits]

namespace DnsCache.Sound

variable {c : DnsCache}

theorem get (h : c.Sound) (key : Bytes) (now : Int) : (c.get key now).2.Sound := by
  obtain ⟨xs, hxs, hfit⟩ := h
  obtain ⟨ys, hys, heq⟩ := hxs.get key now
  have hitems : ys.map Slot.item = (Recency.get now key (xs.map Slot.item)).2 :=
    congrArg Prod.snd heq
  refine ⟨ys, hys, ?_⟩
  rw [hitems, get_maxBytes]
  exact (Recency.total_get_le ..).trans hfit

theorem put (h : c.Sound) (key response : Bytes) (now time : Int) :
    (c.put key response now time).Sound := by
  obtain ⟨xs, hxs, -⟩ := h
  obtain ⟨ys, hys, hitems⟩ := hxs.put key response now time
  refine ⟨ys, hys, ?_⟩
  rw [hitems, put_maxBytes]
  exact Recency.total_shed_le ..

theorem setLimits (h : c.Sound) (maxBytes ttlSec : Nat) : (c.setLimits maxBytes ttlSec).Sound := by
  obtain ⟨xs, hxs, -⟩ := h
  obtain ⟨ys, hys, hitems⟩ := hxs.setLimits maxBytes ttlSec
  refine ⟨ys, hys, ?_⟩
  rw [hitems, setLimits_maxBytes]
  exact Recency.total_shed_le ..

theorem call (h : c.Sound) (k : CacheCall) : (c.call k).2.Sound := by
  cases k with
  | put key response now time => exact h.put key response now time
  | get key now => exact h.get key now
  | setLimits maxBytes ttlSec => exact h.setLimits maxBytes ttlSec

end DnsCache.Sound

theorem cache_run_sound (maxBytes ttlSec : Nat) (calls : List CacheCall) :
    ((cacheMachine maxBytes ttlSec).after calls).Sound :=
  (cacheMachine maxBytes ttlSec).invariant (sound_new maxBytes ttlSec)
    (fun _ k h => h.call k) calls

/-- Any sequence of calls, whatever the clock says at each of them, ends in a state that
keeps the representation invariant. -/
theorem cache_invariant (maxBytes ttlSec : Nat) (calls : List CacheCall) :
    ((cacheMachine maxBytes ttlSec).after calls).Invariant :=
  (cache_run_sound maxBytes ttlSec calls).invariant

end Gravastar
