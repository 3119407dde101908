import Gravastar.Cache.Invariant

/-!
# The cache as a recency list

What a caller can tell about a cache is the list of its keys, responses and
expiries in the order of `lru_`. Every call from a reachable state has the effect
of a simple operation on that list.
-/

namespace Gravastar

namespace DnsCache

/-- The key, response and expiry behind each node of `lru_`. -/
def recencyList (c : DnsCache) : List (Recency.Item Bytes Bytes Int) :=
  c.lru.filterMap fun node =>
    (c.entries.lookup node.key).map fun entry => ⟨node.key, entry.response, entry.expiry⟩

/-- What is left at the time `now`. -/
def live (c : DnsCache) (now : Int) : List (Recency.Item Bytes Bytes Int) :=
  c.recencyList.filter fun x => now < x.deadline

end DnsCache

theorem Represents.recencyList_eq {c : DnsCache} {xs : List Slot} (h : Represents c xs) :
    c.recencyList = xs.map Slot.item := by
  rw [DnsCache.recencyList, h.lru, List.filterMap_map, ← List.filterMap_eq_map]
  refine List.filterMap_congr fun x hx => ?_
  rw [Function.comp_apply, h.lookup_mem hx]
  rfl

namespace DnsCache.Sound

variable {c : DnsCache}

theorem recencyList_nodup (h : c.Sound) : (c.recencyList.map Recency.Item.key).Nodup := by
  obtain ⟨xs, hxs, -⟩ := h
  rw [hxs.recencyList_eq]
  exact hxs.items_nodup

theorem recencyList_get (h : c.Sound) (key : Bytes) (now : Int) :
    ((c.get key now).1, (c.get key now).2.recencyList) = Recency.get now key c.recencyList := by
  obtain ⟨xs, hxs, -⟩ := h
  obtain ⟨ys, hys, heq⟩ := hxs.get key now
  rw [hxs.recencyList_eq, hys.recencyList_eq, heq]

theorem recencyList_put (h : c.Sound) (key response : Bytes) (now time : Int) :
    (c.put key response now time).recencyList =
      Recency.put List.length c.maxBytes now key response (time + c.ttlSec) c.recencyList := by
  obtain ⟨xs, hxs, -⟩ := h
  obtain ⟨ys, hys, heq⟩ := hxs.put key response now time
  rw [hxs.recencyList_eq, hys.recencyList_eq, heq]

theorem recencyList_setLimits (h : c.Sound) (maxBytes ttlSec : Nat) :
    (c.setLimits maxBytes ttlSec).recencyList =
      Recency.shed List.length maxBytes c.recencyList := by
  obtain ⟨xs, hxs, -⟩ := h
  obtain ⟨ys, hys, heq⟩ := hxs.setLimits maxBytes ttlSec
  rw [hxs.recencyList_eq, hys.recencyList_eq, heq]

end DnsCache.Sound

/-- In every reachable state the three operations act on the recency list, and nothing but the item
that is looked up or put changes its place. -/
theorem cache_refines_recency_list (maxBytes ttlSec : Nat) (calls : List CacheCall) :
    let c := (cacheMachine maxBytes ttlSec).after calls
    (∀ key now,
      ((∀ x ∈ c.live now, x.key ≠ key) ∧ (c.get key now).1 = none ∧
        (c.get key now).2.recencyList = c.live now) ∨
      ∃ front x back, c.live now = front ++ x :: back ∧ x.key = key ∧
        (c.get key now).1 = some x.value ∧
        (c.get key now).2.recencyList = front ++ back ++ [x]) ∧
    (∀ key response now time,
      Recency.ShedsTo List.length c.maxBytes
        ((c.live now).filter (fun x => x.key ≠ key) ++ [⟨key, response, time + c.ttlSec⟩])
        (c.put key response now time).recencyList) ∧
    ∀ maxBytes' ttlSec',
      Recency.ShedsTo List.length maxBytes' c.recencyList
        (c.setLimits maxBytes' ttlSec').recencyList := by
  intro c
  have hsound : c.Sound := cache_run_sound maxBytes ttlSec calls
  refine ⟨fun key now => ?_, fun key response now time => ?_, fun maxBytes' ttlSec' => ?_⟩
  · have hget := hsound.recencyList_get key now
    rcases Recency.get_cases now key hsound.recencyList_nodup with
      ⟨hnone, hmiss⟩ | ⟨front, x, back, hsplit, hkey, hhit⟩
    · obtain ⟨hout, hlist⟩ := Prod.mk.inj (hget.trans hmiss)
      exact .inl ⟨hnone, hout, hlist⟩
    · obtain ⟨hout, hlist⟩ := Prod.mk.inj (hget.trans hhit)
      exact .inr ⟨front, x, back, hsplit, hkey, hout, hlist⟩
  · rw [hsound.recencyList_put]
    exact Recency.shedsTo_shed ..
  · rw [hsound.recencyList_setLimits]
    exact Recency.shedsTo_shed ..

end Gravastar
