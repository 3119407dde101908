import Gravastar.Cache.Invariant

/-!
# What a cache contains

For its users a cache is the set of responses it holds, each under a key and
with an expiry. Here every call is described by its effect on that set.
-/

namespace Gravastar

namespace DnsCache

/-- The entry under `key` has this response and this expiry. -/
def Contains (c : DnsCache) (key response : Bytes) (expiry : Int) : Prop :=
  ∃ entry, c.entries.lookup key = some entry ∧ entry.response = response ∧ entry.expiry = expiry

instance (c : DnsCache) (key response : Bytes) (expiry : Int) :
    Decidable (c.Contains key response expiry) :=
  decidable_of_iff
    (((c.entries.lookup key).any fun e => e.response = response ∧ e.expiry = expiry) = true)
    (by simp [Contains, Option.any_eq_true])

variable {c : DnsCache}

theorem contains_iff {xs : List Slot} (h : Represents c xs) {key response : Bytes} {expiry : Int} :
    c.Contains key response expiry ↔ ⟨key, response, expiry⟩ ∈ xs.map Slot.item := by
  constructor
  · rintro ⟨e, he, rfl, rfl⟩
    obtain ⟨x, hx, rfl, rfl⟩ := h.lookup_iff.mp he
    exact List.mem_map_of_mem hx
  · intro hmem
    obtain ⟨x, hx, heq⟩ := List.mem_map.mp hmem
    obtain ⟨rfl, rfl, rfl⟩ := Recency.Item.mk.inj heq
    exact ⟨x.2, h.lookup_mem hx, rfl, rfl⟩

theorem not_contains_new (maxBytes ttlSec : Nat) (key response : Bytes) (expiry : Int) :
    ¬ (new maxBytes ttlSec).Contains key response expiry := by
  rintro ⟨e, he, -⟩
  simp [new] at he

/-- `Get` hits exactly on an entry that has not expired. -/
theorem get_eq_some (h : c.Sound) {key response : Bytes} {now : Int} :
    (c.get key now).1 = some response ↔
      ∃ expiry, c.Contains key response expiry ∧ now < expiry := by
  obtain ⟨xs, hxs, -⟩ := h
  obtain ⟨ys, -, heq⟩ := hxs.get key now
  have hout : (c.get key now).1 = (Recency.get now key (xs.map Slot.item)).1 :=
    congrArg Prod.fst heq
  rw [hout, Recency.get_eq_some hxs.items_nodup]
  simp only [contains_iff hxs]

/-- `Get` only drops what has expired. -/
theorem contains_get (h : c.Sound) {key k response : Bytes} {now expiry : Int} :
    (c.get key now).2.Contains k response expiry ↔ c.Contains k response expiry ∧ now < expiry := by
  obtain ⟨xs, hxs, -⟩ := h
  obtain ⟨ys, hys, heq⟩ := hxs.get key now
  have hitems : ys.map Slot.item = (Recency.get now key (xs.map Slot.item)).2 :=
    congrArg Prod.snd heq
  rw [contains_iff hys, hitems, Recency.mem_get hxs.items_nodup, contains_iff hxs]

/-- After `Put`, an entry is the new one or was there under another key. -/
theorem Contains.of_put (h : c.Sound) {key response k r : Bytes} {now time t : Int}
    (hc : (c.put key response now time).Contains k r t) :
    (k = key ∧ r = response ∧ t = time + c.ttlSec) ∨ (k ≠ key ∧ c.Contains k r t ∧ now < t) := by
  obtain ⟨xs, hxs, -⟩ := h
  obtain ⟨ys, hys, hitems⟩ := hxs.put key response now time
  rw [contains_iff hys, hitems] at hc
  rcases Recency.mem_put hc with heq | ⟨hmem, hlive, hne⟩
  · obtain ⟨rfl, rfl, rfl⟩ := Recency.Item.mk.inj heq
    exact .inl ⟨rfl, rfl, rfl⟩
  · exact .inr ⟨hne, (contains_iff hxs).mpr hmem, hlive⟩

/-- What `Put` stores stays, if it fits by itself. -/
theorem contains_put (h : c.Sound) (key : Bytes) {response : Bytes} (now time : Int)
    (hfit : response.length ≤ c.maxBytes) :
    (c.put key response now time).Contains key response (time + c.ttlSec) := by
  obtain ⟨xs, hxs, -⟩ := h
  obtain ⟨ys, hys, hitems⟩ := hxs.put key response now time
  rw [contains_iff hys, hitems]
  exact Recency.mem_put_of_fits now key _ _ hfit

/-- A response larger than the whole cache leaves nothing behind. -/
theorem not_contains_put (h : c.Sound) (key : Bytes) {response : Bytes} (now time : Int)
    (hbig : c.maxBytes < response.length) (k r : Bytes) (t : Int) :
    ¬ (c.put key response now time).Contains k r t := by
  obtain ⟨xs, hxs, -⟩ := h
  obtain ⟨ys, hys, hitems⟩ := hxs.put key response now time
  rw [contains_iff hys, hitems, Recency.put_eq_nil now key _ _ hbig]
  simp

end DnsCache

end Gravastar
