import Gravastar.Cache
import Gravastar.Lib.Recency

/-!
# What a cache state represents

The map, the list, the stored iterators and the byte counter are four views of
one list of slots, a node together with its entry, in `lru_` order. Each
operation is followed on the slots; forgetting the bookkeeping turns them into
a recency list.
-/

namespace Gravastar

/-- A node of `lru_` together with the map entry of its key. -/
abbrev Slot := LruNode × Entry

/-- The map's side of a slot. -/
def Slot.pair (x : Slot) : Sigma fun _ : Bytes => Entry := ⟨x.1.key, x.2⟩

/-- The recency list's side of a slot. -/
def Slot.item (x : Slot) : Recency.Item Bytes Bytes Int := ⟨x.1.key, x.2.response, x.2.expiry⟩

@[simp] theorem Slot.item_key (x : Slot) : x.item.key = x.1.key := rfl

@[simp] theorem Slot.item_value (x : Slot) : x.item.value = x.2.response := rfl

/-- Everything but `lru_` itself, which the eviction loops rebuild as they go. -/
structure Holds (c : DnsCache) (xs : List Slot) : Prop where
  entries : c.entries.entries.Perm (xs.map Slot.pair)
  iterators : ∀ x ∈ xs, x.2.lruIt = x.1.id
  sizes : ∀ x ∈ xs, x.2.size = x.2.response.length
  ids : (xs.map fun x => x.1.id).Nodup
  fresh : ∀ x ∈ xs, x.1.id < c.nextNode
  bytes : c.currentBytes = (xs.map fun x => x.2.size).sum
  exact : c.wrapped = false

/-- The state `c` represents the slots `xs`, in `lru_` order. -/
structure Represents (c : DnsCache) (xs : List Slot) : Prop extends Holds c xs where
  lru : c.lru = xs.map Prod.fst

namespace Holds

variable {c : DnsCache} {xs ys : List Slot}

/-- The keys are distinct because they are the keys of a map. -/
theorem keys_nodup (h : Holds c xs) : (xs.map fun x => x.1.key).Nodup := by
  have hk : (c.entries.entries.map Sigma.fst).Nodup := c.entries.nodupKeys
  have hp := h.entries.map Sigma.fst
  rw [List.map_map] at hp
  exact hp.nodup_iff.mp hk

theorem lookup_iff (h : Holds c xs) {k : Bytes} {e : Entry} :
    c.entries.lookup k = some e ↔ ∃ x ∈ xs, x.1.key = k ∧ x.2 = e := by
  have hm : c.entries.lookup k = some e ↔ (⟨k, e⟩ : Sigma fun _ : Bytes => Entry) ∈
      c.entries.entries := List.mem_dlookup_iff c.entries.nodupKeys
  rw [hm, h.entries.mem_iff, List.mem_map]
  constructor
  · rintro ⟨x, hx, he⟩
    obtain ⟨hk, he⟩ := Sigma.mk.inj_iff.mp he
    exact ⟨x, hx, hk, eq_of_heq he⟩
  · rintro ⟨x, hx, rfl, rfl⟩
    exact ⟨x, hx, rfl⟩

theorem lookup_mem (h : Holds c xs) {x : Slot} (hx : x ∈ xs) :
    c.entries.lookup x.1.key = some x.2 := h.lookup_iff.mpr ⟨x, hx, rfl, rfl⟩

theorem perm (h : Holds c xs) (hp : xs.Perm ys) : Holds c ys where
  entries := h.entries.trans (hp.map _)
  iterators x hx := h.iterators x (hp.mem_iff.mpr hx)
  sizes x hx := h.sizes x (hp.mem_iff.mpr hx)
  ids := (hp.map _).nodup_iff.mp h.ids
  fresh x hx := h.fresh x (hp.mem_iff.mpr hx)
  bytes := h.bytes.trans (hp.map _).sum_eq
  exact := h.exact

/-- Erasing the entry of the first slot leaves the others, and the counter does not wrap. -/
theorem eraseEntry_cons {x : Slot} (h : Holds c (x :: xs)) :
    Holds (c.eraseEntry x.1.key x.2) xs where
  entries := by
    have hp : (c.entries.entries.kerase x.1.key).Perm
        ((Slot.pair x :: xs.map Slot.pair).kerase x.1.key) :=
      h.entries.kerase c.entries.nodupKeys
    have hk : (Slot.pair x :: xs.map Slot.pair).kerase x.1.key = xs.map Slot.pair :=
      List.kerase_cons_eq rfl
    rwa [hk] at hp
  iterators y hy := h.iterators y (List.mem_cons_of_mem _ hy)
  sizes y hy := h.sizes y (List.mem_cons_of_mem _ hy)
  ids := (List.nodup_cons.mp h.ids).2
  fresh y hy := h.fresh y (List.mem_cons_of_mem _ hy)
  bytes := by
    have hb := h.bytes
    rw [List.map_cons, List.sum_cons] at hb
    simp only [DnsCache.eraseEntry, sizeSub]
    rw [if_pos (by omega)]
    omega
  exact := by
    have hb := h.bytes
    rw [List.map_cons, List.sum_cons] at hb
    have hle : ¬ c.currentBytes < x.2.size := by omega
    simp [DnsCache.eraseEntry, h.exact, hle]

/-- A new slot at the back: its key and its node are new. -/
theorem insert {key : Bytes} {e : Entry} (h : Holds c xs) (hk : c.entries.lookup key = none)
    (hit : e.lruIt = c.nextNode) (hs : e.size = e.response.length) :
    Holds { c.pushBack key with
      entries := c.entries.insert key e
      currentBytes := c.currentBytes + e.size } (xs ++ [(⟨c.nextNode, key⟩, e)]) where
  entries := by
    have hnot : key ∉ c.entries := AList.lookup_eq_none.mp hk
    rw [AList.entries_insert_of_notMem hnot, List.map_append, List.map_singleton]
    exact (List.Perm.cons _ h.entries).trans (List.perm_append_singleton _ _).symm
  iterators x hx := by
    rcases List.mem_append.mp hx with hx | hx
    · exact h.iterators x hx
    · obtain rfl := List.mem_singleton.mp hx
      exact hit
  sizes x hx := by
    rcases List.mem_append.mp hx with hx | hx
    · exact h.sizes x hx
    · obtain rfl := List.mem_singleton.mp hx
      exact hs
  ids := by
    rw [List.map_append, List.nodup_append]
    refine ⟨h.ids, by simp, ?_⟩
    intro a ha b hb
    obtain ⟨x, hx, rfl⟩ := List.mem_map.mp ha
    have := h.fresh x hx
    simp only [List.map_cons, List.map_nil, List.mem_singleton] at hb
    omega
  fresh x hx := by
    simp only [DnsCache.pushBack]
    rcases List.mem_append.mp hx with hx | hx
    · exact (h.fresh x hx).trans (Nat.lt_succ_self _)
    · obtain rfl := List.mem_singleton.mp hx
      exact Nat.lt_succ_self _
  bytes := by simp [h.bytes]
  exact := h.exact

theorem congr {d : DnsCache} (h : Holds c xs)
    (he : d.entries = c.entries) (hb : d.currentBytes = c.currentBytes)
    (hn : d.nextNode = c.nextNode) (hw : d.wrapped = c.wrapped) : Holds d xs :=
  ⟨he ▸ h.entries, h.iterators, h.sizes, h.ids, hn ▸ h.fresh, hb ▸ h.bytes, hw ▸ h.exact⟩

end Holds

open DnsCache

/-! ## Expiry -/

theorem evictExpiredLoop_represents (now : Int) (c : DnsCache) (ps rs : List Slot)
    (h : Holds c (ps ++ rs)) :
    Represents (c.evictExpiredLoop now (ps.map Prod.fst) (rs.map Prod.fst))
      (ps ++ rs.filter fun x => now < x.2.expiry) := by
  induction rs generalizing c ps with
  | nil =>
    rw [List.append_nil] at h
    rw [List.filter_nil, List.append_nil]
    exact ⟨h.congr rfl rfl rfl rfl, rfl⟩
  | cons x rs ih =>
    have hx : c.entries.lookup x.1.key = some x.2 := h.lookup_mem (by simp)
    rw [List.map_cons, evictExpiredLoop, hx]
    dsimp only
    by_cases hexp : x.2.expiry ≤ now
    · rw [if_pos hexp, List.filter_cons_of_neg (by simpa using hexp)]
      exact ih _ ps (h.perm List.perm_middle).eraseEntry_cons
    · rw [if_neg hexp, List.filter_cons_of_pos (by simpa using hexp)]
      simpa using ih c (ps ++ [x]) (by simpa using h)

theorem evictExpiredLoop_limits (now : Int) (c : DnsCache) (ps rs : List LruNode) :
    (c.evictExpiredLoop now ps rs).maxBytes = c.maxBytes ∧
      (c.evictExpiredLoop now ps rs).ttlSec = c.ttlSec := by
  induction rs generalizing c ps with
  | nil => exact ⟨rfl, rfl⟩
  | cons node rs ih =>
    rw [evictExpiredLoop]
    split
    · exact ih c ps
    · split_ifs
      · exact ih _ ps
      · exact ih c _

@[simp] theorem evictExpired_maxBytes (c : DnsCache) (now : Int) :
    (c.evictExpired now).maxBytes = c.maxBytes := (evictExpiredLoop_limits now c [] c.lru).1

@[simp] theorem evictExpired_ttlSec (c : DnsCache) (now : Int) :
    (c.evictExpired now).ttlSec = c.ttlSec := (evictExpiredLoop_limits now c [] c.lru).2

theorem Represents.evictExpired {c : DnsCache} {xs : List Slot} (h : Represents c xs) (now : Int) :
    Represents (c.evictExpired now) (xs.filter fun x => now < x.2.expiry) := by
  have := evictExpiredLoop_represents now c [] xs (by simpa using h.toHolds)
  rwa [List.map_nil, List.nil_append, ← h.lru] at this

theorem items_filter_expired (now : Int) (xs : List Slot) :
    (xs.filter fun x => now < x.2.expiry).map Slot.item =
      Recency.dropExpired now (xs.map Slot.item) := by
  rw [Recency.dropExpired, List.filter_map]
  rfl

/-! ## Eviction by size -/

theorem Holds.total_items {c : DnsCache} {xs : List Slot} (h : Holds c xs) :
    Recency.total List.length (xs.map Slot.item) = c.currentBytes := by
  rw [h.bytes, Recency.total, List.map_map]
  exact congrArg List.sum (List.map_congr_left fun x hx => (h.sizes x hx).symm)

theorem evictIfNeededLoop_represents (c : DnsCache) (rs : List Slot) (h : Holds c rs) :
    ∃ ys, Represents (c.evictIfNeededLoop (rs.map Prod.fst)) ys ∧
      ys.map Slot.item = Recency.shed List.length c.maxBytes (rs.map Slot.item) := by
  induction rs generalizing c with
  | nil => exact ⟨[], ⟨h.congr rfl rfl rfl rfl, rfl⟩, rfl⟩
  | cons x rs ih =>
    have hx : c.entries.lookup x.1.key = some x.2 := h.lookup_mem (by simp)
    have ht := h.total_items
    rw [List.map_cons] at ht
    rw [List.map_cons, List.map_cons, evictIfNeededLoop, hx, Recency.shed, ht]
    dsimp only
    by_cases hbig : c.currentBytes > c.maxBytes
    · rw [if_pos hbig, if_pos hbig]
      exact ih _ h.eraseEntry_cons
    · rw [if_neg hbig, if_neg hbig]
      exact ⟨x :: rs, ⟨h.congr rfl rfl rfl rfl, rfl⟩, rfl⟩

theorem evictIfNeededLoop_limits (c : DnsCache) (rs : List LruNode) :
    (c.evictIfNeededLoop rs).maxBytes = c.maxBytes ∧
      (c.evictIfNeededLoop rs).ttlSec = c.ttlSec := by
  induction rs generalizing c with
  | nil => exact ⟨rfl, rfl⟩
  | cons node rs ih =>
    rw [evictIfNeededLoop]
    split_ifs
    · split
      · exact ih _
      · exact ih c
    · exact ⟨rfl, rfl⟩

@[simp] theorem evictIfNeeded_maxBytes (c : DnsCache) :
    c.evictIfNeeded.maxBytes = c.maxBytes := (evictIfNeededLoop_limits c c.lru).1

@[simp] theorem evictIfNeeded_ttlSec (c : DnsCache) :
    c.evictIfNeeded.ttlSec = c.ttlSec := (evictIfNeededLoop_limits c c.lru).2

theorem Represents.evictIfNeeded {c : DnsCache} {xs : List Slot} (h : Represents c xs) :
    ∃ ys, Represents c.evictIfNeeded ys ∧
      ys.map Slot.item = Recency.shed List.length c.maxBytes (xs.map Slot.item) := by
  have := evictIfNeededLoop_represents c xs h.toHolds
  rwa [← h.lru] at this

/-! ## Slots leaving the middle and entering at the back -/

theorem Represents.eraseSlot {c : DnsCache} {as bs : List Slot} {x : Slot}
    (h : Represents c (as ++ x :: bs)) :
    Represents ((c.eraseEntry x.1.key x.2).eraseNode x.2.lruIt) (as ++ bs) := by
  refine ⟨((h.perm List.perm_middle).eraseEntry_cons).congr rfl rfl rfl rfl, ?_⟩
  have hids := h.ids
  rw [List.map_append, List.map_cons, List.nodup_middle] at hids
  have hnot : ∀ n ∈ as.map Prod.fst, ¬ (decide (n.id = x.2.lruIt)) = true := by
    intro n hn
    obtain ⟨y, hy, rfl⟩ := List.mem_map.mp hn
    rw [h.iterators x (by simp), decide_eq_true_eq]
    intro he
    exact (List.nodup_cons.mp hids).1
      (List.mem_append_left _ (List.mem_map.mpr ⟨y, hy, he⟩))
  simp only [eraseNode, eraseEntry, h.lru, List.map_append, List.map_cons]
  rw [List.eraseP_append_right _ hnot, List.eraseP_cons_of_pos (by simp [h.iterators x (by simp)])]

theorem Represents.insert {c : DnsCache} {xs : List Slot} {key : Bytes} {e : Entry}
    (h : Represents c xs) (hk : c.entries.lookup key = none) (hit : e.lruIt = c.nextNode)
    (hs : e.size = e.response.length) :
    Represents { c.pushBack key with
      entries := c.entries.insert key e
      currentBytes := c.currentBytes + e.size } (xs ++ [(⟨c.nextNode, key⟩, e)]) :=
  ⟨h.toHolds.insert hk hit hs, by simp [pushBack, h.lru]⟩

theorem Holds.items_nodup {c : DnsCache} {xs : List Slot} (h : Holds c xs) :
    ((xs.map Slot.item).map Recency.Item.key).Nodup := by
  rw [List.map_map]
  exact h.keys_nodup

theorem remove_items {c : DnsCache} {as bs : List Slot} {x : Slot}
    (h : Holds c (as ++ x :: bs)) :
    Recency.remove x.1.key ((as ++ x :: bs).map Slot.item) = (as ++ bs).map Slot.item := by
  have hk := h.items_nodup
  rw [List.map_append, List.map_cons] at hk ⊢
  rw [List.map_append, ← Recency.remove_middle hk]
  rfl

theorem find_items {c : DnsCache} {xs : List Slot} (h : Holds c xs) (k : Bytes) :
    Recency.find k (xs.map Slot.item) =
      (c.entries.lookup k).map fun e => ⟨k, e.response, e.expiry⟩ := by
  cases hk : c.entries.lookup k with
  | none =>
    refine Recency.find_eq_none.mpr fun i hi => ?_
    obtain ⟨x, hx, rfl⟩ := List.mem_map.mp hi
    rintro rfl
    exact absurd ((h.lookup_mem hx).symm.trans hk) (by simp)
  | some e =>
    obtain ⟨x, hx, rfl, rfl⟩ := h.lookup_iff.mp hk
    exact Recency.find_of_mem h.items_nodup (List.mem_map_of_mem hx)

/-! ## The calls -/

theorem entries_insert_erase (m : AList fun _ : Bytes => Entry) (k : Bytes) (e : Entry) :
    (m.erase k).insert k e = m.insert k e := by
  refine AList.ext ?_
  rw [AList.entries_insert, AList.entries_insert]
  congr 1
  exact List.kerase_of_notMem_keys (List.notMem_keys_kerase k m.nodupKeys)

/-- Replacing the entry of a slot and moving it to the back. -/
theorem Represents.moveToBack {c : DnsCache} {as bs : List Slot} {x : Slot} {e : Entry}
    (h : Represents c (as ++ x :: bs)) (hit : e.lruIt = c.nextNode)
    (hs : e.size = e.response.length) :
    Represents { ((c.eraseEntry x.1.key x.2).eraseNode x.2.lruIt).pushBack x.1.key with
      entries := c.entries.insert x.1.key e
      currentBytes := sizeSub c.currentBytes x.2.size + e.size }
      (as ++ bs ++ [(⟨c.nextNode, x.1.key⟩, e)]) := by
  have := h.eraseSlot.insert (AList.lookup_erase x.1.key c.entries) hit hs
  rwa [show ((c.eraseEntry x.1.key x.2).eraseNode x.2.lruIt).entries = c.entries.erase x.1.key
    from rfl, entries_insert_erase] at this

/-- `Get` on the slots: the recency list's `get`. -/
theorem Represents.get {c : DnsCache} {xs : List Slot} (h : Represents c xs) (key : Bytes)
    (now : Int) :
    ∃ ys, Represents (c.get key now).2 ys ∧
      ((c.get key now).1, ys.map Slot.item) = Recency.get now key (xs.map Slot.item) := by
  have hexp := h.evictExpired now
  have hitems := items_filter_expired now xs
  generalize xs.filter (fun x => now < x.2.expiry) = zs at hexp hitems
  generalize hd : c.evictExpired now = d at hexp
  rw [DnsCache.get, Recency.get, ← hitems, find_items hexp.toHolds key, hd]
  dsimp only
  cases hk : d.entries.lookup key with
  | none => exact ⟨zs, hexp, rfl⟩
  | some e =>
    obtain ⟨x, hx, rfl, rfl⟩ := hexp.lookup_iff.mp hk
    obtain ⟨as, bs, rfl⟩ := List.append_of_mem hx
    have hsize : sizeSub d.currentBytes x.2.size + x.2.size = d.currentBytes := by
      have hb := hexp.bytes
      rw [List.map_append, List.map_cons, List.sum_append, List.sum_cons] at hb
      rw [sizeSub, if_pos (by omega)]
      omega
    have hmove := hexp.moveToBack (e := { x.2 with lruIt := d.nextNode }) rfl (hexp.sizes x hx)
    dsimp only at hmove
    rw [hsize] at hmove
    have hwrap := hexp.exact.trans hmove.exact.symm
    refine ⟨_, ⟨hmove.toHolds.congr rfl rfl rfl hwrap, hmove.lru⟩, ?_⟩
    simp only [Option.map_some]
    rw [remove_items hexp.toHolds, List.map_append]
    rfl

/-- `Put` on the slots: the recency list's `put`. -/
theorem Represents.put {c : DnsCache} {xs : List Slot} (h : Represents c xs)
    (key response : Bytes) (now time : Int) :
    ∃ ys, Represents (c.put key response now time) ys ∧
      ys.map Slot.item = Recency.put List.length c.maxBytes now key response (time + c.ttlSec)
        (xs.map Slot.item) := by
  have hexp := h.evictExpired now
  have hitems := items_filter_expired now xs
  have hmax := evictExpired_maxBytes c now
  have httl := evictExpired_ttlSec c now
  generalize xs.filter (fun x => now < x.2.expiry) = zs at hexp hitems
  generalize hd : c.evictExpired now = d at hexp hmax httl
  rw [DnsCache.put, Recency.put, ← hitems, hd, ← hmax, ← httl]
  dsimp only
  let fresh (d : DnsCache) : Entry := ⟨response, time + d.ttlSec, response.length, d.nextNode⟩
  cases hk : d.entries.lookup key with
  | none =>
    have hnew := hexp.insert hk (e := fresh d) rfl rfl
    obtain ⟨ys, hys, hshed⟩ := hnew.evictIfNeeded
    refine ⟨ys, hys, hshed.trans ?_⟩
    have hnone : Recency.remove key (zs.map Slot.item) = zs.map Slot.item := by
      have hfind := find_items hexp.toHolds key
      rw [hk, Option.map_none] at hfind
      exact Recency.remove_eq_self (Recency.find_eq_none.mp hfind)
    rw [hnone, List.map_append]
    rfl
  | some e =>
    obtain ⟨x, hx, rfl, rfl⟩ := hexp.lookup_iff.mp hk
    obtain ⟨as, bs, rfl⟩ := List.append_of_mem hx
    have hnew := hexp.eraseSlot.insert (AList.lookup_erase x.1.key d.entries) (e := fresh d) rfl rfl
    obtain ⟨ys, hys, hshed⟩ := hnew.evictIfNeeded
    refine ⟨ys, hys, hshed.trans ?_⟩
    rw [remove_items hexp.toHolds, List.map_append]
    rfl

theorem Represents.setLimits {c : DnsCache} {xs : List Slot} (h : Represents c xs)
    (maxBytes ttlSec : Nat) :
    ∃ ys, Represents (c.setLimits maxBytes ttlSec) ys ∧
      ys.map Slot.item = Recency.shed List.length maxBytes (xs.map Slot.item) := by
  have h' : Represents { c with maxBytes := maxBytes, ttlSec := ttlSec } xs :=
    ⟨h.toHolds.congr rfl rfl rfl rfl, h.lru⟩
  exact h'.evictIfNeeded

end Gravastar
