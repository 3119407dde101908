import Gravastar.Cache.Invariant

/-!
# What a cache remembers

A finished call is recorded with what it returned; a log holds the finished
calls, the newest first. With the limits fixed, a hit returns what was put last
under its key, and a key whose working set has fitted into the limit ever since
it was touched is still there.
-/

namespace Gravastar

open DnsCache

/-- A call together with what it returned. -/
abbrev DoneCall := CacheCall × Option Bytes

/-- The key that moved to the back of `lru_`: the one put, or the one hit. -/
def touchedKey : DoneCall → Option Bytes
  | (.put key _ _ _, _) => some key
  | (.get key _, some _) => some key
  | _ => none

/-- The argument of the most recent `Put` of `k`, and the time it was made at. -/
def lastPut (k : Bytes) : List DoneCall → Option (Bytes × Int)
  | [] => none
  | (.put key response _ time, _) :: log =>
    if key = k then some (response, time) else lastPut k log
  | _ :: log => lastPut k log

/-- The size of the response most recently put under `k`. -/
def lastSize (log : List DoneCall) (k : Bytes) : Nat :=
  match lastPut k log with
  | some (response, _) => response.length
  | none => 0

/-- The other keys touched since `k` was. -/
def touchedSince (k : Bytes) : List DoneCall → Finset Bytes
  | [] => ∅
  | done :: log =>
    match touchedKey done with
    | none => touchedSince k log
    | some key => if key = k then ∅ else insert key (touchedSince k log)

/-- What `k` and the other keys touched since weigh together. -/
def workingSet (k : Bytes) (log : List DoneCall) : Nat :=
  lastSize log k + ∑ key ∈ touchedSince k log, lastSize log key

/-- The working set of `k` fitted after every call since `k` was last touched, that call
included. -/
def WorkingSetFits (limit : Nat) (k : Bytes) : List DoneCall → Prop
  | [] => True
  | done :: log =>
    workingSet k (done :: log) ≤ limit ∧
      (touchedKey done = some k ∨ WorkingSetFits limit k log)

instance decidableWorkingSetFits (limit : Nat) (k : Bytes) :
    ∀ log, Decidable (WorkingSetFits limit k log)
  | [] => inferInstanceAs (Decidable True)
  | done :: log =>
    have := decidableWorkingSetFits limit k log
    inferInstanceAs (Decidable (workingSet k (done :: log) ≤ limit ∧
      (touchedKey done = some k ∨ WorkingSetFits limit k log)))

/-- The clock values a call reads, the newest first. -/
def CacheCall.reads : CacheCall → List Int
  | .put _ _ now time => [time, now]
  | .get _ now => [now]
  | .setLimits _ _ => []

/-- No clock value is smaller than one read before it. -/
def ClockMonotone (calls : List CacheCall) : Prop :=
  (calls.flatMap CacheCall.reads).Pairwise (· ≥ ·)

instance (calls : List CacheCall) : Decidable (ClockMonotone calls) :=
  inferInstanceAs (Decidable (List.Pairwise _ _))

def FixedLimits (calls : List CacheCall) : Prop :=
  ∀ maxBytes ttlSec, CacheCall.setLimits maxBytes ttlSec ∉ calls

/-! ## One call -/

/-- What the recency list `l` owes the log: every item is the last one put under its key, and
behind a key that has been kept lie only keys touched after it. -/
structure Remembers (limit ttl : Nat) (log : List DoneCall) (reads : List Int)
    (l : List (Recency.Item Bytes Bytes Int)) : Prop where
  sound : ∀ x ∈ l, ∃ time, lastPut x.key log = some (x.value, time) ∧ x.deadline = time + ttl
  kept : ∀ k response time, lastPut k log = some (response, time) →
    (∀ now ∈ reads, now < time + ttl) → WorkingSetFits limit k log →
    ∃ front back, l = front ++ ⟨k, response, time + ttl⟩ :: back ∧
      ∀ y ∈ back, y.key ∈ touchedSince k log

namespace Remembers

variable {limit ttl : Nat} {log : List DoneCall} {reads : List Int}
  {l : List (Recency.Item Bytes Bytes Int)}

/-- A key and the keys behind it weigh no more than the working set. -/
theorem total_le_workingSet {k : Bytes} {x : Recency.Item Bytes Bytes Int}
    {back : List (Recency.Item Bytes Bytes Int)} (hx : x.value.length = lastSize log k)
    (hnd : (back.map Recency.Item.key).Nodup)
    (hback : ∀ y ∈ back, y.key ∈ touchedSince k log ∧ y.value.length = lastSize log y.key) :
    Recency.total List.length (x :: back) ≤ workingSet k log := by
  rw [Recency.total_cons, workingSet, hx]
  exact Nat.add_le_add_left
    (Recency.total_le_sum hnd (fun y hy => (hback y hy).1) fun y hy => (hback y hy).2.le) _

theorem lastSize_eq {k response : Bytes} {time : Int}
    (h : lastPut k log = some (response, time)) : lastSize log k = response.length := by
  rw [lastSize, h]

theorem touchedSince_cons {k key : Bytes} {done : DoneCall} (hdone : touchedKey done = some key)
    (hk : key ≠ k) : touchedSince k (done :: log) = insert key (touchedSince k log) := by
  simp [touchedSince, hdone, hk]

/-- When a touched item has moved to the back, there are only touched keys behind `k`. -/
theorem mem_touchedSince_back {k : Bytes} {x : Recency.Item Bytes Bytes Int} {now : Int}
    {back : List (Recency.Item Bytes Bytes Int)} {done : DoneCall}
    (hdone : touchedKey done = some x.key) (hk : x.key ≠ k)
    (hback : ∀ y ∈ back, y.key ∈ touchedSince k log) :
    ∀ y ∈ Recency.remove x.key (Recency.dropExpired now back) ++ [x],
      y.key ∈ touchedSince k (done :: log) := by
  intro y hy
  rw [touchedSince_cons hdone hk]
  rcases List.mem_append.mp hy with hy | hy
  · exact Finset.mem_insert_of_mem (hback y (Recency.mem_remove_dropExpired.mp hy).1)
  · rw [List.mem_singleton.mp hy]
    exact Finset.mem_insert_self ..

theorem put (h : Remembers limit ttl log reads l) (key response : Bytes) (now time : Int)
    (hnd : (l.map Recency.Item.key).Nodup) :
    Remembers limit ttl ((.put key response now time, none) :: log) (time :: now :: reads)
      (Recency.put List.length limit now key response (time + ttl) l) := by
  have hnew : ∀ x ∈ Recency.remove key (Recency.dropExpired now l) ++
      [⟨key, response, time + ttl⟩], ∃ t,
      lastPut x.key ((.put key response now time, none) :: log) = some (x.value, t) ∧
        x.deadline = t + ttl := by
    intro x hx
    rcases List.mem_append.mp hx with hx | hx
    · obtain ⟨hx, hk⟩ := Recency.mem_remove.mp hx
      rw [lastPut, if_neg (Ne.symm hk)]
      exact h.sound x (Recency.mem_dropExpired.mp hx).1
    · obtain rfl := List.mem_singleton.mp hx
      exact ⟨time, if_pos rfl, rfl⟩
  refine ⟨fun x hx => hnew x ((Recency.shed_suffix ..).subset hx), ?_⟩
  intro k r t hput hreads hfits
  by_cases hk : key = k
  · -- the new item is at the back, with nothing behind it
    subst hk
    rw [lastPut, if_pos rfl] at hput
    obtain ⟨rfl, rfl⟩ := Prod.mk.inj (Option.some.inj hput)
    have hfit : Recency.total List.length
        [(⟨key, response, time + ttl⟩ : Recency.Item Bytes Bytes Int)] ≤ limit := by
      refine (total_le_workingSet (k := key) ?_ (by simp) (by simp)).trans hfits.1
      rw [lastSize, lastPut, if_pos rfl]
    obtain ⟨kept, -, heq⟩ := Recency.shed_append_of_fits _ _ hfit
    exact ⟨kept, [], heq, by simp⟩
  · have hput' : lastPut k log = some (r, t) := by rwa [lastPut, if_neg hk] at hput
    have hfits' : WorkingSetFits limit k log :=
      hfits.2.resolve_left fun h => hk (Option.some.inj h)
    obtain ⟨front, back, rfl, hback⟩ :=
      h.kept k r t hput' (fun u hu => hreads u (by simp [hu])) hfits'
    rw [Recency.put, Recency.remove_dropExpired_middle front back (Ne.symm hk)
      (hreads now (by simp)), List.append_assoc, List.cons_append]
    rw [Recency.remove_dropExpired_middle front back (Ne.symm hk)
      (hreads now (by simp)), List.append_assoc, List.cons_append] at hnew
    set back' := Recency.remove key (Recency.dropExpired now back) ++ [⟨key, response, time + ttl⟩]
    have hback' : ∀ y ∈ back', y.key ∈
        touchedSince k ((.put key response now time, none) :: log) :=
      mem_touchedSince_back (x := ⟨key, response, time + ttl⟩) rfl hk hback
    have hndback : (back'.map Recency.Item.key).Nodup := by
      rw [List.map_append, List.map_cons] at hnd
      exact Recency.nodup_remove_append (x := ⟨key, response, time + ttl⟩)
        (List.nodup_cons.mp (List.nodup_append.mp hnd).2.1).2
    have hfit := total_le_workingSet (k := k) (x := ⟨k, r, t + ttl⟩)
      (lastSize_eq hput).symm hndback fun y hy => ?_
    · obtain ⟨kept, -, heq⟩ := Recency.shed_append_of_fits
        (Recency.remove key (Recency.dropExpired now front)) _ (hfit.trans hfits.1)
      exact ⟨kept, back', heq, hback'⟩
    · obtain ⟨t', hlast, -⟩ := hnew y (by simp [hy])
      exact ⟨hback' y hy, (lastSize_eq hlast).symm⟩

theorem get (h : Remembers limit ttl log reads l) (key : Bytes) (now : Int) :
    Remembers limit ttl ((.get key now, (Recency.get now key l).1) :: log) (now :: reads)
      (Recency.get now key l).2 := by
  rw [Recency.get]
  cases hfind : Recency.find key (Recency.dropExpired now l) with
  | none =>
    refine ⟨fun x hx => h.sound x (Recency.mem_dropExpired.mp hx).1, ?_⟩
    intro k r t hput hreads hfits
    obtain ⟨front, back, rfl, hback⟩ := h.kept k r t hput
      (fun u hu => hreads u (List.mem_cons_of_mem _ hu))
      (hfits.2.resolve_left (by simp [touchedKey]))
    refine ⟨Recency.dropExpired now front, Recency.dropExpired now back, ?_, fun y hy =>
      hback y (Recency.mem_dropExpired.mp hy).1⟩
    simp [Recency.dropExpired, hreads now List.mem_cons_self]
  | some x =>
    obtain ⟨hx, rfl⟩ := Recency.mem_of_find hfind
    have hmem := (Recency.mem_dropExpired.mp hx).1
    refine ⟨fun y hy => ?_, ?_⟩
    · rcases List.mem_append.mp hy with hy | hy
      · exact h.sound y (Recency.mem_remove_dropExpired.mp hy).1
      · rw [List.mem_singleton.mp hy]
        exact h.sound x hmem
    intro k r t hput hreads hfits
    by_cases hk : x.key = k
    · subst hk
      obtain ⟨t', hlast, hdead⟩ := h.sound x hmem
      obtain ⟨rfl, rfl⟩ := Prod.mk.inj (Option.some.inj (hlast.symm.trans hput))
      exact ⟨_, [], by rw [← hdead], by simp⟩
    · obtain ⟨front, back, rfl, hback⟩ := h.kept k r t hput
        (fun u hu => hreads u (List.mem_cons_of_mem _ hu))
        (hfits.2.resolve_left fun he => hk (Option.some.inj he))
      refine ⟨Recency.remove x.key (Recency.dropExpired now front),
        Recency.remove x.key (Recency.dropExpired now back) ++ [x], ?_,
        mem_touchedSince_back rfl hk hback⟩
      dsimp only
      rw [Recency.remove_dropExpired_middle front back (Ne.symm hk)
        (hreads now List.mem_cons_self), List.append_assoc, List.cons_append]

end Remembers

/-! ## Whole runs -/

theorem cache_run_remembers (maxBytes ttlSec : Nat) {calls : List CacheCall}
    (hfix : FixedLimits calls) :
    ∃ xs, Represents ((cacheMachine maxBytes ttlSec).after calls) xs ∧
      ((cacheMachine maxBytes ttlSec).after calls).maxBytes = maxBytes ∧
      ((cacheMachine maxBytes ttlSec).after calls).ttlSec = ttlSec ∧
      Remembers maxBytes ttlSec ((cacheMachine maxBytes ttlSec).log calls)
        (calls.flatMap CacheCall.reads) (xs.map Slot.item) := by
  induction calls with
  | nil => exact ⟨[], represents_new maxBytes ttlSec, rfl, rfl, by simp, by simp [lastPut]⟩
  | cons call calls ih =>
    obtain ⟨xs, hxs, hmax, httl, hrem⟩ :=
      ih fun m t hmem => hfix m t (List.mem_cons_of_mem _ hmem)
    rw [Machine.after_cons, Machine.log_cons, List.flatMap_cons]
    generalize (cacheMachine maxBytes ttlSec).after calls = c at hxs hmax httl
    cases call with
    | setLimits m t => exact absurd List.mem_cons_self (hfix m t)
    | put key response now time =>
      obtain ⟨ys, hys, hitems⟩ := hxs.put key response now time
      refine ⟨ys, hys, (put_maxBytes ..).trans hmax, (put_ttlSec ..).trans httl, ?_⟩
      rw [hitems, hmax, httl]
      exact hrem.put key response now time hxs.items_nodup
    | get key now =>
      obtain ⟨ys, hys, heq⟩ := hxs.get key now
      refine ⟨ys, hys, (get_maxBytes ..).trans hmax, (get_ttlSec ..).trans httl, ?_⟩
      have hstep := hrem.get key now
      rw [← heq] at hstep
      exact hstep

/-- With fixed limits, a hit returns what was put last under its key, and that less than
`ttl_sec` ago; and if the clock never ran backwards, a key that was put less than `ttl_sec` ago,
and whose working set has fitted since it was last touched, is hit. -/
theorem cache_remembers (maxBytes ttlSec : Nat) (calls : List CacheCall)
    (hfix : FixedLimits calls) (k : Bytes) (t : Int) :
    (∀ r, (((cacheMachine maxBytes ttlSec).after calls).get k t).1 = some r →
      ∃ time, lastPut k ((cacheMachine maxBytes ttlSec).log calls) = some (r, time) ∧
        t < time + ttlSec) ∧
    (ClockMonotone (.get k t :: calls) → ∀ r time,
      lastPut k ((cacheMachine maxBytes ttlSec).log calls) = some (r, time) →
      t < time + ttlSec →
      WorkingSetFits maxBytes k ((cacheMachine maxBytes ttlSec).log calls) →
      (((cacheMachine maxBytes ttlSec).after calls).get k t).1 = some r) := by
  obtain ⟨xs, hxs, -, -, hrem⟩ := cache_run_remembers maxBytes ttlSec hfix
  obtain ⟨ys, -, heq⟩ := hxs.get k t
  have hout : (((cacheMachine maxBytes ttlSec).after calls).get k t).1 =
      (Recency.get t k (xs.map Slot.item)).1 := congrArg Prod.fst heq
  rw [hout]
  refine ⟨fun r hr => ?_, fun hclock r time hput ht hfits => ?_⟩
  · obtain ⟨deadline, hmem, hlive⟩ := (Recency.get_eq_some hxs.items_nodup).mp hr
    obtain ⟨time, hlast, hdead⟩ := hrem.sound _ hmem
    exact ⟨time, hlast, hdead ▸ hlive⟩
  · have hreads : ∀ now ∈ calls.flatMap CacheCall.reads, now < time + ttlSec := fun now hnow =>
      lt_of_le_of_lt ((List.pairwise_cons.mp hclock).1 now hnow) ht
    obtain ⟨front, back, hl, -⟩ := hrem.kept k r time hput hreads hfits
    have hmem : ⟨k, r, time + ttlSec⟩ ∈ xs.map Slot.item := by simp [hl]
    exact (Recency.get_eq_some hxs.items_nodup).mpr ⟨time + ttlSec, hmem, ht⟩

/-- A key put first and hit once survives a later put that pushes another key out. -/
theorem cache_remembers_hit_key :
    (((cacheMachine 3 10).after [.put [98] [3, 3] 4 4, .get [97] 3, .put [99] [2, 2] 1 1,
      .put [97] [1] 0 0]).get [97] 5).1 = some [1] :=
  (cache_remembers 3 10 [.put [98] [3, 3] 4 4, .get [97] 3, .put [99] [2, 2] 1 1,
      .put [97] [1] 0 0] (by simp [FixedLimits]) [97] 5).2 (by decide) [1] 0
    (by decide +kernel) (by decide) (by decide +kernel)

end Gravastar
