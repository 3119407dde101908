import Mathlib.Algebra.BigOperators.Group.Finset.Basic
import Mathlib.Algebra.BigOperators.Group.List.Basic
import Mathlib.Algebra.Order.BigOperators.Group.List
import Mathlib.Algebra.Order.Ring.Nat
import Mathlib.Data.List.Nodup

/-!
# Recency lists with deadlines and a weight limit

The abstract state of a least-recently-used store is the list of its items, the
one touched last at the back. Items leave it in two ways: because their deadline
has passed, or, from the front, because the values together weigh too much.
-/

namespace Recency

variable {κ ν τ : Type}

structure Item (κ ν τ : Type) where
  key : κ
  value : ν
  deadline : τ
  deriving DecidableEq

/-- What the values weigh together. -/
def total (w : ν → Nat) (l : List (Item κ ν τ)) : Nat := (l.map fun x => w x.value).sum

@[simp] theorem total_nil (w : ν → Nat) : total w ([] : List (Item κ ν τ)) = 0 := rfl

@[simp] theorem total_cons (w : ν → Nat) (x : Item κ ν τ) (l : List (Item κ ν τ)) :
    total w (x :: l) = w x.value + total w l := by simp [total]

@[simp] theorem total_append (w : ν → Nat) (l m : List (Item κ ν τ)) :
    total w (l ++ m) = total w l + total w m := by simp [total]

theorem total_le_of_sublist (w : ν → Nat) {l m : List (Item κ ν τ)} (h : l.Sublist m) :
    total w l ≤ total w m := (h.map _).sum_le_sum fun _ _ => Nat.zero_le _

/-! ## Shedding from the front -/

/-- Drop items from the front until the rest weighs at most `limit`. -/
def shed (w : ν → Nat) (limit : Nat) : List (Item κ ν τ) → List (Item κ ν τ)
  | [] => []
  | x :: l => if limit < total w (x :: l) then shed w limit l else x :: l

theorem total_shed_le (w : ν → Nat) (limit : Nat) (l : List (Item κ ν τ)) :
    total w (shed w limit l) ≤ limit := by
  induction l with
  | nil => simp [shed]
  | cons x l ih =>
    rw [shed]
    split_ifs with h
    · exact ih
    · exact Nat.le_of_not_lt h

theorem shed_suffix (w : ν → Nat) (limit : Nat) (l : List (Item κ ν τ)) :
    shed w limit l <:+ l := by
  induction l with
  | nil => exact List.suffix_rfl
  | cons x l ih =>
    rw [shed]
    split_ifs
    · exact ih.trans (List.suffix_cons x l)
    · exact List.suffix_rfl

/-- A list that fits stays whole. -/
theorem shed_eq_self {w : ν → Nat} {limit : Nat} {l : List (Item κ ν τ)}
    (h : total w l ≤ limit) : shed w limit l = l := by
  cases l with
  | nil => rfl
  | cons x l => rw [shed, if_neg (Nat.not_lt.mpr h)]

/-- A tail that fits by itself is never shed from. -/
theorem shed_append_of_fits {w : ν → Nat} {limit : Nat} (front back : List (Item κ ν τ))
    (h : total w back ≤ limit) :
    ∃ kept, kept <:+ front ∧ shed w limit (front ++ back) = kept ++ back := by
  induction front with
  | nil => exact ⟨[], List.suffix_rfl, shed_eq_self h⟩
  | cons x front ih =>
    rw [List.cons_append, shed]
    split_ifs
    · obtain ⟨kept, hk, ih⟩ := ih
      exact ⟨kept, hk.trans (List.suffix_cons x front), ih⟩
    · exact ⟨x :: front, List.suffix_rfl, rfl⟩

/-- `kept` is `l` without the shortest prefix whose removal makes it weigh at most `limit`. -/
def ShedsTo (w : ν → Nat) (limit : Nat) (l kept : List (Item κ ν τ)) : Prop :=
  ∃ n, kept = l.drop n ∧ total w kept ≤ limit ∧ ∀ m < n, limit < total w (l.drop m)

theorem shedsTo_shed (w : ν → Nat) (limit : Nat) (l : List (Item κ ν τ)) :
    ShedsTo w limit l (shed w limit l) := by
  induction l with
  | nil => exact ⟨0, rfl, Nat.zero_le _, by simp⟩
  | cons x l ih =>
    rw [shed]
    split_ifs with hbig
    · obtain ⟨n, hkept, hfit, hmin⟩ := ih
      refine ⟨n + 1, hkept, hfit, fun m hm => ?_⟩
      cases m with
      | zero => exact hbig
      | succ m => exact hmin m (Nat.lt_of_succ_lt_succ hm)
    · exact ⟨0, rfl, Nat.le_of_not_lt hbig, by simp⟩

/-! ## The operations -/

/-- Keep the items whose deadline is still ahead. -/
def dropExpired [LT τ] [DecidableLT τ] (now : τ) (l : List (Item κ ν τ)) : List (Item κ ν τ) :=
  l.filter fun x => now < x.deadline

theorem mem_dropExpired [LT τ] [DecidableLT τ] {now : τ} {x : Item κ ν τ}
    {l : List (Item κ ν τ)} : x ∈ dropExpired now l ↔ x ∈ l ∧ now < x.deadline := by
  simp [dropExpired]

section
variable [DecidableEq κ]

def find (k : κ) (l : List (Item κ ν τ)) : Option (Item κ ν τ) := l.find? fun x => x.key = k

def remove (k : κ) (l : List (Item κ ν τ)) : List (Item κ ν τ) := l.filter fun x => x.key ≠ k

theorem mem_of_find {k : κ} {x : Item κ ν τ} {l : List (Item κ ν τ)} (h : find k l = some x) :
    x ∈ l ∧ x.key = k := by
  have hdec := List.find?_some h
  exact ⟨List.mem_of_find?_eq_some h, of_decide_eq_true hdec⟩

theorem find_eq_none {k : κ} {l : List (Item κ ν τ)} :
    find k l = none ↔ ∀ x ∈ l, x.key ≠ k := by simp [find]

theorem find_of_mem {x : Item κ ν τ} {l : List (Item κ ν τ)} (hl : (l.map Item.key).Nodup)
    (hx : x ∈ l) : find x.key l = some x := by
  cases h : find x.key l with
  | none => exact absurd rfl (find_eq_none.mp h x hx)
  | some y =>
    obtain ⟨hy, hk⟩ := mem_of_find h
    rw [List.inj_on_of_nodup_map hl hy hx hk]

theorem mem_remove {k : κ} {x : Item κ ν τ} {l : List (Item κ ν τ)} :
    x ∈ remove k l ↔ x ∈ l ∧ x.key ≠ k := by simp [remove]

@[simp] theorem remove_append (k : κ) (l m : List (Item κ ν τ)) :
    remove k (l ++ m) = remove k l ++ remove k m := List.filter_append ..

theorem remove_eq_self {k : κ} {l : List (Item κ ν τ)} (h : ∀ x ∈ l, x.key ≠ k) :
    remove k l = l := List.filter_eq_self.mpr fun x hx => decide_eq_true (h x hx)

theorem remove_middle {x : Item κ ν τ} {l m : List (Item κ ν τ)}
    (h : ((l ++ x :: m).map Item.key).Nodup) : remove x.key (l ++ x :: m) = l ++ m := by
  rw [List.map_append, List.map_cons, List.nodup_middle, List.nodup_cons, ← List.map_append] at h
  have hne : ∀ y ∈ l ++ m, y.key ≠ x.key := fun y hy he => h.1 (List.mem_map.mpr ⟨y, hy, he⟩)
  rw [remove_append, remove_eq_self fun y hy => hne y (List.mem_append_left _ hy), remove,
    List.filter_cons_of_neg (by simp)]
  exact congrArg (l ++ ·) (remove_eq_self fun y hy => hne y (List.mem_append_right _ hy))

theorem total_remove_add_le (w : ν → Nat) {k : κ} {x : Item κ ν τ} {l : List (Item κ ν τ)}
    (hx : x ∈ l) (hk : x.key = k) : total w (remove k l) + w x.value ≤ total w l := by
  induction l with
  | nil => simp at hx
  | cons y l ih =>
    rcases List.mem_cons.mp hx with rfl | hx
    · have hle : total w (remove k l) ≤ total w l := total_le_of_sublist w List.filter_sublist
      rw [remove, List.filter_cons_of_neg (by simp [hk]), total_cons, Nat.add_comm]
      exact Nat.add_le_add_left hle _
    · have hrec : total w (remove k l) + w x.value ≤ total w l := ih hx
      rw [remove] at hrec ⊢
      by_cases hy : y.key = k
      · rw [List.filter_cons_of_neg (by simp [hy]), total_cons]
        omega
      · rw [List.filter_cons_of_pos (by simp [hy]), total_cons, total_cons]
        omega

variable [LT τ] [DecidableLT τ]

/-- A hit moves its item to the back. -/
def get (now : τ) (k : κ) (l : List (Item κ ν τ)) : Option ν × List (Item κ ν τ) :=
  match find k (dropExpired now l) with
  | none => (none, dropExpired now l)
  | some x => (some x.value, remove k (dropExpired now l) ++ [x])

/-- A new item replaces any of the same key, goes to the back, and may shed. -/
def put (w : ν → Nat) (limit : Nat) (now : τ) (k : κ) (v : ν) (deadline : τ)
    (l : List (Item κ ν τ)) : List (Item κ ν τ) :=
  shed w limit (remove k (dropExpired now l) ++ [⟨k, v, deadline⟩])

/-- A lookup never makes the list heavier. -/
theorem total_get_le (w : ν → Nat) (now : τ) (k : κ) (l : List (Item κ ν τ)) :
    total w (get now k l).2 ≤ total w l := by
  have hdrop : total w (dropExpired now l) ≤ total w l :=
    total_le_of_sublist w List.filter_sublist
  rw [get]
  cases h : find k (dropExpired now l) with
  | none => exact hdrop
  | some x =>
    obtain ⟨hx, hk⟩ := mem_of_find h
    have hrec := total_remove_add_le w hx hk
    rw [total_append, total_cons, total_nil]
    omega

/-! ## What is on the list after an operation -/

/-- A lookup finds the value of the live item of its key. -/
theorem get_eq_some {now : τ} {k : κ} {v : ν} {l : List (Item κ ν τ)}
    (hl : (l.map Item.key).Nodup) :
    (get now k l).1 = some v ↔ ∃ d, ⟨k, v, d⟩ ∈ l ∧ now < d := by
  rw [get]
  constructor
  · intro h
    cases hf : find k (dropExpired now l) with
    | none => simp [hf] at h
    | some x =>
      obtain ⟨hx, rfl⟩ := mem_of_find hf
      obtain ⟨hx, hlive⟩ := mem_dropExpired.mp hx
      obtain rfl : x.value = v := by simpa [hf] using h
      exact ⟨x.deadline, hx, hlive⟩
  · rintro ⟨d, hx, hlive⟩
    have hnd : ((dropExpired now l).map Item.key).Nodup :=
      hl.sublist (List.filter_sublist.map _)
    have hf : find k (dropExpired now l) = some ⟨k, v, d⟩ :=
      find_of_mem hnd (mem_dropExpired.mpr ⟨hx, hlive⟩)
    rw [hf]

/-- A lookup only drops what has expired. -/
theorem mem_get {now : τ} {k : κ} {x : Item κ ν τ} {l : List (Item κ ν τ)}
    (hl : (l.map Item.key).Nodup) : x ∈ (get now k l).2 ↔ x ∈ l ∧ now < x.deadline := by
  rw [← mem_dropExpired, get]
  cases hf : find k (dropExpired now l) with
  | none => rfl
  | some y =>
    obtain ⟨hy, rfl⟩ := mem_of_find hf
    rw [List.mem_append, mem_remove, List.mem_singleton]
    constructor
    · rintro (⟨hx, -⟩ | rfl)
      · exact hx
      · exact hy
    · intro hx
      by_cases hk : x.key = y.key
      · have hnd : ((dropExpired now l).map Item.key).Nodup :=
          hl.sublist (List.filter_sublist.map _)
        exact .inr (List.inj_on_of_nodup_map hnd hx hy hk)
      · exact .inl ⟨hx, hk⟩

/-- A lookup misses, or its item moves from the middle of the list to the back. -/
theorem get_cases (now : τ) (k : κ) {l : List (Item κ ν τ)} (hl : (l.map Item.key).Nodup) :
    ((∀ y ∈ dropExpired now l, y.key ≠ k) ∧ get now k l = (none, dropExpired now l)) ∨
      ∃ front x back, dropExpired now l = front ++ x :: back ∧ x.key = k ∧
        get now k l = (some x.value, front ++ back ++ [x]) := by
  rw [get]
  cases hf : find k (dropExpired now l) with
  | none => exact .inl ⟨find_eq_none.mp hf, rfl⟩
  | some x =>
    obtain ⟨hx, rfl⟩ := mem_of_find hf
    obtain ⟨front, back, hsplit⟩ := List.append_of_mem hx
    have hnd : ((front ++ x :: back).map Item.key).Nodup :=
      hsplit ▸ hl.sublist (List.filter_sublist.map _)
    refine .inr ⟨front, x, back, hsplit, rfl, ?_⟩
    dsimp only
    rw [hsplit, remove_middle hnd]

/-- What is on the list after an insertion is the new item or was there under another key. -/
theorem mem_put {w : ν → Nat} {limit : Nat} {now : τ} {k : κ} {v : ν} {d : τ} {x : Item κ ν τ}
    {l : List (Item κ ν τ)} (h : x ∈ put w limit now k v d l) :
    x = ⟨k, v, d⟩ ∨ x ∈ l ∧ now < x.deadline ∧ x.key ≠ k := by
  rcases List.mem_append.mp ((shed_suffix ..).subset h) with hx | hx
  · obtain ⟨hx, hk⟩ := mem_remove.mp hx
    obtain ⟨hx, hlive⟩ := mem_dropExpired.mp hx
    exact .inr ⟨hx, hlive, hk⟩
  · exact .inl (List.mem_singleton.mp hx)

/-- A new item that fits by itself is kept. -/
theorem mem_put_of_fits {w : ν → Nat} {limit : Nat} (now : τ) (k : κ) {v : ν} (d : τ)
    (l : List (Item κ ν τ)) (h : w v ≤ limit) : ⟨k, v, d⟩ ∈ put w limit now k v d l := by
  obtain ⟨kept, -, heq⟩ := shed_append_of_fits (remove k (dropExpired now l))
    [(⟨k, v, d⟩ : Item κ ν τ)] (by simpa using h)
  rw [put, heq]
  simp

/-- A new item that does not fit by itself empties the list. -/
theorem put_eq_nil {w : ν → Nat} {limit : Nat} (now : τ) (k : κ) {v : ν} (d : τ)
    (l : List (Item κ ν τ)) (h : limit < w v) : put w limit now k v d l = [] := by
  rw [put]
  generalize remove k (dropExpired now l) = front
  induction front with
  | nil => simp [shed, h]
  | cons x front ih =>
    rw [List.cons_append, shed, if_pos]
    · exact ih
    · have htot : total w (x :: (front ++ [⟨k, v, d⟩])) =
          w x.value + (total w front + w v) := by simp
      omega

/-! ## The part of the list behind an item -/

/-- Dropping and removing leave an item of another key where it is, unless it has expired. -/
theorem remove_dropExpired_middle {now : τ} {k : κ} {x : Item κ ν τ}
    (front back : List (Item κ ν τ)) (hk : x.key ≠ k) (hx : now < x.deadline) :
    remove k (dropExpired now (front ++ x :: back)) =
      remove k (dropExpired now front) ++ x :: remove k (dropExpired now back) := by
  simp [remove, dropExpired, hk, hx]

theorem mem_remove_dropExpired {now : τ} {k : κ} {x : Item κ ν τ} {l : List (Item κ ν τ)} :
    x ∈ remove k (dropExpired now l) ↔ x ∈ l ∧ now < x.deadline ∧ x.key ≠ k := by
  rw [mem_remove, mem_dropExpired, and_assoc]

theorem nodup_remove_append {now : τ} {x : Item κ ν τ} {l : List (Item κ ν τ)}
    (h : (l.map Item.key).Nodup) :
    ((remove x.key (dropExpired now l) ++ [x]).map Item.key).Nodup := by
  have hsub : (remove x.key (dropExpired now l)).Sublist l :=
    List.filter_sublist.trans List.filter_sublist
  rw [List.map_append, List.map_singleton, List.nodup_append]
  refine ⟨h.sublist (hsub.map _), List.nodup_singleton _, ?_⟩
  intro a ha b hb
  obtain ⟨y, hy, rfl⟩ := List.mem_map.mp ha
  rw [List.mem_singleton.mp hb]
  exact (mem_remove.mp hy).2

end

/-- Items of distinct keys weigh at most what their keys are allowed. -/
theorem total_le_sum [DecidableEq κ] {w : ν → Nat} {f : κ → Nat} {S : Finset κ} :
    ∀ {l : List (Item κ ν τ)}, (l.map Item.key).Nodup → (∀ x ∈ l, x.key ∈ S) →
      (∀ x ∈ l, w x.value ≤ f x.key) → total w l ≤ ∑ k ∈ S, f k := by
  intro l
  induction l generalizing S with
  | nil => simp
  | cons x l ih =>
    intro hl hS hf
    rw [List.map_cons, List.nodup_cons] at hl
    have hrest : total w l ≤ ∑ k ∈ S.erase x.key, f k := by
      refine ih hl.2 (fun y hy => ?_) fun y hy => hf y (List.mem_cons_of_mem _ hy)
      refine Finset.mem_erase.mpr ⟨fun he => hl.1 ?_, hS y (List.mem_cons_of_mem _ hy)⟩
      exact List.mem_map.mpr ⟨y, hy, he⟩
    rw [total_cons, ← Finset.add_sum_erase S f (hS x List.mem_cons_self)]
    exact Nat.add_le_add (hf x List.mem_cons_self) hrest

end Recency
