import Mathlib.Data.List.Basic

/-!
# Settings

A loader is given pairs of a key and a value one after the other, and stops at
the first pair that it refuses. A field belongs to a key if only the pairs with
that key change it, each to what its value is parsed to. Then the last value of
the key decides, and no value of it can be one that is not parsed.
-/

namespace Settings

variable {κ ν σ ε α : Type} (set : σ → κ × ν → Except ε σ)

/-- Take the pairs in order. -/
def run : σ → List (κ × ν) → Except ε σ
  | s, [] => .ok s
  | s, pair :: pairs =>
    match set s pair with
    | .error e => .error e
    | .ok s => run s pairs

@[simp] theorem run_nil (s : σ) : run set s [] = .ok s := rfl

variable {set}

theorem run_cons_ok {s s' : σ} {pair : κ × ν} (h : set s pair = .ok s') (pairs : List (κ × ν)) :
    run set s (pair :: pairs) = run set s' pairs := by
  rw [run, h]

theorem run_cons_error {s : σ} {pair : κ × ν} {e : ε} (h : set s pair = .error e)
    (pairs : List (κ × ν)) : run set s (pair :: pairs) = .error e := by
  rw [run, h]

/-- A run that ends well starts with a pair that is taken. -/
theorem exists_of_run_cons {s s' : σ} {pair : κ × ν} {pairs : List (κ × ν)}
    (h : run set s (pair :: pairs) = .ok s') :
    ∃ s₁, set s pair = .ok s₁ ∧ run set s₁ pairs = .ok s' := by
  cases hset : set s pair with
  | error e =>
    rw [run_cons_error hset] at h
    cases h
  | ok s₁ => exact ⟨s₁, rfl, run_cons_ok hset pairs ▸ h⟩

/-- The field `get` belongs to the key. -/
structure Field (set : σ → κ × ν → Except ε σ) (key : κ) (parse : ν → Option α) (get : σ → α) :
    Prop where
  own : ∀ s value s', set s (key, value) = .ok s' → parse value = some (get s')
  other : ∀ s key' value s', key' ≠ key → set s (key', value) = .ok s' → get s' = get s

/-- The usual way to take a pair: refuse what is not parsed, and put the rest into the field. -/
theorem Field.of_parse {β : Type} {key : κ} {parse : ν → Option β} {get : σ → α} {store : β → α}
    {put : σ → β → σ} {e : ε}
    (hset : ∀ s value, set s (key, value) =
      (parse value).elim (.error e) fun b => .ok (put s b))
    (hget : ∀ s b, get (put s b) = store b)
    (hother : ∀ s key' value s', key' ≠ key → set s (key', value) = .ok s' → get s' = get s) :
    Field set key (fun value => (parse value).map store) get where
  own s value s' h := by
    rw [hset] at h
    cases hvalue : parse value with
    | none =>
      rw [hvalue] at h
      cases h
    | some b =>
      rw [hvalue] at h
      rw [← Except.ok.inj h, hget]
      rfl
  other := hother

/-- The same where the field is what is parsed. -/
theorem Field.of_value {key : κ} {parse : ν → Option α} {get : σ → α} {put : σ → α → σ} {e : ε}
    (hset : ∀ s value, set s (key, value) =
      (parse value).elim (.error e) fun a => .ok (put s a))
    (hget : ∀ s a, get (put s a) = a)
    (hother : ∀ s key' value s', key' ≠ key → set s (key', value) = .ok s' → get s' = get s) :
    Field set key parse get := by
  have h : Field set key (fun value => (parse value).map id) get := .of_parse hset hget hother
  simpa only [Option.map_id, id] using h

/-! ## The values of a key -/

variable [DecidableEq κ]

/-- The values that a key is given, in order. -/
def values (key : κ) (pairs : List (κ × ν)) : List ν :=
  pairs.filterMap fun pair => if pair.1 = key then some pair.2 else none

theorem values_cons_self (key : κ) (value : ν) (pairs : List (κ × ν)) :
    values key ((key, value) :: pairs) = value :: values key pairs := by simp [values]

theorem values_cons_ne {key key' : κ} (h : key' ≠ key) (value : ν) (pairs : List (κ × ν)) :
    values key ((key', value) :: pairs) = values key pairs := by simp [values, h]

namespace Field

variable {key : κ} {parse : ν → Option α} {get : σ → α} {s s' : σ} {pairs : List (κ × ν)}
  (h : Field set key parse get)
include h

/-- Every value of the key has been parsed. -/
theorem isSome_of_run (hrun : run set s pairs = .ok s') :
    ∀ value ∈ values key pairs, (parse value).isSome := by
  induction pairs generalizing s with
  | nil => simp [values]
  | cons pair pairs ih =>
    obtain ⟨key', value'⟩ := pair
    obtain ⟨s₁, hset, hrest⟩ := exists_of_run_cons hrun
    intro value hvalue
    by_cases hkey : key' = key
    · subst hkey
      rw [values_cons_self] at hvalue
      rcases List.mem_cons.mp hvalue with rfl | hvalue
      · rw [h.own s value s₁ hset]
        rfl
      · exact ih hrest value hvalue
    · rw [values_cons_ne hkey] at hvalue
      exact ih hrest value hvalue

/-- The field is what the last value of the key is parsed to, or has not changed. -/
theorem get_of_run (hrun : run set s pairs = .ok s') :
    match (values key pairs).getLast? with
    | none => get s' = get s
    | some value => parse value = some (get s') := by
  induction pairs generalizing s with
  | nil => exact congrArg get (Except.ok.inj hrun).symm
  | cons pair pairs ih =>
    obtain ⟨key', value'⟩ := pair
    obtain ⟨s₁, hset, hrest⟩ := exists_of_run_cons hrun
    have hlast := ih hrest
    by_cases hkey : key' = key
    · subst hkey
      rw [values_cons_self, List.getLast?_cons]
      cases hvalues : (values key' pairs).getLast? with
      | none =>
        rw [hvalues] at hlast
        exact hlast ▸ h.own s value' s₁ hset
      | some value =>
        rw [hvalues] at hlast
        exact hlast
    · rw [values_cons_ne hkey]
      cases hvalues : (values key pairs).getLast? with
      | none =>
        rw [hvalues] at hlast
        exact hlast.trans (h.other s key' value' s₁ hkey hset)
      | some value =>
        rw [hvalues] at hlast
        exact hlast

theorem get_of_last {value : ν} (hrun : run set s pairs = .ok s')
    (hlast : (values key pairs).getLast? = some value) : parse value = some (get s') := by
  have hget := h.get_of_run hrun
  rw [hlast] at hget
  exact hget

/-- The field from the last value of the key, without the run. -/
theorem get_eq_getD (hrun : run set s pairs = .ok s') :
    get s' = ((values key pairs).getLast?.bind parse).getD (get s) := by
  have hget := h.get_of_run hrun
  cases hlast : (values key pairs).getLast? with
  | none =>
    rw [hlast] at hget
    exact hget
  | some value =>
    rw [hlast] at hget
    rw [Option.bind_some, hget]
    rfl

end Field

/-! ## Fields that collect -/

/-- The list `get` collects the items of all values of the key. -/
structure Collects (set : σ → κ × ν → Except ε σ) (key : κ) (parse : ν → Option (List α))
    (get : σ → List α) : Prop where
  own : ∀ s value s', set s (key, value) = .ok s' →
    ∃ items, parse value = some items ∧ get s' = get s ++ items
  other : ∀ s key' value s', key' ≠ key → set s (key', value) = .ok s' → get s' = get s

omit [DecidableEq κ] in
theorem Collects.of_parse {key : κ} {parse : ν → Option (List α)} {get : σ → List α}
    {put : σ → List α → σ} {e : ε}
    (hset : ∀ s value, set s (key, value) =
      (parse value).elim (.error e) fun items => .ok (put s items))
    (hget : ∀ s items, get (put s items) = get s ++ items)
    (hother : ∀ s key' value s', key' ≠ key → set s (key', value) = .ok s' → get s' = get s) :
    Collects set key parse get where
  own s value s' h := by
    rw [hset] at h
    cases hvalue : parse value with
    | none =>
      rw [hvalue] at h
      cases h
    | some items =>
      rw [hvalue] at h
      exact ⟨items, rfl, Except.ok.inj h ▸ hget s items⟩
  other := hother

theorem Collects.get_of_run {key : κ} {parse : ν → Option (List α)} {get : σ → List α} {s s' : σ}
    {pairs : List (κ × ν)} (h : Collects set key parse get) (hrun : run set s pairs = .ok s') :
    get s' = get s ++ (values key pairs).flatMap fun value => (parse value).getD [] := by
  induction pairs generalizing s with
  | nil =>
    obtain rfl := Except.ok.inj hrun
    simp [values]
  | cons pair pairs ih =>
    obtain ⟨key', value⟩ := pair
    obtain ⟨s₁, hset, hrest⟩ := exists_of_run_cons hrun
    rw [ih hrest]
    by_cases hkey : key' = key
    · subst hkey
      obtain ⟨items, hparse, hget⟩ := h.own s value s₁ hset
      rw [values_cons_self, List.flatMap_cons, hparse, hget, List.append_assoc]
      rfl
    · rw [values_cons_ne hkey, h.other s key' value s₁ hkey hset]

/-! ## Refused pairs -/

section
omit [DecidableEq κ]
variable {refusal : κ × ν → Option ε}
  (hrefusal : ∀ s pair e, set s pair = .error e ↔ refusal pair = some e)
include hrefusal

/-- If what is refused does not depend on the state, the first pair that is refused decides. -/
theorem run_eq_error_iff {s : σ} {pairs : List (κ × ν)} {e : ε} :
    run set s pairs = .error e ↔ pairs.findSome? refusal = some e := by
  induction pairs generalizing s with
  | nil => simp
  | cons pair pairs ih =>
    rw [List.findSome?_cons]
    cases hset : set s pair with
    | error e' =>
      rw [run_cons_error hset, (hrefusal s pair e').mp hset, Except.error.injEq, Option.some.injEq]
    | ok s₁ =>
      have hnone : refusal pair = none := Option.eq_none_iff_forall_ne_some.mpr fun e' he => by
        rw [(hrefusal s pair e').mpr he] at hset
        cases hset
      rw [run_cons_ok hset, hnone]
      exact ih

theorem exists_run_eq_ok (s : σ) {pairs : List (κ × ν)} (h : pairs.findSome? refusal = none) :
    ∃ s', run set s pairs = .ok s' := by
  cases hrun : run set s pairs with
  | ok s' => exact ⟨s', rfl⟩
  | error e =>
    rw [(run_eq_error_iff hrefusal).mp hrun] at h
    cases h

end

end Settings
