import Mathlib.Algebra.Order.Ring.Nat
import Mathlib.Data.List.Basic
import Mathlib.Data.List.Induction
import Mathlib.Data.List.TakeWhile

/-!
# Byte strings

`std::string` and `std::vector<unsigned char>` are both lists of bytes here:
labels, names and values may hold any byte. The string helpers of `util.cpp`
follow, with the C locale assumed for `tolower` and `isspace`, and the name
normalisation that the blocklist, the local records and the cache key share.
-/

namespace Gravastar

abbrev Bytes := List UInt8

/-- A string literal of the source. -/
def ascii (s : String) : Bytes := s.toList.map fun c => UInt8.ofNat c.toNat

/-- The label separator `'.'`. -/
def dot : UInt8 := 46

def newline : UInt8 := 10

/-- What is checked for every number below 256 holds for every byte. -/
theorem forall_byte {p : UInt8 → Prop} (h : ∀ n < 256, p (UInt8.ofNat n)) (b : UInt8) : p b := by
  simpa using h b.toNat b.toNat_lt

/-- Below a number that is shifted by eight bits there is room for a byte. -/
theorem shiftLeft_or_byte (n : Nat) (b : UInt8) : n <<< 8 ||| b.toNat = n * 256 + b.toNat := by
  rw [Nat.shiftLeft_eq, Nat.mul_comm, ← Nat.two_pow_add_eq_or_of_lt b.toNat_lt, Nat.mul_comm]

/-- The two bytes of a number of 16 bits. -/
theorem shiftRight_and_byte {n : Nat} (h : n < 65536) : n >>> 8 &&& 0xff = n / 256 := by
  rw [Nat.shiftRight_eq_div_pow, Nat.and_two_pow_sub_one_eq_mod _ 8]
  omega

theorem and_byte (n : Nat) : n &&& 0xff = n % 256 := Nat.and_two_pow_sub_one_eq_mod n 8

/-! ## `util.cpp` -/

def lowerByte (b : UInt8) : UInt8 := if 65 ≤ b ∧ b ≤ 90 then b + 32 else b

/-- `ToLower`. -/
def toLower (s : Bytes) : Bytes := s.map lowerByte

def isSpace (b : UInt8) : Bool := b = 32 ∨ (9 ≤ b ∧ b ≤ 13)

/-- `Trim`. -/
def trim (s : Bytes) : Bytes :=
  ((s.dropWhile isSpace).reverse.dropWhile isSpace).reverse

def splitLoop (delim : UInt8) (cur : Bytes) : Bytes → List Bytes
  | [] => [cur]
  | c :: s => if c = delim then cur :: splitLoop delim [] s else splitLoop delim (cur ++ [c]) s

/-- `Split`. -/
def split (s : Bytes) (delim : UInt8) : List Bytes := splitLoop delim [] s

/-! ## White space -/

/-- Only white space. -/
def Blank (s : Bytes) : Prop := ∀ b ∈ s, isSpace b = true

instance (s : Bytes) : Decidable (Blank s) := List.decidableBAll (fun b => isSpace b = true) s

theorem blank_nil : Blank [] := by simp [Blank]

theorem Blank.append {s t : Bytes} (hs : Blank s) (ht : Blank t) : Blank (s ++ t) := by
  simpa [Blank, or_imp, forall_and] using And.intro hs ht

theorem Blank.dropWhile_eq {s : Bytes} (h : Blank s) : s.dropWhile isSpace = [] :=
  List.dropWhile_eq_nil_iff.mpr h

/-- White space in front of a text does not count. -/
theorem Blank.trim_append {s : Bytes} (h : Blank s) (t : Bytes) : trim (s ++ t) = trim t := by
  rw [trim, trim, List.dropWhile_append, h.dropWhile_eq]
  rfl

theorem Blank.trim_eq {s : Bytes} (h : Blank s) : trim s = [] := by
  rw [trim, h.dropWhile_eq]
  rfl

/-- White space behind a text does not count. -/
theorem trim_append_blank (s : Bytes) {t : Bytes} (h : Blank t) : trim (s ++ t) = trim s := by
  have hrev : Blank t.reverse := fun b hb => h b (List.mem_reverse.mp hb)
  by_cases hs : Blank s
  · rw [(hs.append h).trim_eq, hs.trim_eq]
  · have hne : (s.dropWhile isSpace).isEmpty = false := by
      rw [List.isEmpty_eq_false_iff, Ne, List.dropWhile_eq_nil_iff]
      exact hs
    rw [trim, trim, List.dropWhile_append, hne, if_neg Bool.false_ne_true, List.reverse_append,
      List.dropWhile_append, hrev.dropWhile_eq]
    rfl

/-- A text that starts and ends with other bytes than white space is its own trimmed text. -/
theorem trim_eq_self {s : Bytes} (hfirst : ∀ b ∈ s.head?, isSpace b = false)
    (hlast : ∀ b ∈ s.getLast?, isSpace b = false) : trim s = s := by
  have hdrop : ∀ t : Bytes, (∀ b ∈ t.head?, isSpace b = false) → t.dropWhile isSpace = t := by
    intro t ht
    cases t with
    | nil => rfl
    | cons b t => exact List.dropWhile_cons_of_neg (by simp [ht b rfl])
  rw [trim, hdrop s hfirst, hdrop s.reverse (by simpa using hlast), List.reverse_reverse]

/-- White space behind a text can be split off. -/
theorem exists_blank_end (s : Bytes) :
    ∃ t w, s = t ++ w ∧ Blank w ∧ ∀ b ∈ t.getLast?, isSpace b = false := by
  induction s using List.reverseRecOn with
  | nil => exact ⟨[], [], rfl, blank_nil, by simp⟩
  | append_singleton s b ih =>
    cases hb : isSpace b with
    | false => exact ⟨s ++ [b], [], by simp, blank_nil, by simp [hb]⟩
    | true =>
      obtain ⟨t, w, rfl, hw, ht⟩ := ih
      exact ⟨t, w ++ [b], by simp, hw.append (by simp [Blank, hb]), ht⟩

/-- White space behind a text that starts with another byte. -/
theorem exists_blank_end_cons {b : UInt8} (hb : isSpace b = false) (s : Bytes) :
    ∃ t w, s = t ++ w ∧ Blank w ∧ ∀ c ∈ (b :: t).getLast?, isSpace c = false := by
  obtain ⟨t, w, rfl, hw, ht⟩ := exists_blank_end s
  refine ⟨t, w, rfl, hw, fun c hc => ?_⟩
  cases t with
  | nil =>
    obtain rfl : b = c := by simpa using hc
    exact hb
  | cons d t => exact ht c (by simpa using hc)

/-- A text that starts with another byte than white space keeps that byte, and loses at most
its end. -/
theorem trim_cons {b : UInt8} (hb : isSpace b = false) (s : Bytes) :
    ∃ t, trim (b :: s) = b :: t ∧ t <+: s := by
  obtain ⟨t, w, rfl, hw, ht⟩ := exists_blank_end_cons hb s
  refine ⟨t, ?_, List.prefix_append t w⟩
  rw [← List.cons_append, trim_append_blank _ hw]
  exact trim_eq_self (by simpa using hb) ht

/-- Trimming takes white space from both ends, and all of it. -/
theorem exists_trim (s : Bytes) :
    ∃ w w', s = w ++ trim s ++ w' ∧ Blank w ∧ Blank w' ∧
      (∀ b ∈ (trim s).head?, isSpace b = false) ∧ ∀ b ∈ (trim s).getLast?, isSpace b = false := by
  have hlead : Blank (s.takeWhile isSpace) := fun b hb => List.mem_takeWhile_imp hb
  have hsplit : s = s.takeWhile isSpace ++ s.dropWhile isSpace :=
    List.takeWhile_append_dropWhile.symm
  cases hrest : s.dropWhile isSpace with
  | nil =>
    rw [hrest, List.append_nil] at hsplit
    rw [← hsplit] at hlead
    exact ⟨s, [], by simp [hlead.trim_eq], hlead, blank_nil, by simp [hlead.trim_eq]⟩
  | cons b t =>
    have hb : isSpace b = false := by
      have hhead := List.head?_dropWhile_not isSpace s
      rw [hrest] at hhead
      exact hhead
    obtain ⟨t', w', rfl, hw', hlast⟩ := exists_blank_end_cons hb t
    have htrim : trim s = b :: t' := by
      rw [hsplit, hrest, hlead.trim_append, ← List.cons_append, trim_append_blank _ hw']
      exact trim_eq_self (by simpa using hb) hlast
    refine ⟨_, w', ?_, hlead, hw', ?_⟩
    · rw [htrim, List.append_assoc, List.cons_append, ← hrest]
      exact hsplit
    · rw [htrim]
      exact ⟨by simpa using hb, hlast⟩

theorem trim_trim (s : Bytes) : trim (trim s) = trim s := by
  obtain ⟨_, _, -, -, -, hfirst, hlast⟩ := exists_trim s
  exact trim_eq_self hfirst hlast

/-! ## Names as text -/

/-- Drop one trailing dot: `if (!s.empty() && s[s.size() - 1] == '.') s.resize(...)`. -/
def dropTrailingDot (s : Bytes) : Bytes := if s.getLast? = some dot then s.dropLast else s

/-- The form in which names are compared: lower case, without a trailing dot. -/
def canonicalName (s : Bytes) : Bytes := dropTrailingDot (toLower s)

/-- Labels with dots between them. -/
def dotJoin (labels : List Bytes) : Bytes := [dot].intercalate labels

@[simp] theorem dotJoin_singleton (l : Bytes) : dotJoin [l] = l := by simp [dotJoin]

@[simp] theorem dotJoin_cons_cons (l m : Bytes) (ls : List Bytes) :
    dotJoin (l :: m :: ls) = l ++ dot :: dotJoin (m :: ls) := by simp [dotJoin]

theorem dotJoin_eq_flatMap (l : Bytes) (ls : List Bytes) :
    dotJoin (l :: ls) = l ++ ls.flatMap (dot :: ·) := by
  induction ls generalizing l with
  | nil => simp
  | cons m ls ih => simp [ih]

@[simp] theorem toLower_append (s t : Bytes) : toLower (s ++ t) = toLower s ++ toLower t := by
  simp [toLower]

@[simp] theorem length_toLower (s : Bytes) : (toLower s).length = s.length := by simp [toLower]

theorem lowerByte_eq_dot {b : UInt8} : lowerByte b = dot ↔ b = dot := by
  revert b
  apply forall_byte
  decide +kernel

theorem dot_mem_toLower {s : Bytes} : dot ∈ toLower s ↔ dot ∈ s := by
  simp [toLower, lowerByte_eq_dot]

theorem toLower_dotJoin (labels : List Bytes) :
    toLower (dotJoin labels) = dotJoin (labels.map toLower) := by
  induction labels with
  | nil => rfl
  | cons l ls ih =>
    cases ls with
    | nil => simp
    | cons m ls =>
      have hd : toLower (dot :: dotJoin (m :: ls)) = dot :: toLower (dotJoin (m :: ls)) := rfl
      rw [dotJoin_cons_cons, toLower_append, hd, ih]
      simp

/-- A name whose labels hold no dot determines its labels. -/
theorem dotJoin_injective {ls ms : List Bytes} (hl : ∀ l ∈ ls, dot ∉ l) (hm : ∀ l ∈ ms, dot ∉ l)
    (hls : ls ≠ []) (hms : ms ≠ []) (h : dotJoin ls = dotJoin ms) : ls = ms := by
  rw [← List.splitOn_intercalate dot hl hls, ← List.splitOn_intercalate dot hm hms]
  exact congrArg (·.splitOn dot) h

/-! ## Pieces of a text -/

theorem splitLoop_eq (delim : UInt8) (cur s : Bytes) :
    splitLoop delim cur s = List.splitOnPPrepend (· == delim) s cur.reverse := by
  induction s generalizing cur with
  | nil => simp [splitLoop]
  | cons c s ih =>
    rw [splitLoop, List.splitOnPPrepend_cons_eq_if]
    by_cases h : c = delim
    · simp [h, ih]
    · simp [h, ih]

theorem split_eq_splitOn (s : Bytes) (delim : UInt8) : split s delim = s.splitOn delim :=
  (splitLoop_eq delim [] s).trans List.splitOn_eq_splitOnP.symm

theorem dotJoin_append {ls ms : List Bytes} (hl : ls ≠ []) (hm : ms ≠ []) :
    dotJoin (ls ++ ms) = dotJoin ls ++ dot :: dotJoin ms := by
  induction ls with
  | nil => exact absurd rfl hl
  | cons l ls ih =>
    cases ls with
    | nil =>
      cases ms with
      | nil => exact absurd rfl hm
      | cons m ms => simp
    | cons l' ls =>
      rw [List.cons_append, List.cons_append, dotJoin_cons_cons, ← List.cons_append, ih (by simp)]
      simp

theorem dotJoin_split (s : Bytes) : dotJoin (split s dot) = s := by
  rw [split_eq_splitOn]
  exact List.intercalate_splitOn dot

theorem split_dotJoin {ls : List Bytes} (h : ∀ l ∈ ls, dot ∉ l) (hne : ls ≠ []) :
    split (dotJoin ls) dot = ls := by
  rw [split_eq_splitOn]
  exact List.splitOn_intercalate dot h hne

/-- Cutting a text at a separator cuts the list of its pieces. -/
theorem split_append_cons (s t : Bytes) (delim : UInt8) :
    split (s ++ delim :: t) delim = split s delim ++ split t delim := by
  simp only [split_eq_splitOn]
  exact List.splitOn_append_cons_self s t

theorem mem_intercalate {b sep : UInt8} {pieces : List Bytes}
    (h : b ∈ [sep].intercalate pieces) : b = sep ∨ ∃ p ∈ pieces, b ∈ p := by
  induction pieces with
  | nil => simp at h
  | cons p pieces ih =>
    cases pieces with
    | nil => exact .inr ⟨p, List.mem_cons_self, by simpa using h⟩
    | cons q pieces =>
      rw [List.intercalate_cons_cons, List.mem_append, List.mem_append, List.mem_singleton] at h
      rcases h with (hp | rfl) | hrest
      · exact .inr ⟨p, List.mem_cons_self, hp⟩
      · exact .inl rfl
      · rcases ih hrest with hsep | ⟨r, hr, hb⟩
        · exact .inl hsep
        · exact .inr ⟨r, List.mem_cons_of_mem _ hr, hb⟩

/-! ## Decimal numbers -/

def isDigit (b : UInt8) : Bool := 48 ≤ b ∧ b ≤ 57

/-- The number that a run of decimal digits denotes. -/
def digitsValue (digits : Bytes) : Nat := digits.foldl (fun n b => n * 10 + (b.toNat - 48)) 0

/-- `snprintf(buf, 16, "%u", n)`. -/
def decimal (n : Nat) : Bytes := (Nat.toDigits 10 n).map fun c => UInt8.ofNat c.toNat

theorem decimal_digit {n : Nat} {b : UInt8} (h : b ∈ decimal n) : 48 ≤ b.toNat ∧ b.toNat ≤ 57 := by
  obtain ⟨c, hc, rfl⟩ := List.mem_map.mp h
  have hd := Nat.isDigit_of_mem_toDigits (by omega) (by omega) hc
  simp [Char.isDigit, UInt32.le_iff_toNat_le] at hd
  have hv : c.toNat = c.val.toNat := rfl
  rw [UInt8.toNat_ofNat']
  omega

theorem isDigit_of_mem_decimal {n : Nat} {b : UInt8} (h : b ∈ decimal n) : isDigit b = true := by
  have hdigit := decimal_digit h
  simpa [isDigit, UInt8.le_iff_toNat_le] using hdigit

theorem isSpace_of_mem_decimal {n : Nat} {b : UInt8} (h : b ∈ decimal n) : isSpace b = false := by
  have hdigit := decimal_digit h
  simp [isSpace, UInt8.le_iff_toNat_le, ← UInt8.toNat_inj]
  omega

theorem dropWhile_isSpace_decimal (n : Nat) : (decimal n).dropWhile isSpace = decimal n := by
  cases h : decimal n with
  | nil => rfl
  | cons b s =>
    have hb : isSpace b = false := isSpace_of_mem_decimal (h ▸ List.mem_cons_self)
    exact List.dropWhile_cons_of_neg (by simp [hb])

theorem takeWhile_isDigit_decimal (n : Nat) : (decimal n).takeWhile isDigit = decimal n :=
  List.takeWhile_eq_self_iff.mpr fun _ => isDigit_of_mem_decimal

theorem dropWhile_isDigit_decimal (n : Nat) : (decimal n).dropWhile isDigit = [] :=
  List.dropWhile_eq_nil_iff.mpr fun _ => isDigit_of_mem_decimal

/-- A number has no sign in front. -/
theorem head?_decimal_ne (n : Nat) {b : UInt8} (hb : isDigit b = false) :
    (decimal n).head? ≠ some b := by
  intro h
  rw [isDigit_of_mem_decimal (List.mem_of_mem_head? h)] at hb
  cases hb

theorem decimal_ne_nil (n : Nat) : decimal n ≠ [] := by
  rw [decimal, Ne, List.map_eq_nil_iff]
  exact Nat.toDigits_ne_nil

theorem toNat_ofNat_digit {n : Nat} {c : Char} (hc : c ∈ Nat.toDigits 10 n) :
    (UInt8.ofNat c.toNat).toNat = c.toNat := by
  have hd := Nat.isDigit_of_mem_toDigits (by omega) (by omega) hc
  simp [Char.isDigit, UInt32.le_iff_toNat_le] at hd
  have hv : c.toNat = c.val.toNat := rfl
  rw [UInt8.toNat_ofNat']
  omega

/-- Reading the bytes of a number back as characters. -/
theorem map_decimal (n : Nat) :
    (decimal n).map (fun b => Char.ofNat b.toNat) = Nat.toDigits 10 n := by
  rw [decimal, List.map_map]
  refine (List.map_congr_left fun c hc => ?_).trans (List.map_id _)
  simp [toNat_ofNat_digit hc]

theorem digitsValue_decimal (n : Nat) : digitsValue (decimal n) = n := by
  have hvalue : digitsValue (decimal n) = Nat.ofDigitChars 10 (Nat.toDigits 10 n) 0 := by
    rw [digitsValue, decimal, List.foldl_map, Nat.ofDigitChars]
    refine List.foldl_ext _ _ _ fun m c hc => ?_
    rw [toNat_ofNat_digit hc, Nat.mul_comm]
    rfl
  rw [hvalue, Nat.ofDigitChars_ten_toDigits]

theorem decimal_injective {m n : Nat} (h : decimal m = decimal n) : m = n := by
  have hd : Nat.toDigits 10 m = Nat.toDigits 10 n := by
    rw [← map_decimal, h, map_decimal]
  rw [← Nat.ofDigitChars_ten_toDigits (n := m), hd, Nat.ofDigitChars_ten_toDigits]

end Gravastar
