import Gravastar.Bytes

/-!
# Numbers in front of a text

`strtoul` and the streams find a number in the same way: a sign or none, then
as many digits as there are. What stands behind them is left over.
-/

namespace Gravastar

/-- No sign, a plus and a minus. -/
def signs : List Bytes := [[], [43], [45]]

def dropSign (s : Bytes) : Bytes := if s.head? = some 43 ∨ s.head? = some 45 then s.tail else s

/-- The text starts with a number, and `rest` is what stands behind all of its digits. -/
structure NumberCut (text sign digits rest : Bytes) : Prop where
  text_eq : text = sign ++ digits ++ rest
  sign_mem : sign ∈ signs
  digits_ne : digits ≠ []
  isDigit_of_mem : ∀ b ∈ digits, isDigit b = true
  isDigit_head : ∀ b ∈ rest.head?, isDigit b = false

/-- The integer that a sign and digits stand for. -/
def numberValue (sign digits : Bytes) : Int :=
  if sign = [45] then -(digitsValue digits : Int) else digitsValue digits

/-- The text is a number and nothing else. -/
def Denotes (text : Bytes) (z : Int) : Prop :=
  ∃ sign digits, NumberCut text sign digits [] ∧ z = numberValue sign digits

/-! ## Signs -/

theorem mem_signs {sign : Bytes} : sign ∈ signs ↔ sign = [] ∨ sign = [43] ∨ sign = [45] := by
  simp [signs]

theorem isDigit_sign {b : UInt8} (h : b = 43 ∨ b = 45) : isDigit b = false := by
  rcases h with rfl | rfl <;> decide

theorem isSpace_of_isDigit {b : UInt8} (h : isDigit b = true) : isSpace b = false := by
  simp [isDigit, isSpace, UInt8.le_iff_toNat_le, ← UInt8.toNat_inj] at h ⊢
  omega

/-- A sign in front is found, and only there. -/
theorem dropSign_append {sign t : Bytes} (hsign : sign ∈ signs)
    (ht : ∀ b ∈ t.head?, isDigit b = true) : dropSign (sign ++ t) = t := by
  rcases mem_signs.mp hsign with rfl | rfl | rfl
  · have hhead : ¬ (t.head? = some 43 ∨ t.head? = some 45) := by
      rintro (h | h) <;> cases ht _ h
    exact if_neg hhead
  · rfl
  · rfl

theorem exists_sign (s : Bytes) : ∃ sign ∈ signs, s = sign ++ dropSign s := by
  rw [dropSign]
  cases s with
  | nil => exact ⟨[], by decide, rfl⟩
  | cons b s =>
    split_ifs with h
    · rw [List.head?_cons, Option.some.injEq, Option.some.injEq] at h
      exact ⟨[b], by rcases h with rfl | rfl <;> decide, rfl⟩
    · exact ⟨[], by decide, rfl⟩

/-! ## Cuts -/

namespace NumberCut

variable {text sign digits rest : Bytes}

theorem exists_digit (h : NumberCut text sign digits rest) :
    ∃ b tail, digits = b :: tail ∧ isDigit b = true := by
  obtain ⟨b, tail, rfl⟩ := List.exists_cons_of_ne_nil h.digits_ne
  exact ⟨b, tail, rfl, h.isDigit_of_mem b List.mem_cons_self⟩

theorem dropSign_eq (h : NumberCut text sign digits rest) : dropSign text = digits ++ rest := by
  obtain ⟨b, tail, hdigits, hb⟩ := h.exists_digit
  rw [h.text_eq, List.append_assoc]
  refine dropSign_append h.sign_mem fun c hc => ?_
  rw [hdigits, List.cons_append, List.head?_cons, Option.mem_some] at hc
  exact hc ▸ hb

theorem takeWhile_eq (h : NumberCut text sign digits rest) :
    (dropSign text).takeWhile isDigit = digits := by
  rw [h.dropSign_eq, List.takeWhile_append_of_pos h.isDigit_of_mem]
  cases hrest : rest with
  | nil => simp
  | cons b tail => simp [h.isDigit_head b (by rw [hrest]; rfl)]

theorem dropWhile_eq (h : NumberCut text sign digits rest) :
    (dropSign text).dropWhile isDigit = rest := by
  rw [h.dropSign_eq, List.dropWhile_append_of_pos h.isDigit_of_mem]
  cases hrest : rest with
  | nil => simp
  | cons b tail => simp [h.isDigit_head b (by rw [hrest]; rfl)]

/-- A minus at the start of the text is the sign. -/
theorem head?_eq_minus (h : NumberCut text sign digits rest) :
    text.head? = some 45 ↔ sign = [45] := by
  obtain ⟨b, tail, rfl, hb⟩ := h.exists_digit
  rw [h.text_eq]
  rcases mem_signs.mp h.sign_mem with rfl | rfl | rfl
  · have hminus : b ≠ 45 := fun heq => by rw [isDigit_sign (.inr heq)] at hb; cases hb
    simpa using hminus
  · simp
  · simp

/-- There is only one way to cut a text. -/
theorem unique {sign' digits' rest' : Bytes} (h : NumberCut text sign digits rest)
    (h' : NumberCut text sign' digits' rest') : sign = sign' ∧ digits = digits' ∧ rest = rest' := by
  have hdigits : digits = digits' := h.takeWhile_eq.symm.trans h'.takeWhile_eq
  have hrest : rest = rest' := h.dropWhile_eq.symm.trans h'.dropWhile_eq
  have htext := h.text_eq.symm.trans h'.text_eq
  rw [hdigits, hrest, List.append_assoc, List.append_assoc, List.append_cancel_right_eq] at htext
  exact ⟨htext, hdigits, hrest⟩

/-- A stream skips the white space in front of a number, and nothing of the number. -/
theorem skip_blank (h : NumberCut text sign digits rest) {blank : Bytes} (hblank : Blank blank) :
    (blank ++ text).dropWhile isSpace = text := by
  rw [List.dropWhile_append_of_pos hblank]
  have hfirst : ∃ b tail, text = b :: tail ∧ isSpace b = false := by
    obtain ⟨b, tail, rfl, hb⟩ := h.exists_digit
    rw [h.text_eq]
    rcases mem_signs.mp h.sign_mem with rfl | rfl | rfl
    · exact ⟨b, tail ++ rest, rfl, isSpace_of_isDigit hb⟩
    · exact ⟨43, b :: tail ++ rest, rfl, by decide⟩
    · exact ⟨45, b :: tail ++ rest, rfl, by decide⟩
  obtain ⟨b, tail, rfl, hb⟩ := hfirst
  exact List.dropWhile_cons_of_neg (by simp [hb])

/-- The number alone. -/
theorem number (h : NumberCut text sign digits rest) : NumberCut (sign ++ digits) sign digits [] :=
  ⟨(List.append_nil _).symm, h.sign_mem, h.digits_ne, h.isDigit_of_mem, by simp⟩

end NumberCut

/-- Where digits are found, there is a cut. -/
theorem exists_numberCut {s : Bytes} (h : (dropSign s).takeWhile isDigit ≠ []) :
    ∃ sign, NumberCut s sign ((dropSign s).takeWhile isDigit) ((dropSign s).dropWhile isDigit) := by
  obtain ⟨sign, hsign, hs⟩ := exists_sign s
  refine ⟨sign, ?_, hsign, h, fun b hb => List.mem_takeWhile_imp hb, fun b hb => ?_⟩
  · rw [List.append_assoc, List.takeWhile_append_dropWhile]
    exact hs
  · have hhead := List.head?_dropWhile_not isDigit (dropSign s)
    rw [Option.mem_def.mp hb] at hhead
    exact hhead

/-- What a stream finds is a number behind white space. -/
theorem exists_blank_number {s : Bytes}
    (h : (dropSign (s.dropWhile isSpace)).takeWhile isDigit ≠ []) :
    ∃ blank text sign digits rest, s = blank ++ text ∧ Blank blank ∧
      NumberCut text sign digits rest := by
  obtain ⟨sign, hcut⟩ := exists_numberCut h
  exact ⟨s.takeWhile isSpace, _, sign, _, _, List.takeWhile_append_dropWhile.symm,
    fun b hb => List.mem_takeWhile_imp hb, hcut⟩

theorem Denotes.unique {text : Bytes} {z z' : Int} (h : Denotes text z) (h' : Denotes text z') :
    z = z' := by
  obtain ⟨sign, digits, hcut, rfl⟩ := h
  obtain ⟨sign', digits', hcut', rfl⟩ := h'
  obtain ⟨rfl, rfl, -⟩ := hcut.unique hcut'
  rfl

end Gravastar
