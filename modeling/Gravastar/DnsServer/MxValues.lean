import Gravastar.DnsServer
import Gravastar.Numerals

/-!
# The values of MX records

A value is a preference and a host, or a host alone. The streams that take it
apart do not ask for white space between the two, so a host alone that starts
with digits loses them.
-/

namespace Gravastar

/-! ## The two extractions -/

section
variable {blank number sign digits rest t w : Bytes}

theorem extractUnsignedLong_cut (hblank : Blank blank) (h : NumberCut number sign digits rest) :
    extractUnsignedLong (blank ++ number) =
      if digitsValue digits ≥ 2 ^ 64 then none
      else some (if sign = [45] then (2 ^ 64 - digitsValue digits) % 2 ^ 64
        else digitsValue digits, rest) := by
  have hne : digits.isEmpty = false := List.isEmpty_eq_false_iff.mpr h.digits_ne
  have hdrop := h.dropSign_eq
  have hdigits := h.takeWhile_eq
  rw [dropSign] at hdrop hdigits
  rw [extractUnsignedLong, h.skip_blank hblank]
  rw [hdigits, hdrop, List.drop_left, hne]
  simp only [h.head?_eq_minus, Bool.false_eq_true, false_or]

theorem extractUnsignedLong_eq_none {s : Bytes}
    (h : (dropSign (s.dropWhile isSpace)).takeWhile isDigit = []) :
    extractUnsignedLong s = none := by
  rw [dropSign] at h
  rw [extractUnsignedLong]
  rw [h]
  rfl

/-- A text without white space in it. -/
def Token (t : Bytes) : Prop := t ≠ [] ∧ ∀ b ∈ t, isSpace b = false

theorem Token.exists_cons (h : Token t) : ∃ b tail, t = b :: tail ∧ isSpace b = false := by
  obtain ⟨b, tail, rfl⟩ := List.exists_cons_of_ne_nil h.1
  exact ⟨b, tail, rfl, h.2 b List.mem_cons_self⟩

/-- The target ends where white space comes. -/
theorem Token.extractToken_eq (h : Token t) (hblank : Blank blank)
    (hrest : ∀ b ∈ rest.head?, isSpace b = true) : extractToken (blank ++ t ++ rest) = some t := by
  obtain ⟨b, tail, rfl, hb⟩ := h.exists_cons
  have hskip : (blank ++ b :: tail ++ rest).dropWhile isSpace = b :: tail ++ rest := by
    rw [List.append_assoc, List.dropWhile_append_of_pos hblank]
    exact List.dropWhile_cons_of_neg (by simp [hb])
  have hend : rest.takeWhile (! isSpace ·) = [] := by
    cases rest with
    | nil => rfl
    | cons c rest => simp [hrest c rfl]
  rw [extractToken, hskip, List.takeWhile_append_of_pos fun c hc => by simp [h.2 c hc], hend,
    List.append_nil]
  rfl

theorem extractToken_blank (hw : Blank w) : extractToken w = none := by
  rw [extractToken, hw.dropWhile_eq]
  rfl

/-- Where there is more than white space, there is a first word. -/
theorem exists_token {s : Bytes} (h : ¬ Blank s) :
    ∃ before t behind, s = before ++ t ++ behind ∧ Blank before ∧ Token t ∧
      ∀ b ∈ behind.head?, isSpace b = true := by
  have hne : s.dropWhile isSpace ≠ [] := fun hnil => h (List.dropWhile_eq_nil_iff.mp hnil)
  refine ⟨s.takeWhile isSpace, (s.dropWhile isSpace).takeWhile (! isSpace ·),
    (s.dropWhile isSpace).dropWhile (! isSpace ·), ?_, fun b hb => List.mem_takeWhile_imp hb,
    ⟨?_, fun b hb => by simpa using List.mem_takeWhile_imp hb⟩, fun b hb => ?_⟩
  · rw [List.append_assoc, List.takeWhile_append_dropWhile, List.takeWhile_append_dropWhile]
  · have hhead := List.head?_dropWhile_not isSpace s
    obtain ⟨b, tail, hcons⟩ := List.exists_cons_of_ne_nil hne
    rw [hcons] at hhead ⊢
    simp [show isSpace b = false from hhead]
  · have hhead := List.head?_dropWhile_not (! isSpace ·) (s.dropWhile isSpace)
    rw [Option.mem_def.mp hb] at hhead
    simpa using hhead

/-! ## The host of a value -/

/-- A preference from 0 to 65535, white space and the host, with any white space around them. -/
inductive PreferenceHost : Bytes → Bytes → Prop
  | intro {before digits w t behind : Bytes} (blank_before : Blank before) (digits_ne : digits ≠ [])
      (isDigit_of_mem : ∀ b ∈ digits, isDigit b = true) (range : digitsValue digits ≤ 65535)
      (blank : Blank w) (blank_ne : w ≠ []) (token : Token t) (blank_behind : Blank behind) :
      PreferenceHost (before ++ (digits ++ w ++ t) ++ behind) t

/-- The whole value without the white space around it. -/
inductive WholeValue : Bytes → Bytes → Prop
  | intro {before host behind : Bytes} (blank_before : Blank before)
      (head : ∀ b ∈ host.head?, isSpace b = false)
      (last : ∀ b ∈ host.getLast?, isSpace b = false) (blank_behind : Blank behind) :
      WholeValue (before ++ host ++ behind) host

/-- The host that the value of an MX record names: the one behind a preference, or else a host
alone. -/
def MxHost (value host : Bytes) : Prop :=
  PreferenceHost value host ∨ (∀ t, ¬ PreferenceHost value t) ∧ WholeValue value host

/-- No number below `2 ^ 64` stands in front of more of the host. -/
def KeepsDigits (host : Bytes) : Prop :=
  ∀ sign number rest, NumberCut host sign number rest → rest ≠ [] → 2 ^ 64 ≤ digitsValue number

theorem Token.wholeValue (h : Token t) (hblank : Blank blank) (hw : Blank w) :
    WholeValue (blank ++ t ++ w) t :=
  .intro hblank (fun b hb => h.2 b (List.mem_of_mem_head? hb))
    (fun b hb => h.2 b (List.mem_of_mem_getLast? hb)) hw

theorem Token.not_preferenceHost (h : Token t) (host : Bytes) : ¬ PreferenceHost t host := by
  intro hpair
  generalize hvalue : t = value at hpair
  obtain ⟨-, -, -, -, hblank, hne, -, -⟩ := hpair
  obtain ⟨b, w, rfl⟩ := List.exists_cons_of_ne_nil hne
  have hspace := hblank b List.mem_cons_self
  rw [h.2 b (by simp [hvalue])] at hspace
  cases hspace

theorem isDigit_of_isSpace {b : UInt8} (h : isSpace b = true) : isDigit b = false := by
  cases hb : isDigit b with
  | false => rfl
  | true =>
    rw [isSpace_of_isDigit hb] at h
    cases h

/-- With white space between them the preference and the host are found. -/
theorem parseMxValue_pair {before behind : Bytes} (hbefore : Blank before) (hdigits : digits ≠ [])
    (hdigit : ∀ b ∈ digits, isDigit b = true) (hrange : digitsValue digits ≤ 65535) (hw : Blank w)
    (hw' : w ≠ []) (ht : Token t) (hbehind : Blank behind) :
    parseMxValue (before ++ (digits ++ w ++ t) ++ behind) =
      (UInt16.ofNat (digitsValue digits), t) := by
  have hcut : NumberCut (digits ++ w ++ t ++ behind) [] digits (w ++ t ++ behind) := by
    refine ⟨by simp, by decide, hdigits, hdigit, fun b hb => isDigit_of_isSpace (hw b ?_)⟩
    rw [List.append_assoc, List.head?_append_of_ne_nil _ hw'] at hb
    exact List.mem_of_mem_head? hb
  have hlong := extractUnsignedLong_cut hbefore hcut
  rw [if_neg (by omega), if_neg (by simp), ← List.append_assoc] at hlong
  have htoken := ht.extractToken_eq hw fun b hb => hbehind b (List.mem_of_mem_head? hb)
  rw [parseMxValue, hlong]
  dsimp only
  rw [htoken]
  dsimp only
  rw [if_pos hrange]

theorem PreferenceHost.parseMxValue_eq {value host : Bytes} (h : PreferenceHost value host) :
    (parseMxValue value).2 = host := by
  obtain ⟨hbefore, hdigits, hdigit, hrange, hw, hw', ht, hbehind⟩ := h
  rw [parseMxValue_pair hbefore hdigits hdigit hrange hw hw' ht hbehind]

/-! ## A host alone -/

/-- White space behind a token does not change where its number ends. -/
theorem NumberCut.append_blank (h : NumberCut t sign digits rest) (hw : Blank w) :
    NumberCut (t ++ w) sign digits (rest ++ w) := by
  refine ⟨by simp [h.text_eq], h.sign_mem, h.digits_ne, h.isDigit_of_mem, fun b hb => ?_⟩
  cases rest with
  | nil => exact isDigit_of_isSpace (hw b (List.mem_of_mem_head? hb))
  | cons c rest => exact h.isDigit_head b hb

theorem takeWhile_isDigit_append_blank (hne : t ≠ []) (hw : Blank w)
    (h : (dropSign t).takeWhile isDigit = []) : (dropSign (t ++ w)).takeWhile isDigit = [] := by
  have hsign : dropSign (t ++ w) = dropSign t ++ w := by
    rw [dropSign, dropSign, List.head?_append_of_ne_nil _ hne, List.tail_append_of_ne_nil hne]
    split_ifs <;> rfl
  rw [hsign]
  cases hrest : dropSign t with
  | nil =>
    cases w with
    | nil => rfl
    | cons b w => simp [isDigit_of_isSpace (hw b List.mem_cons_self)]
  | cons b rest =>
    rw [hrest, List.takeWhile_cons] at h
    rw [List.cons_append, List.takeWhile_cons]
    split_ifs at h ⊢
    rfl

/-- Where a host alone does not start with digits, no number is found. -/
theorem extractUnsignedLong_whole (hblank : Blank blank) (hw : Blank w)
    (hfirst : ∀ b ∈ t.head?, isSpace b = false) (h : (dropSign t).takeWhile isDigit = []) :
    extractUnsignedLong (blank ++ t ++ w) = none := by
  refine extractUnsignedLong_eq_none ?_
  rw [List.append_assoc, List.dropWhile_append_of_pos hblank]
  cases t with
  | nil =>
    rw [List.nil_append, hw.dropWhile_eq]
    rfl
  | cons b t =>
    rw [List.cons_append, List.dropWhile_cons_of_neg (by simp [hfirst b rfl]), ← List.cons_append]
    exact takeWhile_isDigit_append_blank (List.cons_ne_nil b t) hw h

namespace WholeValue

variable {value host : Bytes}

theorem trim_eq (h : WholeValue value host) : trim value = host := by
  obtain ⟨hbefore, hfirst, hlast, hbehind⟩ := h
  rw [trim_append_blank _ hbehind, hbefore.trim_append]
  exact trim_eq_self hfirst hlast

/-- A host alone is taken as a whole, if its number, when it starts with one, does not fit or
is all of it. -/
theorem parseMxValue_eq (h : WholeValue value host) (hkeeps : KeepsDigits host) :
    parseMxValue value = (10, host) := by
  have htrim := h.trim_eq
  obtain ⟨hbefore, hfirst, -, hbehind⟩ := h
  by_cases hdigits : (dropSign host).takeWhile isDigit = []
  · rw [parseMxValue, extractUnsignedLong_whole hbefore hbehind hfirst hdigits, htrim]
  · obtain ⟨sign, hcut⟩ := exists_numberCut hdigits
    have hlong := extractUnsignedLong_cut hbefore (hcut.append_blank hbehind)
    rw [← List.append_assoc] at hlong
    by_cases hlarge : digitsValue ((dropSign host).takeWhile isDigit) ≥ 2 ^ 64
    · rw [if_pos hlarge] at hlong
      rw [parseMxValue, hlong, htrim]
    · have hrest : (dropSign host).dropWhile isDigit = [] := by
        by_contra hrest
        exact hlarge (hkeeps _ _ _ hcut hrest)
      rw [if_neg hlarge, hrest, List.nil_append] at hlong
      rw [parseMxValue, hlong]
      dsimp only
      rw [extractToken_blank hbehind, htrim]

/-- A number in front of the host is cut off, and the next word is taken. -/
theorem exists_of_cut (h : WholeValue value host) (hcut : NumberCut host sign digits rest)
    (hrest : rest ≠ []) (hlt : digitsValue digits < 2 ^ 64) :
    ∃ before t behind, rest = before ++ t ++ behind ∧ Blank before ∧ Token t ∧
      (parseMxValue value).2 = t := by
  obtain ⟨hbefore, -, hlast, hbehind⟩ := h
  -- the host ends with another byte than white space, and so does the rest of it
  have hword : ¬ Blank rest := fun hblank => by
    have hmem := List.getLast?_eq_some_getLast hrest
    have hend := hlast (rest.getLast hrest) (by
      rw [hcut.text_eq, List.getLast?_append_of_ne_nil _ hrest, hmem]
      rfl)
    rw [hblank _ (List.getLast_mem hrest)] at hend
    cases hend
  obtain ⟨before, t, behind, rfl, hblank, ht, hspace⟩ := exists_token hword
  have hlong := extractUnsignedLong_cut hbefore (hcut.append_blank hbehind)
  rw [if_neg (by omega), ← List.append_assoc, List.append_assoc _ behind] at hlong
  refine ⟨before, t, behind, rfl, hblank, ht, ?_⟩
  rw [parseMxValue, hlong]
  dsimp only
  rw [ht.extractToken_eq hblank fun b hb => ?_]
  cases behind with
  | nil => exact hbehind b (List.mem_of_mem_head? hb)
  | cons c behind => exact hspace b hb

/-- What is left of a host that loses its digits has a shorter first label. -/
theorem loses_digits (h : WholeValue value host) (hlost : ¬ KeepsDigits host) :
    (parseMxValue value).2 ≠ [] ∧
      ((parseMxValue value).2.takeWhile (· ≠ dot)).length <
        (host.takeWhile (· ≠ dot)).length := by
  simp only [KeepsDigits, not_forall, not_le] at hlost
  obtain ⟨sign, number, rest, hcut, hrest, hlt⟩ := hlost
  obtain ⟨before, t, behind, hsplit, hblank, ht, heq⟩ := h.exists_of_cut hcut hrest hlt
  have hfront : dot ∉ sign ++ number ++ before := by
    intro hdot
    simp only [List.mem_append] at hdot
    rcases hdot with (hdot | hdot) | hdot
    · rcases mem_signs.mp hcut.sign_mem with rfl | rfl | rfl <;> simp [dot] at hdot
    · exact absurd (hcut.isDigit_of_mem dot hdot) (by decide)
    · exact absurd (hblank dot hdot) (by decide)
  have hhost : host = sign ++ number ++ before ++ (t ++ behind) := by
    rw [hcut.text_eq, hsplit]
    simp only [List.append_assoc]
  have hle : (t.takeWhile (· ≠ dot)).length ≤ ((t ++ behind).takeWhile (· ≠ dot)).length := by
    rw [List.takeWhile_append]
    split_ifs with hall
    · rw [List.length_append]
      omega
    · exact le_rfl
  have hpos := List.length_pos_of_ne_nil hcut.digits_ne
  rw [heq, hhost, Marker.takeWhile_append hfront]
  refine ⟨ht.1, ?_⟩
  simp only [List.length_append]
  omega

end WholeValue

theorem MxHost.parseMxValue_eq {value host : Bytes} (h : MxHost value host)
    (hkeeps : PreferenceHost value host ∨ KeepsDigits host) : (parseMxValue value).2 = host := by
  rcases hkeeps with hpair | hkeeps
  · exact hpair.parseMxValue_eq
  · rcases h with hpair | ⟨-, hwhole⟩
    · exact hpair.parseMxValue_eq
    · rw [hwhole.parseMxValue_eq hkeeps]

/-- Every value names one host. -/
theorem existsUnique_mxHost (value : Bytes) : ∃! host, MxHost value host := by
  by_cases hpair : ∃ t, PreferenceHost value t
  · obtain ⟨t, ht⟩ := hpair
    refine ⟨t, .inl ht, ?_⟩
    rintro host (hhost | ⟨hnone, -⟩)
    · exact hhost.parseMxValue_eq.symm.trans ht.parseMxValue_eq
    · exact absurd ht (hnone t)
  · obtain ⟨before, behind, hvalue, hbefore, hbehind, hfirst, hlast⟩ := exists_trim value
    have hwhole := WholeValue.intro hbefore hfirst hlast hbehind
    rw [← hvalue] at hwhole
    refine ⟨trim value, .inr ⟨not_exists.mp hpair, hwhole⟩, ?_⟩
    rintro host (hhost | ⟨-, hhost⟩)
    · exact absurd ⟨host, hhost⟩ hpair
    · exact hhost.trim_eq.symm

end

/-- A preference and a host are decoded; a host alone is decoded exactly if it does not have
a number in front of it that fits into 64 bits. -/
theorem mx_value_iff {digits w t : Bytes} (hdigits : digits ≠ [])
    (hdigit : ∀ b ∈ digits, isDigit b = true) (hrange : digitsValue digits ≤ 65535)
    (hw : Blank w) (hw' : w ≠ []) (ht : Token t) :
    parseMxValue (digits ++ w ++ t) = (UInt16.ofNat (digitsValue digits), t) ∧
      ((∀ before behind, Blank before → Blank behind →
          parseMxValue (before ++ t ++ behind) = (10, t)) ↔
        ∀ sign number rest, NumberCut t sign number rest → rest ≠ [] →
          2 ^ 64 ≤ digitsValue number) := by
  refine ⟨?_, fun h sign number rest hcut hrest => ?_,
    fun h before behind hbefore hbehind => (ht.wholeValue hbefore hbehind).parseMxValue_eq h⟩
  · have hpair := parseMxValue_pair blank_nil hdigits hdigit hrange hw hw' ht blank_nil
    rwa [List.nil_append, List.append_nil] at hpair
  · by_contra hlt
    obtain ⟨before, host, behind, hsplit, -, -, hhost⟩ :=
      (ht.wholeValue blank_nil blank_nil).exists_of_cut hcut hrest (by omega)
    rw [h [] [] blank_nil blank_nil] at hhost
    -- The host would be in what stands behind its own number.
    have hlength := congrArg List.length hcut.text_eq
    have hpos := List.length_pos_of_ne_nil hcut.digits_ne
    simp only [hsplit, ← hhost, List.length_append] at hlength
    omega

theorem mx_value_mail :
    parseMxValue (ascii "20" ++ ascii " " ++ ascii "mail.example.com") =
      (20, ascii "mail.example.com") :=
  (mx_value_iff (by decide) (by decide +kernel) (by decide) (by decide) (by decide)
    ⟨by decide, by decide +kernel⟩).1

/-- The host loses the digits it starts with. -/
theorem mx_host_loses_digits :
    parseMxValue (ascii "10mail.example.com") = (10, ascii "mail.example.com") ∧
      parseMxValue (ascii "10mail.example.com") ≠ (10, ascii "10mail.example.com") := by
  decide +kernel

end Gravastar
