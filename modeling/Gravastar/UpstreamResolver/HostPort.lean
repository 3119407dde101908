import Gravastar.Lib.Marker
import Gravastar.Numerals

/-!
# Addresses of upstream servers

`ParseHostPort` and `ParseDotServer` against the forms in which an address can
be written. A port goes through a stream, which does not look at what stands
behind the digits.
-/

namespace Gravastar

/-! ## The parsers -/

/-- `iss >> p` into an `int`: white space, a sign, digits; `none` where the stream fails. -/
def extractInt (s : Bytes) : Option Int :=
  let s := s.dropWhile isSpace
  let digits := (dropSign s).takeWhile isDigit
  let n : Int := if s.head? = some 45 then -(digitsValue digits : Int) else digitsValue digits
  if digits.isEmpty ∨ n < -2 ^ 31 ∨ n ≥ 2 ^ 31 then none else some n

/-- The port of an address, which both branches read in the same way. -/
def extractPort (portStr : Bytes) : Option Int :=
  if portStr.isEmpty then none
  else
    match extractInt portStr with
    | none => none
    | some p => if p ≤ 0 ∨ p > 65535 then none else some p

/-- `input.find(':')` is `input.find_last_of(':')`. -/
def hasOneColon (input : Bytes) : Bool :=
  input.contains 58 && !((input.dropWhile (· ≠ 58)).tail).contains 58

/-- The host and the port, `none` where `ParseHostPort` returns false. -/
def parseHostPort (input : Bytes) (defaultPort : Int) : Option (Bytes × Int) :=
  if input.isEmpty then none
  else if input.head? = some 91 then
    let host := input.tail.takeWhile (· ≠ 93)
    if !input.contains 93 ∨ host.isEmpty then none
    else
      match (input.tail.dropWhile (· ≠ 93)).tail with
      | [] => some (host, defaultPort)
      | c :: portStr => if c ≠ 58 then none else (extractPort portStr).map (host, ·)
  else if hasOneColon input then
    let host := input.takeWhile (· ≠ 58)
    if host.isEmpty then none
    else (extractPort (input.dropWhile (· ≠ 58)).tail).map (host, ·)
  else some (input, defaultPort)

/-- The name for the certificate, the host to connect to and the port. -/
def parseDotServer (input : Bytes) : Option (Bytes × Bytes × Int) :=
  if input.isEmpty then none
  else if !input.contains 64 then
    (parseHostPort input 853).map fun (host, port) => (host, host, port)
  else
    let left := input.takeWhile (· ≠ 64)
    let right := (input.dropWhile (· ≠ 64)).tail
    if left.isEmpty ∨ right.isEmpty then none
    else (parseHostPort right 853).map fun (addr, p) => (left, addr, p)

/-! ## How an address is written -/

/-- Decimal digits for a port. -/
def PortText (text : Bytes) (port : Int) : Prop :=
  text ≠ [] ∧ (∀ b ∈ text, isDigit b = true) ∧ port = digitsValue text ∧ 1 ≤ port ∧ port ≤ 65535

/-- A host, in brackets or not, and the text behind the colon where a port is written. -/
inductive WithPort : Bytes → Bytes → Bytes → Prop
  | bracket {host text : Bytes} : host ≠ [] → 93 ∉ host →
      WithPort (91 :: host ++ 93 :: 58 :: text) host text
  | plain {host text : Bytes} : host ≠ [] → host.head? ≠ some 91 → 58 ∉ host → 58 ∉ text →
      WithPort (host ++ 58 :: text) host text

/-- A host and its port, or a host alone. -/
inductive HostPort (defaultPort : Int) : Bytes → Bytes → Int → Prop
  | bracket {host : Bytes} : host ≠ [] → 93 ∉ host →
      HostPort defaultPort (91 :: host ++ [93]) host defaultPort
  | withPort {input host text : Bytes} {port : Int} : WithPort input host text →
      PortText text port → HostPort defaultPort input host port
  | whole {input : Bytes} : input ≠ [] → input.head? ≠ some 91 → input.count 58 ≠ 1 →
      HostPort defaultPort input input defaultPort

/-- A name in front of an address, or an address alone. -/
inductive DotServer : Bytes → Bytes → Bytes → Int → Prop
  | named {name address host : Bytes} {port : Int} : name ≠ [] → 64 ∉ name →
      HostPort 853 address host port → DotServer (name ++ 64 :: address) name host port
  | plain {address host : Bytes} {port : Int} : 64 ∉ address →
      HostPort 853 address host port → DotServer address host host port

/-- The address in the text of a DoT server. -/
inductive DotAddress : Bytes → Bytes → Prop
  | named {name address : Bytes} : name ≠ [] → 64 ∉ name →
      DotAddress (name ++ 64 :: address) address
  | plain {address : Bytes} : 64 ∉ address → DotAddress address address

/-- A port with white space or a plus in front of it, or something else behind. -/
def SloppyPort (text : Bytes) : Prop :=
  ∃ blank number sign digits rest, text = blank ++ number ∧ Blank blank ∧
    NumberCut number sign digits rest ∧ sign ≠ [45] ∧
    1 ≤ digitsValue digits ∧ digitsValue digits ≤ 65535 ∧ (blank ≠ [] ∨ sign ≠ [] ∨ rest ≠ [])

/-! ## Ports -/

section
variable {blank number sign digits rest text : Bytes} {p : Int}

theorem extractInt_cut (hblank : Blank blank) (h : NumberCut number sign digits rest) :
    extractInt (blank ++ number) =
      if numberValue sign digits < -2 ^ 31 ∨ numberValue sign digits ≥ 2 ^ 31 then none
      else some (numberValue sign digits) := by
  have hne : digits.isEmpty = false := List.isEmpty_eq_false_iff.mpr h.digits_ne
  rw [extractInt, h.skip_blank hblank]
  simp only [h.takeWhile_eq, h.head?_eq_minus, hne, Bool.false_eq_true, false_or, numberValue]
  congr

theorem extractPort_cut (hblank : Blank blank) (h : NumberCut number sign digits rest) :
    extractPort (blank ++ number) =
      if sign ≠ [45] ∧ 1 ≤ digitsValue digits ∧ digitsValue digits ≤ 65535 then
        some (digitsValue digits : Int)
      else none := by
  have hne : (blank ++ number).isEmpty = false := by
    obtain ⟨b, tail, rfl, -⟩ := h.exists_digit
    simp [h.text_eq]
  rw [extractPort, hne, extractInt_cut hblank h, numberValue]
  grind

/-- A port that is taken is a number in range, perhaps with something around it. -/
theorem exists_cut_of_extractPort (h : extractPort text = some p) :
    ∃ blank number sign digits rest, text = blank ++ number ∧ Blank blank ∧
      NumberCut number sign digits rest ∧ sign ≠ [45] ∧
      1 ≤ digitsValue digits ∧ digitsValue digits ≤ 65535 ∧ p = digitsValue digits := by
  have hdigits : (dropSign (text.dropWhile isSpace)).takeWhile isDigit ≠ [] := by
    intro hnil
    have hnone : extractInt text = none := by simp [extractInt, hnil]
    rw [extractPort, hnone] at h
    split_ifs at h
  obtain ⟨blank, number, sign, digits, rest, rfl, hblank, hcut⟩ := exists_blank_number hdigits
  rw [extractPort_cut hblank hcut] at h
  split_ifs at h with hrange
  exact ⟨blank, number, sign, digits, rest, rfl, hblank, hcut, hrange.1, hrange.2.1, hrange.2.2,
    (Option.some.inj h).symm⟩

theorem PortText.extractPort (h : PortText text p) : extractPort text = some p := by
  obtain ⟨hne, hdigits, rfl, hlow, hhigh⟩ := h
  have hcut : NumberCut text [] text [] := ⟨by simp, by decide, hne, hdigits, by simp⟩
  have hport := extractPort_cut blank_nil hcut
  rw [List.nil_append, if_pos ⟨by simp, by omega, by omega⟩] at hport
  exact hport

theorem portText_or_sloppy (h : extractPort text = some p) : PortText text p ∨ SloppyPort text := by
  obtain ⟨blank, number, sign, digits, rest, htext, hblank, hcut, hminus, hlow, hhigh, rfl⟩ :=
    exists_cut_of_extractPort h
  by_cases hclean : blank = [] ∧ sign = [] ∧ rest = []
  · obtain ⟨rfl, rfl, rfl⟩ := hclean
    have hnumber := hcut.text_eq
    simp only [List.nil_append, List.append_nil] at hnumber htext
    rw [htext, hnumber]
    exact .inl ⟨hcut.digits_ne, hcut.isDigit_of_mem, rfl, by omega, by omega⟩
  · refine .inr ⟨blank, number, sign, digits, rest, htext, hblank, hcut, hminus, hlow, hhigh, ?_⟩
    by_contra hnone
    simp only [not_or, not_not] at hnone
    exact hclean hnone

/-- A sloppy port is taken. -/
theorem SloppyPort.exists_extractPort (h : SloppyPort text) :
    ∃ p, Gravastar.extractPort text = some p ∧ ¬ PortText text p := by
  obtain ⟨blank, number, sign, digits, rest, rfl, hblank, hcut, hminus, hlow, hhigh, hmore⟩ := h
  refine ⟨digitsValue digits, ?_, fun hport => ?_⟩
  · rw [extractPort_cut hblank hcut, if_pos ⟨hminus, hlow, hhigh⟩]
  · -- The text would be a number without anything around it.
    have hdigit := hport.2.1
    rw [hcut.text_eq] at hdigit
    have hblank' : blank = [] := by
      refine List.eq_nil_iff_forall_not_mem.mpr fun b hb => ?_
      have hspace := isSpace_of_isDigit (hdigit b (List.mem_append_left _ hb))
      rw [hblank b hb] at hspace
      cases hspace
    have hsign : sign = [] := by
      rcases mem_signs.mp hcut.sign_mem with rfl | rfl | rfl
      · rfl
      · exact absurd (hdigit 43 (by simp)) (by decide)
      · exact absurd rfl hminus
    have hrest : rest = [] := by
      cases rest with
      | nil => rfl
      | cons b rest =>
        have hb := hcut.isDigit_head b rfl
        rw [hdigit b (by simp)] at hb
        cases hb
    exact hmore.elim (· hblank') fun h => h.elim (· hsign) (· hrest)

end

/-! ## Hosts -/

theorem hasOneColon_append {host : Bytes} (hhost : 58 ∉ host) (text : Bytes) :
    hasOneColon (host ++ 58 :: text) = true ↔ 58 ∉ text := by
  rw [hasOneColon, Marker.dropWhile_cut hhost]
  simp

theorem hasOneColon_iff (input : Bytes) : hasOneColon input = true ↔ input.count 58 = 1 := by
  by_cases hmem : 58 ∈ input
  · obtain ⟨host, text, rfl, hhost⟩ := List.eq_append_cons_of_mem hmem
    rw [hasOneColon_append hhost, ← List.count_eq_zero, List.count_append, List.count_cons_self,
      List.count_eq_zero.mpr hhost]
    omega
  · rw [List.count_eq_zero.mpr hmem, hasOneColon]
    simp [hmem]

section
variable {input host text : Bytes} {p : Int} (defaultPort : Int)

theorem parseHostPort_bracket (h : 93 ∉ host) (rest : Bytes) :
    parseHostPort (91 :: host ++ 93 :: rest) defaultPort =
      if host.isEmpty then none
      else
        match rest with
        | [] => some (host, defaultPort)
        | c :: portStr => if c ≠ 58 then none else (extractPort portStr).map (host, ·) := by
  have hmem : (91 :: (host ++ 93 :: rest)).contains 93 = true := by simp
  rw [List.cons_append, parseHostPort]
  dsimp only
  rw [hmem, List.isEmpty_cons, List.head?_cons, List.tail_cons, Marker.takeWhile_cut h,
    Marker.dropWhile_cut h]
  simp only [Bool.false_eq_true, if_false, if_true, Bool.not_true, false_or]
  congr

theorem WithPort.parseHostPort_eq (h : WithPort input host text) :
    parseHostPort input defaultPort = (extractPort text).map (host, ·) := by
  cases h with
  | bracket hne h =>
    rw [parseHostPort_bracket defaultPort h, List.isEmpty_eq_false_iff.mpr hne]
    rfl
  | plain hne hhead hhost htext =>
    have hempty : (host ++ 58 :: text).isEmpty = false := by simp
    have hhead' : (host ++ 58 :: text).head? ≠ some 91 := by
      rwa [List.head?_append_of_ne_nil _ hne]
    rw [parseHostPort, hempty, if_neg Bool.false_ne_true, if_neg hhead',
      if_pos ((hasOneColon_append hhost text).mpr htext)]
    dsimp only
    rw [Marker.takeWhile_cut hhost, Marker.dropWhile_cut hhost,
      List.isEmpty_eq_false_iff.mpr hne]
    rfl

theorem parseHostPort_whole (hne : input ≠ []) (hhead : input.head? ≠ some 91)
    (hcount : input.count 58 ≠ 1) :
    parseHostPort input defaultPort = some (input, defaultPort) := by
  have hcolon : ¬ hasOneColon input = true := fun h => hcount ((hasOneColon_iff input).mp h)
  rw [parseHostPort, List.isEmpty_eq_false_iff.mpr hne, if_neg Bool.false_ne_true, if_neg hhead,
    if_neg hcolon]

variable {defaultPort}

/-- In brackets a host is taken alone, or with a port that is taken. -/
theorem exists_form_bracket {tail : Bytes}
    (h : parseHostPort (91 :: tail) defaultPort = some (host, p)) :
    HostPort defaultPort (91 :: tail) host p ∨
      ∃ text, WithPort (91 :: tail) host text ∧ extractPort text = some p := by
  by_cases hmem : 93 ∈ tail
  · obtain ⟨host', rest, rfl, hhost⟩ := List.eq_append_cons_of_mem hmem
    rw [← List.cons_append, parseHostPort_bracket defaultPort hhost] at h
    split_ifs at h with hhost'
    rw [List.isEmpty_iff] at hhost'
    cases rest with
    | nil =>
      obtain ⟨rfl, rfl⟩ := Prod.mk.inj (Option.some.inj h)
      exact .inl (.bracket hhost' hhost)
    | cons c text =>
      dsimp only at h
      split_ifs at h with hc
      obtain rfl : c = 58 := not_not.mp hc
      obtain ⟨p', hp', hpair⟩ := Option.map_eq_some_iff.mp h
      obtain ⟨rfl, rfl⟩ := Prod.mk.inj hpair
      exact .inr ⟨text, .bracket hhost' hhost, hp'⟩
  · have hcontains : (91 :: tail).contains 93 = false := by simpa using hmem
    rw [parseHostPort, hcontains] at h
    simp at h

/-- Without brackets a single colon has a port behind it that is taken. -/
theorem exists_form_colon (hhead : input.head? ≠ some 91) (hcount : input.count 58 = 1)
    (h : parseHostPort input defaultPort = some (host, p)) :
    ∃ text, WithPort input host text ∧ extractPort text = some p := by
  have hmem : 58 ∈ input := List.count_pos_iff.mp (by omega)
  have hcolon := (hasOneColon_iff input).mpr hcount
  obtain ⟨host', text, rfl, hhost⟩ := List.eq_append_cons_of_mem hmem
  have htext := (hasOneColon_append hhost text).mp hcolon
  by_cases hhost' : host' = []
  · rw [hhost'] at h
    simp [parseHostPort, hasOneColon, htext] at h
  · rw [List.head?_append_of_ne_nil _ hhost'] at hhead
    have hport : WithPort (host' ++ 58 :: text) host' text := .plain hhost' hhead hhost htext
    rw [hport.parseHostPort_eq] at h
    obtain ⟨p', hp', hpair⟩ := Option.map_eq_some_iff.mp h
    obtain ⟨rfl, rfl⟩ := Prod.mk.inj hpair
    exact ⟨text, hport, hp'⟩

/-- An input that is taken is a host alone, or has a port that is taken. -/
theorem exists_form (h : parseHostPort input defaultPort = some (host, p)) :
    HostPort defaultPort input host p ∨
      ∃ text, WithPort input host text ∧ extractPort text = some p := by
  by_cases hempty : input = []
  · rw [hempty] at h
    cases h
  by_cases hhead : input.head? = some 91
  · obtain ⟨tail, rfl⟩ := List.head?_eq_some_iff.mp hhead
    exact exists_form_bracket h
  by_cases hcount : input.count 58 = 1
  · exact .inr (exists_form_colon hhead hcount h)
  · rw [parseHostPort_whole defaultPort hempty hhead hcount] at h
    obtain ⟨rfl, rfl⟩ := Prod.mk.inj (Option.some.inj h)
    exact .inl (.whole hempty hhead hcount)

theorem WithPort.of_bracket {rest : Bytes} (h : WithPort (91 :: rest) host text) :
    93 ∉ host ∧ rest = host ++ 93 :: 58 :: text := by
  generalize hinput : 91 :: rest = input at h
  cases h with
  | bracket hne hhost => exact ⟨hhost, List.cons.inj hinput |>.2⟩
  | plain hne hhead hhost htext =>
    rw [← List.head?_append_of_ne_nil _ hne, ← hinput] at hhead
    exact absurd rfl hhead

theorem WithPort.of_plain (h : WithPort input host text) (hhead : input.head? ≠ some 91) :
    58 ∉ host ∧ 58 ∉ text ∧ input = host ++ 58 :: text := by
  cases h with
  | bracket hne hhost => exact absurd rfl hhead
  | plain hne _ hhost htext => exact ⟨hhost, htext, rfl⟩

/-- There is one place for a port. -/
theorem WithPort.unique (h : WithPort input host text) {host' text' : Bytes}
    (h' : WithPort input host' text') : host' = host ∧ text' = text := by
  by_cases hhead : input.head? = some 91
  · obtain ⟨rest, rfl⟩ := List.head?_eq_some_iff.mp hhead
    obtain ⟨hhost, hrest⟩ := h.of_bracket
    obtain ⟨hhost', hrest'⟩ := h'.of_bracket
    obtain ⟨rfl, htext⟩ := Marker.cut_first hhost' hhost (.inl rfl) (.inl rfl)
      (hrest'.symm.trans hrest)
    simpa using htext
  · obtain ⟨hhost, -, hrest⟩ := h.of_plain hhead
    obtain ⟨hhost', -, hrest'⟩ := h'.of_plain hhead
    obtain ⟨rfl, htext⟩ := Marker.cut_first hhost' hhost (.inl rfl) (.inl rfl)
      (hrest'.symm.trans hrest)
    simpa using htext

/-- Where a port is written, the input has no other form. -/
theorem WithPort.of_hostPort (hport : WithPort input host text) {host' : Bytes}
    (h : HostPort defaultPort input host' p) : host' = host ∧ PortText text p := by
  cases h with
  | bracket hne hhost' =>
    obtain ⟨hhost, hrest⟩ := hport.of_bracket
    obtain ⟨-, htext⟩ := Marker.cut_first hhost' hhost (.inl rfl) (.inl rfl) hrest
    cases htext
  | withPort hport' htext =>
    obtain ⟨rfl, rfl⟩ := hport.unique hport'
    exact ⟨rfl, htext⟩
  | whole hne hhead hcount =>
    obtain ⟨hhost, htext, hinput⟩ := hport.of_plain hhead
    rw [hinput] at hcount
    exact absurd ((hasOneColon_iff _).mp ((hasOneColon_append hhost text).mpr htext)) hcount

/-- The forms are parsed. -/
theorem HostPort.parseHostPort_eq (h : HostPort defaultPort input host p) :
    parseHostPort input defaultPort = some (host, p) := by
  cases h with
  | bracket hne hhost =>
    rw [parseHostPort_bracket _ hhost, List.isEmpty_eq_false_iff.mpr hne]
    rfl
  | withPort hport htext =>
    rw [hport.parseHostPort_eq, htext.extractPort]
    rfl
  | whole hne hhead hcount => exact parseHostPort_whole _ hne hhead hcount

/-- The parser is right about an input whose port, if it has one, is not sloppy. -/
theorem parseHostPort_iff :
    (∀ host p, parseHostPort input defaultPort = some (host, p) ↔
        HostPort defaultPort input host p) ↔
      ∀ host text, WithPort input host text → ¬ SloppyPort text := by
  constructor
  · intro h host text hport hsloppy
    obtain ⟨p, hp, hne⟩ := hsloppy.exists_extractPort
    have hparse := hport.parseHostPort_eq defaultPort
    rw [hp] at hparse
    exact hne (hport.of_hostPort ((h host p).mp hparse)).2
  · intro h host p
    refine ⟨fun hparse => ?_, HostPort.parseHostPort_eq⟩
    rcases exists_form hparse with hform | ⟨text, hport, hp⟩
    · exact hform
    · exact .withPort hport ((portText_or_sloppy hp).resolve_right (h host text hport))

end

/-! ## Names in front -/

section
variable {name address input name' host : Bytes} {p : Int}

theorem parseDotServer_named (hne : name ≠ []) (hname : 64 ∉ name) :
    parseDotServer (name ++ 64 :: address) = some (name', host, p) ↔
      name' = name ∧ parseHostPort address 853 = some (host, p) := by
  have hempty : (name ++ 64 :: address).isEmpty = false := by simp
  have hmem : (name ++ 64 :: address).contains 64 = true := by simp
  rw [parseDotServer, hempty, hmem]
  dsimp only
  rw [Marker.takeWhile_cut hname, Marker.dropWhile_cut hname, List.tail_cons,
    List.isEmpty_eq_false_iff.mpr hne]
  cases address with
  | nil => simp [parseHostPort]
  | cons b address =>
    cases parseHostPort (b :: address) 853 with
    | none => simp
    | some r => simp [Prod.ext_iff, eq_comm]

theorem parseDotServer_plain (hinput : 64 ∉ input) :
    parseDotServer input = some (name', host, p) ↔
      name' = host ∧ parseHostPort input 853 = some (host, p) := by
  have hmem : input.contains 64 = false := by simpa using hinput
  rw [parseDotServer, hmem]
  cases input with
  | nil => simp [parseHostPort]
  | cons b input =>
    cases parseHostPort (b :: input) 853 with
    | none => simp
    | some r =>
      simp only [List.isEmpty_cons, Bool.false_eq_true, if_false, Bool.not_false, if_true,
        Option.map_some, Option.some.injEq, Prod.ext_iff]
      grind

theorem DotServer.named_iff (hne : name ≠ []) (hname : 64 ∉ name) :
    DotServer (name ++ 64 :: address) name' host p ↔
      name' = name ∧ HostPort 853 address host p := by
  constructor
  · intro h
    generalize hinput : name ++ 64 :: address = input at h
    cases h with
    | named _ hname' haddress =>
      obtain ⟨rfl, hrest⟩ := Marker.cut_first hname hname' (.inl rfl) (.inl rfl) hinput
      obtain rfl : address = _ := (List.cons.inj hrest).2
      exact ⟨rfl, haddress⟩
    | plain hplain _ =>
      rw [← hinput] at hplain
      simp at hplain
  · rintro ⟨rfl, h⟩
    exact .named hne hname h

theorem DotServer.plain_iff (hinput : 64 ∉ input) :
    DotServer input name' host p ↔ name' = host ∧ HostPort 853 input host p := by
  constructor
  · intro h
    cases h with
    | named _ _ _ => simp at hinput
    | plain _ h => exact ⟨rfl, h⟩
  · rintro ⟨rfl, h⟩
    exact .plain hinput h

theorem DotAddress.named_iff (hne : name ≠ []) (hname : 64 ∉ name) {address' : Bytes} :
    DotAddress (name ++ 64 :: address) address' ↔ address' = address := by
  constructor
  · intro h
    generalize hinput : name ++ 64 :: address = input at h
    cases h with
    | named _ hname' =>
      obtain ⟨rfl, hrest⟩ := Marker.cut_first hname hname' (.inl rfl) (.inl rfl) hinput
      exact (List.cons.inj hrest).2.symm
    | plain hplain =>
      rw [← hinput] at hplain
      simp at hplain
  · rintro rfl
    exact .named hne hname

theorem DotAddress.plain_iff (hinput : 64 ∉ input) {address' : Bytes} :
    DotAddress input address' ↔ address' = input := by
  constructor
  · intro h
    cases h with
    | named _ _ => simp at hinput
    | plain _ => rfl
  · rintro rfl
    exact .plain hinput

/-- An `@` in front of everything is refused. -/
theorem parseDotServer_at (rest : Bytes) : parseDotServer (64 :: rest) = none := by
  simp [parseDotServer]

theorem not_dotServer_at {rest : Bytes} : ¬ DotServer (64 :: rest) name' host p := by
  intro h
  generalize hinput : 64 :: rest = input at h
  cases h with
  | named hne hname _ =>
    obtain ⟨rfl, -⟩ := Marker.cut_first (a := []) (by simp) hname (.inl rfl) (.inl rfl) hinput
    exact hne rfl
  | plain hplain _ => exact hplain (hinput ▸ List.mem_cons_self)

theorem not_dotAddress_at {rest : Bytes} : ¬ DotAddress (64 :: rest) address := by
  intro h
  generalize hinput : 64 :: rest = input at h
  cases h with
  | named hne hname =>
    obtain ⟨rfl, -⟩ := Marker.cut_first (a := []) (by simp) hname (.inl rfl) (.inl rfl) hinput
    exact hne rfl
  | plain hplain => exact hplain (hinput ▸ List.mem_cons_self)

/-- Behind a name the parser is right about what `ParseHostPort` is right about. -/
theorem parseDotServer_iff :
    (∀ name host p, parseDotServer input = some (name, host, p) ↔ DotServer input name host p) ↔
      ∀ address host text, DotAddress input address → WithPort address host text →
        ¬ SloppyPort text := by
  by_cases hmem : 64 ∈ input
  · obtain ⟨name, address, rfl, hname⟩ := List.eq_append_cons_of_mem hmem
    by_cases hne : name = []
    · subst hne
      refine iff_of_true (fun name host p => ?_) fun _ _ _ h => absurd h not_dotAddress_at
      rw [List.nil_append, parseDotServer_at]
      exact iff_of_false (by simp) not_dotServer_at
    · simp only [parseDotServer_named hne hname, DotServer.named_iff hne hname,
        DotAddress.named_iff hne hname]
      refine Iff.trans ?_ ((@parseHostPort_iff address 853).trans ?_)
      · exact ⟨fun h host p => by simpa using h name host p, fun h name' host p => by rw [h]⟩
      · exact ⟨fun h _ host text heq => heq ▸ h host text, fun h host text => h _ host text rfl⟩
  · simp only [parseDotServer_plain hmem, DotServer.plain_iff hmem, DotAddress.plain_iff hmem]
    refine Iff.trans ?_ ((@parseHostPort_iff input 853).trans ?_)
    · exact ⟨fun h host p => by simpa using h host host p, fun h name' host p => by rw [h]⟩
    · exact ⟨fun h _ host text heq => heq ▸ h host text, fun h host text => h _ host text rfl⟩

end

/-! ## Both parsers -/

/-- The parsers take exactly the written forms, and give back what was written, as long as nothing
stands around the digits of the port. -/
theorem address_grammar_iff (input : Bytes) (defaultPort : Int) :
    ((∀ host port, parseHostPort input defaultPort = some (host, port) ↔
        HostPort defaultPort input host port) ↔
      ∀ host text, WithPort input host text → ¬ SloppyPort text) ∧
    ((∀ name host port, parseDotServer input = some (name, host, port) ↔
        DotServer input name host port) ↔
      ∀ address host text, DotAddress input address → WithPort address host text →
        ¬ SloppyPort text) :=
  ⟨parseHostPort_iff, parseDotServer_iff⟩

/-- Letters behind the port are dropped, though no form has them. -/
theorem trailing_letters_accepted :
    parseHostPort (ascii "1.2.3.4:53abc") 853 = some (ascii "1.2.3.4", 53) ∧
      ¬ HostPort 853 (ascii "1.2.3.4:53abc") (ascii "1.2.3.4") 53 ∧
      parseDotServer (ascii "dns.example@1.2.3.4:853x") =
        some (ascii "dns.example", ascii "1.2.3.4", 853) ∧
      ¬ DotServer (ascii "dns.example@1.2.3.4:853x") (ascii "dns.example") (ascii "1.2.3.4")
        853 := by
  have hport : WithPort (ascii "1.2.3.4:53abc") (ascii "1.2.3.4") (ascii "53abc") :=
    @WithPort.plain (ascii "1.2.3.4") (ascii "53abc") (by decide) (by decide) (by decide)
      (by decide)
  have hdot : WithPort (ascii "1.2.3.4:853x") (ascii "1.2.3.4") (ascii "853x") :=
    @WithPort.plain (ascii "1.2.3.4") (ascii "853x") (by decide) (by decide) (by decide) (by decide)
  refine ⟨by decide +kernel, fun h => ?_, by decide +kernel, fun h => ?_⟩
  · exact absurd ((hport.of_hostPort h).2.2.1 97 (by decide)) (by decide)
  · have hname := (DotServer.named_iff (by decide) (by decide : 64 ∉ ascii "dns.example")).mp h
    exact absurd ((hdot.of_hostPort hname.2).2.2.1 120 (by decide)) (by decide)

end Gravastar
