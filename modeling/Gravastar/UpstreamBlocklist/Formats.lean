import Gravastar.Lib.Marker
import Gravastar.UpstreamBlocklist.Sources

/-!
# The three formats of a list

A line is looked at when its white space is gone. What the tests on it can
tell apart is stated here for the domains that the formats have in common: at
least two labels of letters, digits and hyphens, and not an address.
-/

namespace Gravastar

/-! ## Labels and domains -/

def isLetter (b : UInt8) : Bool := (65 ≤ b ∧ b ≤ 90) ∨ (97 ≤ b ∧ b ≤ 122)

/-- Letters, digits and hyphens, with no hyphen at either end. -/
structure HostLabel (l : Bytes) : Prop where
  nonempty : l ≠ []
  first : l.head? ≠ some 45
  last : l.getLast? ≠ some 45
  bytes : ∀ b ∈ l, isLetter b = true ∨ isDigit b = true ∨ b = 45

/-- At least two labels, in lower case. -/
def CanonicalDomain (d : Bytes) : Prop :=
  ∃ labels : List Bytes, d = dotJoin labels ∧ 2 ≤ labels.length ∧
    ∀ l ∈ labels, HostLabel l ∧ toLower l = l

theorem hostByte_iff (b : UInt8) :
    ((97 ≤ b ∧ b ≤ 122) ∨ (48 ≤ b ∧ b ≤ 57) ∨ b = 45 ↔
      (isLetter b = true ∨ isDigit b = true ∨ b = 45) ∧ lowerByte b = b) ∧
    ((isLetter (lowerByte b) = true ∨ isDigit (lowerByte b) = true ∨ lowerByte b = 45) ↔
      (isLetter b = true ∨ isDigit b = true ∨ b = 45)) ∧
    (lowerByte b = 45 ↔ b = 45) := by
  revert b
  apply forall_byte
  decide +kernel

theorem isValidLabel_iff {l : Bytes} :
    isValidLabel l = true ↔ HostLabel l ∧ toLower l = l := by
  have hlower : toLower l = l ↔ ∀ b ∈ l, lowerByte b = b := by
    simpa [toLower] using @List.map_inj_left _ _ l lowerByte id
  have hbytes : (∀ b ∈ l, (97 ≤ b ∧ b ≤ 122) ∨ (48 ≤ b ∧ b ≤ 57) ∨ b = 45) ↔
      (∀ b ∈ l, isLetter b = true ∨ isDigit b = true ∨ b = 45) ∧ ∀ b ∈ l, lowerByte b = b := by
    rw [← forall₂_and]
    exact forall₂_congr fun b _ => (hostByte_iff b).1
  rw [hlower, isValidLabel]
  split_ifs with hempty hends
  · simp only [false_iff]
    exact fun h => h.1.nonempty (List.isEmpty_iff.mp hempty)
  · simp only [false_iff]
    rintro ⟨h, -⟩
    exact hends.elim h.first h.last
  · rw [not_or] at hends
    simp only [List.all_eq_true, decide_eq_true_eq, hbytes]
    constructor
    · rintro ⟨hhost, hlow⟩
      exact ⟨⟨by simpa using hempty, hends.1, hends.2, hhost⟩, hlow⟩
    · rintro ⟨hhost, hlow⟩
      exact ⟨hhost.bytes, hlow⟩

theorem HostLabel.notMem {l : Bytes} (h : HostLabel l) {b : UInt8} (hletter : isLetter b = false)
    (hdigit : isDigit b = false) (hhyphen : b ≠ 45) : b ∉ l := by
  intro hmem
  rcases h.bytes b hmem with hb | hb | hb
  · rw [hletter] at hb
    cases hb
  · rw [hdigit] at hb
    cases hb
  · exact hhyphen hb

theorem HostLabel.dot_notMem {l : Bytes} (h : HostLabel l) : dot ∉ l :=
  h.notMem rfl rfl (by decide)

theorem HostLabel.toLower {l : Bytes} (h : HostLabel l) : HostLabel (toLower l) := by
  refine ⟨by simpa [Gravastar.toLower] using h.nonempty, ?_, ?_, fun b hb => ?_⟩
  · rw [Gravastar.toLower, List.head?_map]
    intro heq
    obtain ⟨b, hb, hlower⟩ := Option.map_eq_some_iff.mp heq
    exact h.first (hb.trans (congrArg some ((hostByte_iff b).2.2.mp hlower)))
  · rw [Gravastar.toLower, List.getLast?_map]
    intro heq
    obtain ⟨b, hb, hlower⟩ := Option.map_eq_some_iff.mp heq
    exact h.last (hb.trans (congrArg some ((hostByte_iff b).2.2.mp hlower)))
  · obtain ⟨c, hc, rfl⟩ := List.mem_map.mp hb
    exact (hostByte_iff c).2.1.mpr (h.bytes c hc)

theorem getLast?_dotJoin {labels : List Bytes} (h : ∀ l ∈ labels, l ≠ [] ∧ dot ∉ l) :
    (dotJoin labels).getLast? ≠ some dot := by
  induction labels with
  | nil => simp [dotJoin]
  | cons l ls ih =>
    cases ls with
    | nil =>
      rw [dotJoin_singleton]
      exact fun heq => (h l List.mem_cons_self).2 (List.mem_of_getLast? heq)
    | cons m ls =>
      have hrest := ih fun l hl => h l (List.mem_cons_of_mem _ hl)
      have hne : dotJoin (m :: ls) ≠ [] := by
        have hm := (h m (by simp)).1
        cases ls <;> simp [hm]
      rwa [dotJoin_cons_cons, List.getLast?_append_of_ne_nil _ (by simp), List.getLast?_cons,
        List.getLast?_eq_getLast_of_ne_nil hne, Option.getD_some,
        ← List.getLast?_eq_getLast_of_ne_nil hne]

/-- The tests for an empty name, a slash and a star decide nothing that the labels do not. -/
theorem normalizeDomain_eq_some {raw d : Bytes} :
    normalizeDomain raw = some d ↔
      d = dropTrailingDot (toLower raw) ∧ 2 ≤ (split d dot).length ∧
        ∀ l ∈ split d dot, HostLabel l ∧ toLower l = l := by
  rw [normalizeDomain]
  dsimp only
  constructor
  · intro h
    split_ifs at h with hempty hpath hfew hlabels
    obtain rfl := Option.some.inj h
    refine ⟨rfl, by omega, fun l hl => ?_⟩
    exact isValidLabel_iff.mp (List.all_eq_true.mp hlabels l hl)
  · rintro ⟨rfl, hmany, hlabels⟩
    have habsent : ∀ b, isLetter b = false → isDigit b = false → b ≠ 45 → b ≠ dot →
        b ∉ dropTrailingDot (toLower raw) := by
      intro b hletter hdigit hhyphen hdot hmem
      rw [← dotJoin_split (dropTrailingDot (toLower raw))] at hmem
      rcases mem_intercalate hmem with heq | ⟨l, hl, hb⟩
      · exact hdot heq
      · exact (hlabels l hl).1.notMem hletter hdigit hhyphen hb
    have hne : (dropTrailingDot (toLower raw)).isEmpty = false := by
      rw [List.isEmpty_eq_false_iff]
      intro hnil
      rw [hnil] at hmany
      exact absurd hmany (by decide)
    have hslash : 47 ∉ dropTrailingDot (toLower raw) :=
      habsent 47 rfl rfl (by decide) (by decide)
    have hstar : 42 ∉ dropTrailingDot (toLower raw) :=
      habsent 42 rfl rfl (by decide) (by decide)
    have hall : (split (dropTrailingDot (toLower raw)) dot).all isValidLabel = true :=
      List.all_eq_true.mpr fun l hl => isValidLabel_iff.mpr (hlabels l hl)
    simp [hne, hslash, hstar, hall, Nat.not_lt.mpr hmany]

theorem canonicalDomain_of_normalizeDomain {raw d : Bytes} (h : normalizeDomain raw = some d) :
    CanonicalDomain d := by
  obtain ⟨-, hmany, hlabels⟩ := normalizeDomain_eq_some.mp h
  exact ⟨split d dot, (dotJoin_split d).symm, hmany, hlabels⟩

theorem canonical_dropTrailingDot (s : Bytes) :
    s = dropTrailingDot s ∨ s = dropTrailingDot s ++ [dot] := by
  rw [dropTrailingDot]
  split_ifs with hdot
  · obtain ⟨text, rfl⟩ := List.getLast?_eq_some_iff.mp hdot
    exact .inr (by rw [List.dropLast_concat])
  · exact .inl rfl

/-- The bytes of domains. -/
def isHostByte (b : UInt8) : Bool := isLetter b || isDigit b || b = 45 || b = dot

theorem isHostByte_iff {b : UInt8} : isHostByte b = true ↔
    (isLetter b = true ∨ isDigit b = true ∨ b = 45) ∨ b = dot := by
  simp [isHostByte, or_assoc]

/-- Only texts of such bytes are normalised. -/
theorem bytes_of_normalizeDomain {raw d : Bytes} (h : normalizeDomain raw = some d) {b : UInt8}
    (hb : b ∈ raw) : isHostByte b = true := by
  obtain ⟨hd, -, hlabels⟩ := normalizeDomain_eq_some.mp h
  have hlower : lowerByte b ∈ toLower raw := List.mem_map_of_mem hb
  have hmem : lowerByte b ∈ dotJoin (split d dot) ∨ lowerByte b = dot := by
    rw [dotJoin_split, hd]
    rcases canonical_dropTrailingDot (toLower raw) with hsame | hrooted
    · exact .inl (hsame ▸ hlower)
    · rw [hrooted, List.mem_append, List.mem_singleton] at hlower
      exact hlower
  rw [isHostByte_iff]
  have hdot : lowerByte b = dot → b = dot := lowerByte_eq_dot.mp
  rcases hmem with hmem | hmem
  · rcases mem_intercalate hmem with heq | ⟨l, hl, hbl⟩
    · exact .inr (hdot heq)
    · exact .inl ((hostByte_iff b).2.1.mp ((hlabels l hl).1.bytes _ hbl))
  · exact .inr (hdot hmem)

/-! ## Lines without their white space -/

/-- The part of `lineDomains` behind the trimming. -/
def trimmedDomains (trimmed : Bytes) : List Bytes :=
  if isSkippableLine trimmed then []
  else if (ascii "||").isPrefixOf trimmed then
    let rest := trimmed.drop 2
    if rest.contains 94 then (normalizeDomain (rest.takeWhile (· ≠ 94))).toList else []
  else
    match splitWhitespace trimmed with
    | [] => []
    | token :: tokens =>
      let tokens := if looksLikeIp token then tokens else token :: tokens
      (tokens.takeWhile fun token => token.head? ≠ some 35).filterMap normalizeDomain

/-- The carriage return goes with the rest of the white space. -/
theorem lineDomains_eq (line : Bytes) : lineDomains line = trimmedDomains (trim line) := by
  have htrim : trim (if line.getLast? = some 13 then line.dropLast else line) = trim line := by
    split_ifs with hcr
    · obtain ⟨text, rfl⟩ := List.getLast?_eq_some_iff.mp hcr
      rw [List.dropLast_concat, trim_append_blank text (by decide : Blank [13])]
    · rfl
  have hdef : lineDomains line =
      trimmedDomains (trim (if line.getLast? = some 13 then line.dropLast else line)) := rfl
  rw [hdef, htrim]

/-- Whatever a line holds, the domains that it adds are in canonical form. -/
theorem canonicalDomain_of_lineDomains {line d : Bytes} (h : d ∈ lineDomains line) :
    CanonicalDomain d := by
  suffices hraw : ∃ raw, normalizeDomain raw = some d by
    obtain ⟨raw, hraw⟩ := hraw
    exact canonicalDomain_of_normalizeDomain hraw
  rw [lineDomains_eq, trimmedDomains] at h
  dsimp only at h
  split_ifs at h with hskip hrule hcaret
  · cases h
  · exact ⟨_, Option.mem_toList.mp h⟩
  · cases h
  · split at h
    · cases h
    · obtain ⟨token, -, hd⟩ := List.mem_filterMap.mp h
      exact ⟨token, hd⟩

theorem hasSubstring_iff {s pattern : Bytes} : hasSubstring s pattern = true ↔ pattern <:+: s := by
  rw [hasSubstring, List.any_eq_true]
  simp only [List.mem_tails, List.isPrefixOf_iff_prefix]
  constructor
  · rintro ⟨t, hsuffix, hstart⟩
    exact hstart.isInfix.trans hsuffix.isInfix
  · rintro ⟨a, b, rfl⟩
    exact ⟨pattern ++ b, ⟨a, by simp⟩, List.prefix_append ..⟩

/-- The marks of comments inside a line all start and end with a number sign. -/
theorem isSkippableLine_eq (line : Bytes) :
    isSkippableLine line = true ↔
      line = [] ∨ line.head? = some 33 ∨ line.head? = some 91 ∨ line.head? = some 35 ∨
        ∃ mark ∈ [[], ascii "@", ascii "?", ascii "$"], 35 :: (mark ++ [35]) <:+: line := by
  rw [isSkippableLine]
  split_ifs with hempty hfirst
  · simp [List.isEmpty_iff.mp hempty]
  · simp only [true_iff]
    tauto
  · rw [List.isEmpty_iff] at hempty
    simp only [Bool.or_eq_true, hasSubstring_iff, List.mem_cons, List.not_mem_nil, or_false,
      exists_eq_or_imp, exists_eq_left]
    have h1 : ascii "##" = 35 :: ([] ++ [35]) := rfl
    have h2 : ascii "#@#" = 35 :: (ascii "@" ++ [35]) := rfl
    have h3 : ascii "#?#" = 35 :: (ascii "?" ++ [35]) := rfl
    have h4 : ascii "#$#" = 35 :: (ascii "$" ++ [35]) := rfl
    rw [h1, h2, h3, h4]
    tauto

/-- What follows without number signs does not make a line a comment. -/
theorem isSkippableLine_append {line rest : Bytes} (hne : line ≠ []) (hrest : 35 ∉ rest) :
    isSkippableLine (line ++ rest) = isSkippableLine line := by
  have hhead : (line ++ rest).head? = line.head? := List.head?_append_of_ne_nil line hne
  have hmark : ∀ mark : Bytes, 35 :: (mark ++ [35]) <:+: line ++ rest ↔
      35 :: (mark ++ [35]) <:+: line := fun mark =>
    ⟨Marker.infix_of_append_right (v := 35 :: mark) hrest,
      fun h => h.trans (List.infix_append_left ..)⟩
  rw [Bool.eq_iff_iff, isSkippableLine_eq, isSkippableLine_eq, hhead]
  simp [hmark, hne]

/-! ## Rules -/

/-- The text is `||domain^` and nothing else, and the domain is one. -/
def PlainAnchor (text d : Bytes) : Prop :=
  ∃ raw, text = ascii "||" ++ raw ++ [94] ∧ normalizeDomain raw = some d

theorem caret_notMem {raw d : Bytes} (h : normalizeDomain raw = some d) : 94 ∉ raw :=
  fun hmem => absurd (bytes_of_normalizeDomain h hmem) (by decide)

/-- Of a rule only what stands before its first caret is read. -/
theorem mem_trimmedDomains_rule {rest d : Bytes} :
    d ∈ trimmedDomains (ascii "||" ++ rest) ↔
      isSkippableLine (ascii "||" ++ rest) = false ∧
        ∃ raw tail, rest = raw ++ 94 :: tail ∧ normalizeDomain raw = some d := by
  have hrule : (ascii "||").isPrefixOf (ascii "||" ++ rest) = true :=
    List.isPrefixOf_iff_prefix.mpr (List.prefix_append ..)
  have hrest : (ascii "||" ++ rest).drop 2 = rest := rfl
  rw [trimmedDomains]
  dsimp only
  rw [hrest]
  cases hskip : isSkippableLine (ascii "||" ++ rest) with
  | true => simp
  | false =>
    rw [if_neg Bool.false_ne_true, if_pos hrule]
    by_cases hcaret : (94 : UInt8) ∈ rest
    · obtain ⟨first, after, rfl, hfirst⟩ := List.eq_append_cons_of_mem hcaret
      rw [if_pos (by simp), Marker.takeWhile_cut hfirst, Option.mem_toList]
      constructor
      · exact fun h => ⟨rfl, first, after, rfl, h⟩
      · rintro ⟨-, raw, tail, heq, h⟩
        obtain ⟨rfl, -⟩ := Marker.cut_first hfirst (caret_notMem h) (.inl rfl) (.inl rfl) heq
        exact h
    · rw [if_neg (by simpa using hcaret)]
      simp only [List.not_mem_nil, false_iff]
      rintro ⟨-, raw, tail, rfl, -⟩
      simp at hcaret

/-- A plain anchor is no comment. -/
theorem PlainAnchor.not_skippable {text d : Bytes} (h : PlainAnchor text d) :
    isSkippableLine text = false := by
  obtain ⟨raw, rfl, hraw⟩ := h
  have hnumber : (35 : UInt8) ∉ raw ++ [94] := by
    rw [List.mem_append, not_or]
    exact ⟨fun hmem => absurd (bytes_of_normalizeDomain hraw hmem) (by decide), by decide⟩
  rw [List.append_assoc, isSkippableLine_append (by decide) hnumber]
  decide

/-- The rule adds what it says if it is a plain anchor, and nothing otherwise. -/
def ReadAsPlainAnchor (line : Bytes) : Prop :=
  ∀ before after : List Bytes, (∀ l ∈ before ++ after, newline ∉ l) → ∀ domains d,
    d ∈ parseUpstreamBlocklistContent (joinLines (before ++ line :: after)) domains ↔
      d ∈ parseUpstreamBlocklistContent (joinLines (before ++ after)) domains ∨
        PlainAnchor (trim line) d

theorem mem_parse_joinLines {lines : List Bytes} (h : ∀ line ∈ lines, newline ∉ line)
    {domains : Finset Bytes} {d : Bytes} :
    d ∈ parseUpstreamBlocklistContent (joinLines lines) domains ↔
      d ∈ domains ∨ ∃ line ∈ lines, d ∈ lineDomains line := by
  rw [mem_parse, getLines_joinLines h]

/-- What a line adds does not depend on the lines around it. -/
theorem readAsPlainAnchor_iff {line : Bytes} (hline : newline ∉ line) :
    ReadAsPlainAnchor line ↔ ∀ d, d ∈ lineDomains line ↔ PlainAnchor (trim line) d := by
  constructor
  · intro h d
    have hone := h [] [] (by simp) ∅ d
    rw [List.nil_append, mem_parse_joinLines (by simpa using hline),
      mem_parse_joinLines (by simp)] at hone
    simpa using hone
  · intro h before after hlines domains d
    rw [mem_parse_joinLines hlines, mem_parse_joinLines, ← h d]
    · simp only [List.mem_append, List.mem_cons]
      grind
    · simp only [List.mem_append, List.mem_cons] at hlines ⊢
      grind

/-- A rule is read as a plain anchor unless something stands behind its first caret. Then the text
in front of the caret is blocked, if it is a domain and the line is no comment. -/
theorem rule_read_as_plainAnchor_iff {line : Bytes} (hline : newline ∉ line)
    (hrule : ascii "||" <+: trim line) :
    ReadAsPlainAnchor line ↔
      isSkippableLine (trim line) = true ∨
        ∀ raw tail, trim line = ascii "||" ++ raw ++ 94 :: tail →
          (normalizeDomain raw).isSome = true → tail = [] := by
  obtain ⟨rest, hrest⟩ := hrule
  rw [readAsPlainAnchor_iff hline, lineDomains_eq, ← hrest]
  cases hskip : isSkippableLine (ascii "||" ++ rest) with
  | true =>
    simp only [true_or, iff_true, mem_trimmedDomains_rule, hskip, Bool.true_eq_false, false_and,
      false_iff]
    intro d h
    rw [h.not_skippable] at hskip
    cases hskip
  | false =>
    simp only [Bool.false_eq_true, false_or, mem_trimmedDomains_rule, hskip, true_and]
    have hplain : ∀ d, PlainAnchor (ascii "||" ++ rest) d ↔
        ∃ raw, rest = raw ++ [94] ∧ normalizeDomain raw = some d := by
      intro d
      simp only [PlainAnchor, List.append_assoc, List.append_cancel_left_eq]
    simp only [hplain, List.append_assoc, List.append_cancel_left_eq]
    constructor
    · intro h raw tail hcut hsome
      obtain ⟨d, hd⟩ := Option.isSome_iff_exists.mp hsome
      obtain ⟨raw', hcut', hd'⟩ := (h d).mp ⟨raw, tail, hcut, hd⟩
      obtain ⟨-, htail⟩ := Marker.cut_first (caret_notMem hd) (caret_notMem hd') (.inl rfl)
        (.inl rfl) (hcut.symm.trans hcut')
      exact (List.cons.inj htail).2
    · intro h d
      constructor
      · rintro ⟨raw, tail, hcut, hd⟩
        obtain rfl := h raw tail hcut (Option.isSome_of_eq_some hd)
        exact ⟨raw, hcut, hd⟩
      · rintro ⟨raw, hcut, hd⟩
        exact ⟨raw, [], hcut, hd⟩

/-- A rule about a domain, written with blanks around it. -/
theorem rule_read_as_plainAnchor_example : ReadAsPlainAnchor (ascii " ||Ads.example.com^ ") :=
  (rule_read_as_plainAnchor_iff (by decide) (by decide)).mpr <| .inr <| by
    intro raw tail hcut hsome
    obtain ⟨d, hd⟩ := Option.isSome_iff_exists.mp hsome
    have htrim : trim (ascii " ||Ads.example.com^ ") =
        ascii "||" ++ (ascii "Ads.example.com" ++ [94]) := by decide
    rw [htrim, List.append_assoc, List.append_cancel_left_eq] at hcut
    obtain ⟨-, htail⟩ := Marker.cut_first (by decide) (caret_notMem hd) (.inl rfl) (.inl rfl) hcut
    exact (List.cons.inj htail).2.symm

/-- A rule for third-party requests only blocks the whole domain. -/
theorem rule_with_options_blocks_domain :
    ascii "ads.example.com" ∈
        parseUpstreamBlocklistContent (ascii "||ads.example.com^$third-party\n") ∅ ∧
      ¬ ReadAsPlainAnchor (ascii "||ads.example.com^$third-party") := by
  have hblocked : ascii "ads.example.com" ∈
      parseUpstreamBlocklistContent (ascii "||ads.example.com^$third-party\n") ∅ := by
    decide +kernel
  refine ⟨hblocked, fun h => ?_⟩
  obtain ⟨raw, hcut, -⟩ :=
    ((h [] [] (by simp) ∅ (ascii "ads.example.com")).mp hblocked).resolve_left (by decide +kernel)
  have hlast := congrArg List.getLast? hcut
  rw [List.getLast?_concat] at hlast
  revert hlast
  decide

end Gravastar
