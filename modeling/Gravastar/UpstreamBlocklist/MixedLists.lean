import Gravastar.UpstreamBlocklist.Formats

/-!
# Lists that mix the three formats

A line is written down as what it means: nothing, a comment, a domain, an
address with domains, or a rule. Whatever the order of the lines and whatever
blanks and line ends they have, the parser adds exactly the domains in them.
-/

namespace Gravastar

/-! ## What a list may hold -/

/-- A domain that is not all digits and dots. -/
structure ListedDomain where
  labels : List Bytes
  hosts : ∀ l ∈ labels, HostLabel l
  many : 2 ≤ labels.length
  notAddress : ∃ l ∈ labels, ∃ b ∈ l, isDigit b = false
  rooted : Bool

/-- As it is written, with or without a dot at the end. -/
def ListedDomain.text (d : ListedDomain) : Bytes :=
  dotJoin d.labels ++ if d.rooted then [dot] else []

/-- As it is blocked. -/
def ListedDomain.canonical (d : ListedDomain) : Bytes := toLower (dotJoin d.labels)

/-- White space within a line. -/
structure Blanks where
  bytes : Bytes
  blank : Blank bytes
  inline : newline ∉ bytes

structure Gap extends Blanks where
  nonempty : bytes ≠ []

/-- Digits and dots, or something with a colon, that neither starts a rule nor makes its line a
comment. -/
structure IpToken where
  bytes : Bytes
  nonempty : bytes ≠ []
  word : ∀ b ∈ bytes, isSpace b = false
  address : 58 ∈ bytes ∨ ∀ b ∈ bytes, b = dot ∨ isDigit b = true
  noRule : ¬ ascii "||" <+: bytes
  noComment : isSkippableLine bytes = false

inductive ListBody where
  | blank
  | comment (marker : UInt8) (known : marker ∈ [33, 35, 91]) (rest : Bytes)
      (inline : newline ∉ rest)
  | domain (d : ListedDomain)
  | hosts (ip : IpToken) (names : List (Gap × ListedDomain))
  | rule (d : ListedDomain)

/-- The domains after an address. -/
def hostNames (names : List (Gap × ListedDomain)) : Bytes :=
  names.flatMap fun name => name.1.bytes ++ name.2.text

namespace ListBody

def text : ListBody → Bytes
  | blank => []
  | comment marker _ rest _ => marker :: rest
  | domain d => d.text
  | hosts ip names => ip.bytes ++ hostNames names
  | rule d => ascii "||" ++ d.text ++ [94]

def domains : ListBody → List ListedDomain
  | blank => []
  | comment .. => []
  | domain d => [d]
  | hosts _ names => names.map Prod.snd
  | rule d => [d]

end ListBody

structure ListLine where
  lead : Blanks
  body : ListBody
  trail : Blanks
  crlf : Bool

/-- The line as it stands before the line feed. -/
def ListLine.text (line : ListLine) : Bytes :=
  line.lead.bytes ++ line.body.text ++ (line.trail.bytes ++ if line.crlf then [13] else [])

/-! ## Domains -/

theorem isHostByte_not {b c : UInt8} (hc : isHostByte c = false) (hb : isHostByte b = true) :
    b ≠ c := by
  rintro rfl
  rw [hc] at hb
  cases hb

theorem isSpace_of_isHostByte {b : UInt8} (h : isHostByte b = true) : isSpace b = false := by
  revert b
  apply forall_byte
  decide +kernel

namespace ListedDomain

variable (d : ListedDomain)

theorem bytes {b : UInt8} (hb : b ∈ d.text) : isHostByte b = true := by
  rw [isHostByte_iff]
  rw [text, List.mem_append] at hb
  rcases hb with hb | hb
  · rcases mem_intercalate hb with heq | ⟨l, hl, hbl⟩
    · exact .inr heq
    · exact .inl ((d.hosts l hl).bytes b hbl)
  · split_ifs at hb
    · exact .inr (List.mem_singleton.mp hb)
    · cases hb

theorem notMem {b : UInt8} (h : isHostByte b = false) : b ∉ d.text :=
  fun hb => isHostByte_not h (d.bytes hb) rfl

theorem labels_ne_nil : d.labels ≠ [] := by
  intro hnil
  have hmany := d.many
  rw [hnil] at hmany
  exact absurd hmany (by decide)

theorem mem_text_of_label {l : Bytes} (hl : l ∈ d.labels) {b : UInt8} (hb : b ∈ l) :
    b ∈ d.text := by
  obtain ⟨front, back, hlabels⟩ := List.append_of_mem hl
  rw [text, hlabels]
  refine List.mem_append_left _ ?_
  have hback : b ∈ dotJoin (l :: back) := by
    rw [dotJoin_eq_flatMap]
    exact List.mem_append_left _ hb
  by_cases hfront : front = []
  · rwa [hfront]
  · rw [dotJoin_append hfront (by simp)]
    exact List.mem_append_right _ (List.mem_cons_of_mem _ hback)

theorem text_ne_nil : d.text ≠ [] := by
  obtain ⟨l, hl, b, hb, -⟩ := d.notAddress
  exact List.ne_nil_of_mem (d.mem_text_of_label hl hb)

/-- It is not taken for an address. -/
theorem not_looksLikeIp : looksLikeIp d.text = false := by
  obtain ⟨l, hl, b, hb, hdigit⟩ := d.notAddress
  have hcolon : d.text.contains 58 = false := by
    simpa using d.notMem (by decide : isHostByte 58 = false)
  have hother : d.text.all (fun c => c = dot ∨ (48 ≤ c ∧ c ≤ 57)) = false := by
    refine List.all_eq_false.mpr ⟨b, d.mem_text_of_label hl hb, ?_⟩
    have hdot : b ≠ dot := fun heq => (d.hosts l hl).dot_notMem (heq ▸ hb)
    simpa [isDigit, hdot] using hdigit
  rw [looksLikeIp, hcolon, hother]
  rfl

theorem normalize : normalizeDomain d.text = some d.canonical := by
  have hnodot : ∀ l ∈ d.labels.map toLower, dot ∉ l := by
    intro l hl
    obtain ⟨m, hm, rfl⟩ := List.mem_map.mp hl
    exact (d.hosts m hm).toLower.dot_notMem
  have hsplit : split d.canonical dot = d.labels.map toLower := by
    rw [canonical, toLower_dotJoin, split_dotJoin hnodot (by simpa using d.labels_ne_nil)]
  rw [normalizeDomain_eq_some, hsplit, List.length_map]
  refine ⟨?_, d.many, fun l hl => ?_⟩
  · rw [text, toLower_append, dropTrailingDot, canonical]
    have hlast : (toLower (dotJoin d.labels)).getLast? ≠ some dot := by
      rw [toLower_dotJoin]
      refine getLast?_dotJoin fun l hl => ⟨?_, hnodot l hl⟩
      obtain ⟨m, hm, rfl⟩ := List.mem_map.mp hl
      exact (d.hosts m hm).toLower.nonempty
    cases d.rooted with
    | true =>
      have hdot : toLower [dot] = [dot] := by decide
      simp [hdot]
    | false =>
      have hnil : toLower [] = [] := rfl
      simp [hnil, hlast]
  · obtain ⟨m, hm, rfl⟩ := List.mem_map.mp hl
    exact ⟨(d.hosts m hm).toLower, toLower_toLower m⟩

end ListedDomain

/-! ## Words -/

section
variable {word gap : Bytes}

theorem splitWhitespaceLoop_word (current : Bytes) (h : ∀ b ∈ word, isSpace b = false)
    (s : Bytes) :
    splitWhitespaceLoop current (word ++ s) = splitWhitespaceLoop (current ++ word) s := by
  induction word generalizing current with
  | nil => simp
  | cons b word ih =>
    rw [List.cons_append, splitWhitespaceLoop, h b List.mem_cons_self, if_neg Bool.false_ne_true,
      ih _ fun c hc => h c (List.mem_cons_of_mem _ hc)]
    simp

theorem splitWhitespaceLoop_blank (h : Blank gap) (s : Bytes) :
    splitWhitespaceLoop [] (gap ++ s) = splitWhitespaceLoop [] s := by
  induction gap with
  | nil => rfl
  | cons b gap ih =>
    rw [List.cons_append, splitWhitespaceLoop, h b List.mem_cons_self, if_pos rfl]
    exact ih fun c hc => h c (List.mem_cons_of_mem _ hc)

theorem splitWhitespaceLoop_gap {current : Bytes} (hcurrent : current ≠ []) (h : Blank gap)
    (hne : gap ≠ []) (s : Bytes) :
    splitWhitespaceLoop current (gap ++ s) = current :: splitWhitespaceLoop [] s := by
  cases gap with
  | nil => exact absurd rfl hne
  | cons b gap =>
    rw [List.cons_append, splitWhitespaceLoop, h b List.mem_cons_self, if_pos rfl,
      if_neg (by simpa using hcurrent),
      splitWhitespaceLoop_blank fun c hc => h c (List.mem_cons_of_mem _ hc)]

end

/-- The words of a line are its address and its domains. -/
theorem splitWhitespaceLoop_hostNames {current : Bytes} (hcurrent : current ≠ [])
    (names : List (Gap × ListedDomain)) :
    splitWhitespaceLoop current (hostNames names) =
      current :: names.map fun name => name.2.text := by
  induction names generalizing current with
  | nil => simp [hostNames, splitWhitespaceLoop, hcurrent]
  | cons name names ih =>
    have hword : ∀ b ∈ name.2.text, isSpace b = false :=
      fun b hb => isSpace_of_isHostByte (name.2.bytes hb)
    have hsplit : hostNames (name :: names) =
        name.1.bytes ++ (name.2.text ++ hostNames names) := by
      rw [hostNames, List.flatMap_cons, List.append_assoc]
      rfl
    rw [hsplit, splitWhitespaceLoop_gap hcurrent name.1.blank name.1.nonempty,
      splitWhitespaceLoop_word [] hword, List.nil_append, ih name.2.text_ne_nil, List.map_cons]

theorem splitWhitespace_hosts {word : Bytes} (hne : word ≠ []) (h : ∀ b ∈ word, isSpace b = false)
    (names : List (Gap × ListedDomain)) :
    splitWhitespace (word ++ hostNames names) = word :: names.map fun name => name.2.text := by
  rw [splitWhitespace, splitWhitespaceLoop_word [] h, List.nil_append,
    splitWhitespaceLoop_hostNames hne]

/-- Every domain of a line is added. -/
theorem filterMap_normalizeDomain (ds : List ListedDomain) :
    ((ds.map ListedDomain.text).takeWhile fun word => word.head? ≠ some 35).filterMap
      normalizeDomain = ds.map ListedDomain.canonical := by
  rw [List.takeWhile_eq_self_iff.mpr, List.filterMap_map, ← List.filterMap_eq_map]
  · exact List.filterMap_congr fun d _ => d.normalize
  · intro word hword
    obtain ⟨d, -, rfl⟩ := List.mem_map.mp hword
    refine decide_eq_true fun heq => ?_
    exact d.notMem (by decide : isHostByte 35 = false) (List.mem_of_mem_head? heq)

/-- A line of words that is neither a comment nor a rule. -/
theorem trimmedDomains_words {line word : Bytes} {words : List Bytes}
    (hcomment : isSkippableLine line = false) (hrule : ¬ ascii "||" <+: line)
    (hwords : splitWhitespace line = word :: words) :
    trimmedDomains line =
      ((if looksLikeIp word then words else word :: words).takeWhile fun word =>
        word.head? ≠ some 35).filterMap normalizeDomain := by
  have hbars : (ascii "||").isPrefixOf line = false := by
    rw [Bool.eq_false_iff, Ne, List.isPrefixOf_iff_prefix]
    exact hrule
  rw [trimmedDomains, hcomment, hbars, hwords]
  rfl

/-! ## Lines -/

theorem hostNames_bytes {names : List (Gap × ListedDomain)} {b : UInt8}
    (hb : b ∈ hostNames names) :
    (isSpace b = true ∧ b ≠ newline) ∨ isHostByte b = true := by
  obtain ⟨name, -, hb⟩ := List.mem_flatMap.mp hb
  rcases List.mem_append.mp hb with hb | hb
  · exact .inl ⟨name.1.blank b hb, fun heq => name.1.inline (heq ▸ hb)⟩
  · exact .inr (name.2.bytes hb)

theorem hostNames_notMem (names : List (Gap × ListedDomain)) {b : UInt8}
    (hspace : isSpace b = false) (hhost : isHostByte b = false) : b ∉ hostNames names := by
  intro hb
  rcases hostNames_bytes hb with ⟨h, -⟩ | h
  · rw [hspace] at h
    cases h
  · rw [hhost] at h
    cases h

namespace IpToken

variable (ip : IpToken)

theorem head_ne : ip.bytes.head? ≠ some 35 := by
  intro h
  have hcomment : isSkippableLine ip.bytes = true := (isSkippableLine_eq _).mpr (by simp [h])
  rw [ip.noComment] at hcomment
  cases hcomment

/-- A number without dots is no address to the code, but no domain either. -/
theorem looksLikeIp_or : looksLikeIp ip.bytes = true ∨ normalizeDomain ip.bytes = none := by
  rw [looksLikeIp]
  by_cases hcolon : (58 : UInt8) ∈ ip.bytes
  · exact .inl (if_pos (by simpa using hcolon))
  · have hall : ip.bytes.all (fun c => c = dot ∨ (48 ≤ c ∧ c ≤ 57)) = true := by
      simpa [isDigit] using ip.address.resolve_left hcolon
    rw [if_neg (by simpa using hcolon), if_pos hall]
    by_cases hdot : dot ∈ ip.bytes
    · exact .inl (by simpa using hdot)
    · refine .inr (Option.eq_none_iff_forall_ne_some.mpr fun d hd => ?_)
      obtain ⟨heq, hmany, -⟩ := normalizeDomain_eq_some.mp hd
      have hnot : dot ∉ d := by
        intro hmem
        refine hdot (dot_mem_toLower.mp ?_)
        rcases canonical_dropTrailingDot (toLower ip.bytes) with hsame | hrooted
        · rwa [hsame, ← heq]
        · rw [hrooted, ← heq]
          exact List.mem_append_left _ hmem
      rw [split_eq_splitOn, List.splitOn_eq_singleton hnot] at hmany
      exact absurd hmany (by simp)

theorem not_rule (rest : Bytes) : ¬ ascii "||" <+: ip.bytes ++ rest := by
  intro h
  rcases List.prefix_or_prefix_of_prefix h (List.prefix_append ip.bytes rest) with hrule | hshort
  · exact ip.noRule hrule
  · -- The token would consist of bars.
    have hbar : ∀ b ∈ ip.bytes, b = 124 := by
      intro b hb
      have hmem : b ∈ ascii "||" := hshort.subset hb
      simpa [ascii] using hmem
    obtain ⟨b, hb⟩ := List.exists_mem_of_ne_nil _ ip.nonempty
    rcases ip.address with hcolon | hdigits
    · exact absurd (hbar 58 hcolon) (by decide)
    · rcases hdigits b hb with hdot | hdigit
      · rw [hbar b hb] at hdot
        exact absurd hdot (by decide)
      · rw [hbar b hb] at hdigit
        exact absurd hdigit (by decide)

end IpToken

namespace ListBody

theorem newline_notMem : ∀ body : ListBody, newline ∉ body.text
  | blank => by simp [text]
  | comment marker known rest inline => by
    rw [text, List.mem_cons, not_or]
    refine ⟨?_, inline⟩
    rintro rfl
    exact absurd known (by decide)
  | domain d => d.notMem (by decide)
  | hosts ip names => by
    rw [text, List.mem_append, not_or]
    refine ⟨fun hb => ?_, fun hb => ?_⟩
    · exact absurd (ip.word _ hb) (by decide)
    · rcases hostNames_bytes hb with ⟨-, h⟩ | h
      · exact h rfl
      · exact absurd h (by decide)
  | rule d => by
    rw [text, List.mem_append, List.mem_append, not_or, not_or]
    exact ⟨⟨by decide, d.notMem (by decide)⟩, by decide⟩

/-- White space only surrounds a domain, an address with domains, or a rule. -/
theorem trim_words {word : Bytes} (hword : ∀ b ∈ word, isSpace b = false) (hne : word ≠ [])
    (names : List (Gap × ListedDomain)) :
    trim (word ++ hostNames names) = word ++ hostNames names := by
  refine trim_eq_self (fun b hb => ?_) fun b hb => ?_
  · rw [List.head?_append_of_ne_nil word hne] at hb
    exact hword b (List.mem_of_mem_head? hb)
  · rcases List.eq_nil_or_concat names with rfl | ⟨front, last, rfl⟩
    · rw [hostNames, List.flatMap_nil, List.append_nil] at hb
      exact hword b (List.mem_of_mem_getLast? hb)
    · have hsplit : word ++ hostNames (front ++ [last]) =
          word ++ hostNames front ++ last.1.bytes ++ last.2.text := by
        simp [hostNames]
      rw [List.concat_eq_append, hsplit, List.getLast?_append_of_ne_nil _ last.2.text_ne_nil] at hb
      exact isSpace_of_isHostByte (last.2.bytes (List.mem_of_mem_getLast? hb))

theorem trimmedDomains_domain (d : ListedDomain) : trimmedDomains d.text = [d.canonical] := by
  have hwords : splitWhitespace d.text = [d.text] := by
    simpa [hostNames] using splitWhitespace_hosts d.text_ne_nil
      (fun b hb => isSpace_of_isHostByte (d.bytes hb)) []
  have hcomment : isSkippableLine d.text = false := by
    obtain ⟨b, s, hs⟩ := List.exists_cons_of_ne_nil d.text_ne_nil
    have hb : b ∈ d.text := hs ▸ List.mem_cons_self
    have hnumber : 35 ∉ s := fun hmem =>
      d.notMem (by decide : isHostByte 35 = false) (hs ▸ List.mem_cons_of_mem _ hmem)
    rw [hs, ← List.singleton_append, isSkippableLine_append (by simp) hnumber]
    have hbyte : ∀ c, isHostByte c = true → isSkippableLine [c] = false := by
      apply forall_byte
      decide +kernel
    exact hbyte b (d.bytes hb)
  have hrule : ¬ ascii "||" <+: d.text := fun h =>
    d.notMem (by decide : isHostByte 124 = false) (h.subset (by decide))
  rw [trimmedDomains_words hcomment hrule hwords, d.not_looksLikeIp]
  exact filterMap_normalizeDomain [d]

theorem trimmedDomains_hosts (ip : IpToken) (names : List (Gap × ListedDomain)) :
    trimmedDomains (ip.bytes ++ hostNames names) =
      (names.map Prod.snd).map ListedDomain.canonical := by
  have hcomment : isSkippableLine (ip.bytes ++ hostNames names) = false := by
    rw [isSkippableLine_append ip.nonempty (hostNames_notMem names (by decide) (by decide))]
    exact ip.noComment
  have hnames := filterMap_normalizeDomain (names.map Prod.snd)
  rw [List.map_map] at hnames
  rw [trimmedDomains_words hcomment (ip.not_rule _)
    (splitWhitespace_hosts ip.nonempty ip.word names)]
  cases hip : looksLikeIp ip.bytes with
  | true => exact hnames
  | false =>
    have hnone := ip.looksLikeIp_or.resolve_left (by simp [hip])
    have hhead : decide (ip.bytes.head? ≠ some 35) = true := decide_eq_true ip.head_ne
    rw [if_neg Bool.false_ne_true, List.takeWhile_cons, if_pos hhead,
      List.filterMap_cons_none hnone]
    exact hnames

theorem trimmedDomains_anchor (d : ListedDomain) :
    trimmedDomains (ascii "||" ++ d.text ++ [94]) = [d.canonical] := by
  have hcomment : isSkippableLine (ascii "||" ++ d.text ++ [94]) = false := by
    have hnumber : 35 ∉ d.text ++ [94] := by
      rw [List.mem_append, not_or]
      exact ⟨d.notMem (by decide), by decide⟩
    rw [List.append_assoc, isSkippableLine_append (by decide) hnumber]
    decide
  have hrule : (ascii "||").isPrefixOf (ascii "||" ++ d.text ++ [94]) = true := by
    rw [List.append_assoc]
    exact List.isPrefixOf_iff_prefix.mpr (List.prefix_append ..)
  have hrest : (ascii "||" ++ d.text ++ [94]).drop 2 = d.text ++ [94] := rfl
  have hcaret : (94 : UInt8) ∉ d.text := d.notMem (by decide)
  rw [trimmedDomains, hcomment, hrule]
  dsimp only
  rw [hrest, if_neg Bool.false_ne_true, if_pos rfl, if_pos (by simp), Marker.takeWhile_cut hcaret,
    d.normalize]
  rfl

/-- What a line adds when its white space is gone. -/
theorem trimmedDomains_text (body : ListBody) :
    trimmedDomains (trim body.text) = body.domains.map ListedDomain.canonical := by
  cases body with
  | blank => rfl
  | comment marker known rest inline =>
    simp only [List.mem_cons, List.not_mem_nil, or_false] at known
    have hmarker : isSpace marker = false := by
      rcases known with rfl | rfl | rfl <;> rfl
    obtain ⟨t, ht, -⟩ := trim_cons hmarker rest
    have hskip : isSkippableLine (marker :: t) = true := by
      refine (isSkippableLine_eq _).mpr ?_
      rcases known with rfl | rfl | rfl <;> simp
    rw [text, ht, trimmedDomains, hskip]
    rfl
  | domain d =>
    have htrim := trim_words (fun b hb => isSpace_of_isHostByte (d.bytes hb)) d.text_ne_nil []
    rw [hostNames, List.flatMap_nil, List.append_nil] at htrim
    rw [text, htrim, trimmedDomains_domain]
    rfl
  | hosts ip names =>
    rw [text, trim_words ip.word ip.nonempty, trimmedDomains_hosts]
    rfl
  | rule d =>
    have htrim : trim (ascii "||" ++ d.text ++ [94]) = ascii "||" ++ d.text ++ [94] := by
      refine trim_eq_self (fun b hb => ?_) fun b hb => ?_
      · have hbar : b = 124 := (Option.some.inj hb).symm
        rw [hbar]
        decide
      · rw [List.getLast?_concat] at hb
        rw [← Option.some.inj hb]
        decide
    rw [text, htrim, trimmedDomains_anchor]
    rfl

end ListBody

namespace ListLine

theorem newline_notMem (line : ListLine) : newline ∉ line.text := by
  rw [text, List.mem_append, List.mem_append, List.mem_append, not_or, not_or, not_or]
  refine ⟨⟨line.lead.inline, line.body.newline_notMem⟩, line.trail.inline, ?_⟩
  split_ifs
  · decide
  · simp

theorem lineDomains_text (line : ListLine) :
    lineDomains line.text = line.body.domains.map ListedDomain.canonical := by
  have htrail : Blank (line.trail.bytes ++ if line.crlf then [13] else []) := by
    refine line.trail.blank.append ?_
    split_ifs
    · decide
    · exact blank_nil
  rw [lineDomains_eq, text, trim_append_blank _ htrail, line.lead.blank.trim_append,
    ListBody.trimmedDomains_text]

end ListLine

/-- The set only grows by domains in canonical form. A list that mixes the formats adds exactly its
domains. -/
theorem parse_mixed_list :
    (∀ content domains d, d ∈ parseUpstreamBlocklistContent content domains → d ∉ domains →
      CanonicalDomain d) ∧
    ∀ (lines : List ListLine) (domains : Finset Bytes),
      parseUpstreamBlocklistContent (joinLines (lines.map ListLine.text)) domains =
        domains ∪ (lines.flatMap fun line =>
          line.body.domains.map ListedDomain.canonical).toFinset := by
  constructor
  · intro content domains d hd hnew
    obtain ⟨line, -, hline⟩ := (mem_parse.mp hd).resolve_left hnew
    exact canonicalDomain_of_lineDomains hline
  · intro lines domains
    ext d
    have hlines : ∀ line ∈ lines.map ListLine.text, newline ∉ line := by
      intro text htext
      obtain ⟨line, -, rfl⟩ := List.mem_map.mp htext
      exact line.newline_notMem
    rw [mem_parse_joinLines hlines, Finset.mem_union, List.mem_toFinset, List.mem_flatMap]
    simp only [List.mem_map, exists_exists_and_eq_and, ListLine.lineDomains_text]

def adsDomain : ListedDomain where
  labels := [ascii "ads", ascii "example", ascii "com"]
  hosts l hl := by
    simp only [List.mem_cons, List.not_mem_nil, or_false] at hl
    rcases hl with rfl | rfl | rfl <;> exact (isValidLabel_iff.mp (by decide)).1
  many := by decide
  notAddress := ⟨ascii "ads", by decide, 97, by decide, by decide⟩
  rooted := false

def trackerDomain : ListedDomain where
  labels := [ascii "Tracker", ascii "Example", ascii "net"]
  hosts l hl := by
    simp only [List.mem_cons, List.not_mem_nil, or_false] at hl
    rcases hl with rfl | rfl | rfl <;> exact ⟨by decide, by decide, by decide, by decide +kernel⟩
  many := by decide
  notAddress := ⟨ascii "net", by decide, 110, by decide, by decide⟩
  rooted := true

def anyAddress : IpToken where
  bytes := ascii "0.0.0.0"
  nonempty := by decide
  word := by decide +kernel
  address := .inr (by decide +kernel)
  noRule := by decide
  noComment := by decide

def oneTab : Gap := ⟨⟨[9], by decide, by decide⟩, List.cons_ne_nil 9 []⟩

def noBlanks : Blanks := ⟨[], blank_nil, List.not_mem_nil⟩

/-- A comment, a domain, a line of a hosts file and a rule. -/
def mixedLines : List ListLine :=
  [⟨noBlanks, .comment 33 (by decide) (ascii " mixed") (by decide), noBlanks, false⟩,
    ⟨oneTab.toBlanks, .domain trackerDomain, noBlanks, true⟩,
    ⟨noBlanks, .hosts anyAddress [(oneTab, adsDomain), (oneTab, trackerDomain)],
      oneTab.toBlanks, false⟩,
    ⟨noBlanks, .blank, noBlanks, true⟩,
    ⟨noBlanks, .rule adsDomain, noBlanks, false⟩]

theorem parse_mixed_list_lines :
    parseUpstreamBlocklistContent (ascii "! mixed\n\tTracker.Example.net.\r\n" ++
        ascii "0.0.0.0\tads.example.com\tTracker.Example.net.\t\n\r\n||ads.example.com^\n") ∅ =
      {ascii "tracker.example.net", ascii "ads.example.com"} := by
  have hparse := parse_mixed_list.2 mixedLines ∅
  have htext : joinLines (mixedLines.map ListLine.text) =
      ascii "! mixed\n\tTracker.Example.net.\r\n" ++
        ascii "0.0.0.0\tads.example.com\tTracker.Example.net.\t\n\r\n||ads.example.com^\n" := by
    decide +kernel
  rw [htext] at hparse
  rw [hparse]
  decide +kernel

/-- Not everything with a colon may stand in front of a domain: a bracket or two number signs make
the line a comment. -/
theorem address_hides_domain :
    parseUpstreamBlocklistContent (ascii "[::1] ads.example.com\n") ∅ = ∅ ∧
      ¬ ∀ (ip : Bytes) (d : ListedDomain), ip ≠ [] → (∀ b ∈ ip, isSpace b = false) →
        (58 ∈ ip ∨ ∀ b ∈ ip, b = dot ∨ isDigit b = true) →
          parseUpstreamBlocklistContent (joinLines [ip ++ ascii " " ++ d.text]) ∅ =
            {d.canonical} := by
  refine ⟨by decide +kernel, fun h => ?_⟩
  have hword : ∀ b ∈ ascii "::1##", isSpace b = false := by simp [ascii, isSpace]
  have hblocked := h (ascii "::1##") adsDomain (by decide) hword (.inl (by decide))
  have hempty : parseUpstreamBlocklistContent
      (joinLines [ascii "::1##" ++ ascii " " ++ adsDomain.text]) ∅ = ∅ := by decide +kernel
  rw [hempty] at hblocked
  exact Finset.singleton_ne_empty _ hblocked.symm

end Gravastar
