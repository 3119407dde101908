import Gravastar.Config.BlocklistFiles
import Gravastar.UpstreamBlocklist.MixedLists

/-!
# Comments behind a line

The parser stops at the first word that starts with a number sign. Before that
it throws away lines with a mark of a cosmetic rule in them, and does not ask
whether the mark stands in a comment.
-/

namespace Gravastar

/-- The marks of cosmetic rules. -/
def ruleMarks : List Bytes := [ascii "##", ascii "#@#", ascii "#?#", ascii "#$#"]

/-- What the parser tries as domains, when the line has no number sign. -/
def offeredWords (line : Bytes) : List Bytes :=
  let text := trim line
  if text.head? = some 33 ∨ text.head? = some 91 then []
  else if ascii "||" <+: text then
    if 94 ∈ text.drop 2 then [(text.drop 2).takeWhile (· ≠ 94)] else []
  else
    match splitWhitespace text with
    | [] => []
    | word :: words => if looksLikeIp word then words else word :: words

/-! ## Words -/

theorem splitWhitespaceLoop_append {gap : Bytes} (hgap : Blank gap) (hne : gap ≠ [])
    (current s t : Bytes) :
    splitWhitespaceLoop current (s ++ gap ++ t) =
      splitWhitespaceLoop current s ++ splitWhitespaceLoop [] t := by
  induction s generalizing current with
  | nil =>
    cases current with
    | nil =>
      rw [List.nil_append, splitWhitespaceLoop_blank hgap]
      rfl
    | cons c current =>
      rw [List.nil_append, splitWhitespaceLoop_gap (List.cons_ne_nil c current) hgap hne]
      rfl
  | cons b s ih =>
    rw [List.cons_append, List.cons_append, splitWhitespaceLoop, splitWhitespaceLoop]
    split_ifs
    · exact ih []
    · rw [ih, List.cons_append]
    · exact ih _

/-- A word that has been started is the first one. -/
theorem exists_first_word (c : UInt8) (current s : Bytes) :
    ∃ more words, splitWhitespaceLoop (c :: current) s = (c :: more) :: words := by
  induction s generalizing current with
  | nil => exact ⟨current, [], rfl⟩
  | cons b s ih =>
    rw [splitWhitespaceLoop]
    split_ifs with hspace hempty
    · cases hempty
    · exact ⟨current, _, rfl⟩
    · exact ih (current ++ [b])

theorem mem_of_splitWhitespaceLoop {current s word : Bytes}
    (h : word ∈ splitWhitespaceLoop current s) {b : UInt8} (hb : b ∈ word) :
    b ∈ current ∨ b ∈ s := by
  induction s generalizing current with
  | nil =>
    rw [splitWhitespaceLoop] at h
    split_ifs at h
    · cases h
    · exact .inl (List.mem_singleton.mp h ▸ hb)
  | cons c s ih =>
    rw [splitWhitespaceLoop] at h
    split_ifs at h
    · exact .inr (List.mem_cons_of_mem _ ((ih h).resolve_left (by simp)))
    · rcases List.mem_cons.mp h with rfl | h
      · exact .inl hb
      · exact .inr (List.mem_cons_of_mem _ ((ih h).resolve_left (by simp)))
    · rcases ih h with hmem | hmem
      · rcases List.mem_append.mp hmem with hmem | hmem
        · exact .inl hmem
        · exact .inr (List.mem_singleton.mp hmem ▸ List.mem_cons_self)
      · exact .inr (List.mem_cons_of_mem _ hmem)

/-! ## Lines without a number sign -/

section
variable {text : Bytes}

theorem isSkippableLine_plain (hnumber : 35 ∉ text) :
    isSkippableLine text = true ↔ text = [] ∨ text.head? = some 33 ∨ text.head? = some 91 := by
  rw [isSkippableLine_eq]
  have hhead : text.head? ≠ some 35 := fun h => hnumber (List.mem_of_mem_head? h)
  have hmarks : ¬ ∃ mark ∈ [[], ascii "@", ascii "?", ascii "$"],
      35 :: (mark ++ [35]) <:+: text := by
    rintro ⟨mark, -, h⟩
    exact hnumber (h.subset List.mem_cons_self)
  simp only [hhead, hmarks, or_false]

/-- Behind a line comes a comment. -/
theorem isSkippableLine_comment (hne : text ≠ []) (hnumber : 35 ∉ text) {gap comment : Bytes}
    (hgap : Blank gap) :
    isSkippableLine (text ++ gap ++ 35 :: comment) = true ↔
      (text.head? = some 33 ∨ text.head? = some 91) ∨
        ∃ mark ∈ ruleMarks, mark <:+: 35 :: comment := by
  have hhead : (text ++ gap ++ 35 :: comment).head? = text.head? := by
    rw [List.append_assoc]
    exact List.head?_append_of_ne_nil text hne
  have hnumber' : text.head? ≠ some 35 := fun h => hnumber (List.mem_of_mem_head? h)
  have hfront : 35 ∉ text ++ gap := by
    rw [List.mem_append, not_or]
    exact ⟨hnumber, fun hb => absurd (hgap 35 hb) (by decide)⟩
  have hmarks : (∃ mark ∈ [[], ascii "@", ascii "?", ascii "$"],
      35 :: (mark ++ [35]) <:+: text ++ gap ++ 35 :: comment) ↔
      ∃ mark ∈ ruleMarks, mark <:+: 35 :: comment := by
    have hmark : ∀ mark : Bytes, 35 :: (mark ++ [35]) <:+: text ++ gap ++ 35 :: comment ↔
        35 :: (mark ++ [35]) <:+: 35 :: comment := fun mark =>
      ⟨Marker.infix_of_append hfront, fun h => h.trans (List.infix_append_right ..)⟩
    have hnames : ruleMarks = [[], ascii "@", ascii "?", ascii "$"].map fun mark =>
        35 :: (mark ++ [35]) := by decide
    simp only [hmark, hnames, List.mem_map, exists_exists_and_eq_and]
  rw [isSkippableLine_eq, hmarks, hhead]
  simp only [hnumber', false_or, List.append_eq_nil_iff, hne, false_and, or_assoc]

variable {gap comment : Bytes}

/-- No word of the line starts a comment. -/
theorem head?_word_ne (hnumber : 35 ∉ text) (word : Bytes) (h : word ∈ splitWhitespace text) :
    word.head? ≠ some 35 := by
  intro hhead
  have hmem := mem_of_splitWhitespaceLoop h (List.mem_of_mem_head? hhead)
  exact hnumber (hmem.resolve_left (by simp))

/-- What a line without a number sign adds. -/
theorem trimmedDomains_plain (hnumber : 35 ∉ text) (htrim : trim text = text) :
    trimmedDomains text = (offeredWords text).filterMap normalizeDomain := by
  have hrule : (ascii "||").isPrefixOf text = true ↔ ascii "||" <+: text :=
    List.isPrefixOf_iff_prefix
  rw [trimmedDomains, offeredWords, htrim]
  by_cases hskip : isSkippableLine text = true
  · rw [if_pos hskip]
    rcases (isSkippableLine_plain hnumber).mp hskip with rfl | hhead
    · rfl
    · rw [if_pos hhead]
      rfl
  · rw [if_neg hskip]
    rw [isSkippableLine_plain hnumber, not_or] at hskip
    simp only [hrule, if_neg hskip.2]
    split_ifs with hbars hcaret hcaret' hcaret'
    · simp only [List.filterMap_cons, List.filterMap_nil]
      cases normalizeDomain ((text.drop 2).takeWhile (· ≠ 94)) <;> rfl
    · exact absurd (List.contains_iff_mem.mp hcaret) hcaret'
    · exact absurd (List.contains_iff_mem.mpr hcaret') hcaret
    · rfl
    · have hwords := head?_word_ne hnumber
      cases hsplit : splitWhitespace text with
      | nil => rfl
      | cons word words =>
        rw [hsplit] at hwords
        dsimp only
        rw [List.takeWhile_eq_self_iff.mpr]
        intro w hw
        refine decide_eq_true (hwords w ?_)
        split_ifs at hw
        · exact List.mem_cons_of_mem _ hw
        · exact hw

/-- A rule ends before the comment, since there is no white space in a domain. -/
theorem exists_caret_comment {rest d : Bytes} (hgap : Blank gap) (hne : gap ≠ []) :
    (∃ raw tail, rest ++ gap ++ 35 :: comment = raw ++ 94 :: tail ∧
        normalizeDomain raw = some d) ↔
      ∃ raw tail, rest = raw ++ 94 :: tail ∧ normalizeDomain raw = some d := by
  constructor
  · rintro ⟨raw, tail, hcut, hraw⟩
    rw [List.append_assoc] at hcut
    obtain ⟨b, gap, rfl⟩ := List.exists_cons_of_ne_nil hne
    have hspace : isSpace b = true := hgap b List.mem_cons_self
    rcases List.append_eq_append_iff.mp hcut with ⟨x, rfl, hx⟩ | ⟨x, rfl, hx⟩
    · cases x with
      | nil =>
        obtain rfl : b = 94 := (List.cons.inj hx).1
        exact absurd hspace (by decide)
      | cons c x =>
        obtain rfl : b = c := (List.cons.inj hx).1
        have hhost : isHostByte b = true := bytes_of_normalizeDomain hraw (by simp)
        rw [isSpace_of_isHostByte hhost] at hspace
        cases hspace
    · cases x with
      | nil =>
        obtain rfl : b = 94 := (List.cons.inj hx).1.symm
        exact absurd hspace (by decide)
      | cons c x =>
        obtain rfl : 94 = c := (List.cons.inj hx).1
        exact ⟨raw, x, rfl, hraw⟩
  · rintro ⟨raw, tail, rfl, hraw⟩
    exact ⟨raw, tail ++ (gap ++ 35 :: comment), by simp, hraw⟩

theorem prefix_bars_iff (hne : text ≠ []) (hgap : Blank gap) (hgap' : gap ≠ [])
    (comment : Bytes) :
    ascii "||" <+: text ++ gap ++ 35 :: comment ↔ ascii "||" <+: text := by
  refine ⟨fun h => ?_, fun h => (List.append_assoc .. ▸ h.trans (List.prefix_append ..))⟩
  rw [List.append_assoc] at h
  rcases List.prefix_or_prefix_of_prefix h (List.prefix_append text _) with hbars | hshort
  · exact hbars
  · -- The line would be a single bar, with a blank behind it.
    obtain ⟨b, text, rfl⟩ := List.exists_cons_of_ne_nil hne
    obtain ⟨c, gap, rfl⟩ := List.exists_cons_of_ne_nil hgap'
    have hspace : isSpace c = true := hgap c List.mem_cons_self
    cases text with
    | nil =>
      obtain ⟨rest, hrest⟩ := h
      obtain rfl : 124 = c := by
        have hsecond := congrArg (·[1]?) hrest
        simpa [ascii] using hsecond
      exact absurd hspace (by decide)
    | cons d text =>
      have hlength := hshort.length_le
      have hnil : text = [] := by simpa [ascii] using hlength
      subst hnil
      exact (hshort.eq_of_length (by simp [ascii])).symm ▸ List.prefix_refl _

/-- A text without white space around it starts with a word. -/
theorem exists_cons_splitWhitespace (hne : text ≠ []) (htrim : trim text = text) :
    ∃ word words, splitWhitespace text = word :: words := by
  obtain ⟨_, _, -, -, -, hfirst, -⟩ := exists_trim text
  obtain ⟨b, rest, rfl⟩ := List.exists_cons_of_ne_nil hne
  have hb : isSpace b = false := hfirst b (by rw [htrim]; rfl)
  obtain ⟨more, words, hwords⟩ := exists_first_word b [] rest
  refine ⟨b :: more, words, ?_⟩
  rw [splitWhitespace, splitWhitespaceLoop, hb]
  exact hwords

/-- The first word of a comment ends the search. -/
theorem takeWhile_comment {offered : List Bytes} (h : ∀ w ∈ offered, w.head? ≠ some 35)
    (more : Bytes) (words : List Bytes) :
    (offered ++ (35 :: more) :: words).takeWhile (fun w => w.head? ≠ some 35) =
      offered.takeWhile fun w => w.head? ≠ some 35 := by
  have hall : ∀ w ∈ offered, decide (w.head? ≠ some 35) = true := fun w hw =>
    decide_eq_true (h w hw)
  rw [List.takeWhile_append_of_pos hall, List.takeWhile_cons_of_neg (by simp), List.append_nil,
    List.takeWhile_eq_self_iff.mpr hall]

/-- The comment adds nothing and takes nothing away, unless it has a mark. -/
theorem mem_trimmedDomains_comment (hne : text ≠ []) (hnumber : 35 ∉ text) (hgap : Blank gap)
    (hgap' : gap ≠ []) (htrim : trim text = text)
    (hmarks : ¬ ∃ mark ∈ ruleMarks, mark <:+: 35 :: comment) {d : Bytes} :
    d ∈ trimmedDomains (text ++ gap ++ 35 :: comment) ↔ d ∈ trimmedDomains text := by
  have hskip : isSkippableLine (text ++ gap ++ 35 :: comment) = isSkippableLine text := by
    rw [Bool.eq_iff_iff, isSkippableLine_comment hne hnumber hgap, isSkippableLine_plain hnumber]
    simp only [hmarks, or_false, hne, false_or]
  have hbars := prefix_bars_iff hne hgap hgap' comment
  by_cases hrule : ascii "||" <+: text
  · obtain ⟨rest, rfl⟩ := hrule
    rw [List.append_assoc, List.append_assoc] at hskip ⊢
    rw [mem_trimmedDomains_rule, mem_trimmedDomains_rule, hskip, ← List.append_assoc,
      exists_caret_comment hgap hgap']
  · cases hcomment : isSkippableLine text with
    | true =>
      rw [trimmedDomains, trimmedDomains, hskip, hcomment]
      rfl
    | false =>
      obtain ⟨more, words, hwords⟩ := exists_first_word 35 [] comment
      have hlast : splitWhitespace (text ++ gap ++ 35 :: comment) =
          splitWhitespace text ++ (35 :: more) :: words := by
        rw [splitWhitespace, splitWhitespaceLoop_append hgap hgap', splitWhitespace, ← hwords]
        rfl
      have hplain := head?_word_ne hnumber
      obtain ⟨word, front, hfront⟩ := exists_cons_splitWhitespace hne htrim
      rw [hfront] at hplain
      rw [hfront, List.cons_append] at hlast
      rw [trimmedDomains_words (hskip.trans hcomment) (fun h => hrule (hbars.mp h)) hlast,
        trimmedDomains_words hcomment hrule hfront]
      by_cases hip : looksLikeIp word = true
      · have hfront' : ∀ w ∈ front, w.head? ≠ some 35 := fun w hw =>
          hplain w (List.mem_cons_of_mem _ hw)
        rw [if_pos hip, if_pos hip, takeWhile_comment hfront']
      · rw [if_neg hip, if_neg hip, ← List.cons_append, takeWhile_comment hplain]

end

/-! ## A line and its comment -/

/-- What a line adds when it is the whole content. -/
theorem mem_parse_line {line : Bytes} (hline : newline ∉ line) {domains : Finset Bytes}
    {d : Bytes} :
    d ∈ parseUpstreamBlocklistContent line domains ↔ d ∈ domains ∨ d ∈ lineDomains line := by
  rw [mem_parse, getLines_line hline]
  cases line with
  | nil =>
    have hnil : lineDomains [] = [] := rfl
    simp [hnil]
  | cons b line => simp

theorem lineDomains_plain {line : Bytes} (hnumber : 35 ∉ line) :
    lineDomains line = (offeredWords line).filterMap normalizeDomain := by
  have htext : 35 ∉ trim line := fun h => hnumber ((mem_trim (by decide)).mp h)
  have hoffered : offeredWords (trim line) = offeredWords line := by
    rw [offeredWords, offeredWords, trim_trim]
  rw [lineDomains_eq, trimmedDomains_plain htext (trim_trim line), hoffered]

/-- A mark lies in a comment as it does in the comment without white space behind it. -/
theorem exists_mark_append {comment w : Bytes} (hw : Blank w) :
    (∃ mark ∈ ruleMarks, mark <:+: 35 :: (comment ++ w)) ↔
      ∃ mark ∈ ruleMarks, mark <:+: 35 :: comment := by
  have hnumber : 35 ∉ w := fun h => absurd (hw 35 h) (by decide)
  have hmark : ∀ mark : Bytes, mark ++ [35] <:+: 35 :: (comment ++ w) ↔
      mark ++ [35] <:+: 35 :: comment := fun mark =>
    ⟨fun h => Marker.infix_of_append_right hnumber h, fun h => h.trans ⟨[], w, rfl⟩⟩
  have hnames : ruleMarks = [[35], ascii "#@", ascii "#?", ascii "#$"].map (· ++ [35]) := by decide
  simp only [hnames, List.mem_map, exists_exists_and_eq_and, hmark]

/-- A line with a comment behind it adds nothing if the comment has a mark in it, and what the line
adds otherwise. -/
theorem mem_lineDomains_comment {line : Bytes} (hnumber : 35 ∉ line) (comment : Bytes)
    {d : Bytes} :
    d ∈ lineDomains (line ++ ascii " #" ++ comment) ↔
      (¬ ∃ mark ∈ ruleMarks, mark <:+: 35 :: comment) ∧ d ∈ lineDomains line := by
  obtain ⟨w, w', hline, hw, hw', hfirst, -⟩ := exists_trim line
  obtain ⟨front, w'', rfl, hw'', hlast⟩ := exists_blank_end_cons (b := 35) (by decide) comment
  rw [exists_mark_append hw'', lineDomains_eq, lineDomains_eq]
  have hmore : line ++ ascii " #" ++ (front ++ w'') =
      w ++ (trim line ++ (w' ++ [32]) ++ 35 :: front ++ w'') := by
    conv_lhs => rw [hline]
    simp [ascii]
  rw [hmore, hw.trim_append, trim_append_blank _ hw'']
  by_cases hempty : trim line = []
  · have hgap : Blank ([] ++ (w' ++ [32])) := hw'.append (by decide)
    have hcomment : trim (35 :: front) = 35 :: front := by
      refine trim_eq_self (fun b hb => ?_) hlast
      obtain rfl : 35 = b := Option.some.inj hb
      decide
    have hskip : isSkippableLine (35 :: front) = true := (isSkippableLine_eq _).mpr (by simp)
    rw [hempty, hgap.trim_append, hcomment, trimmedDomains, hskip]
    exact iff_of_false (by simp) fun h => absurd h.2 (by simp [trimmedDomains, isSkippableLine])
  · have hgap : Blank (w' ++ [32]) := hw'.append (by decide)
    have htext : 35 ∉ trim line := fun h => hnumber ((mem_trim (by decide)).mp h)
    have htrim : trim (trim line ++ (w' ++ [32]) ++ 35 :: front) =
        trim line ++ (w' ++ [32]) ++ 35 :: front := by
      refine trim_eq_self (fun b hb => hfirst b ?_) fun b hb => hlast b ?_
      · rwa [List.append_assoc, List.head?_append_of_ne_nil _ hempty] at hb
      · rwa [List.getLast?_append_of_ne_nil _ (by simp)] at hb
    rw [htrim]
    by_cases hmarks : ∃ mark ∈ ruleMarks, mark <:+: 35 :: front
    · have hskip := (isSkippableLine_comment hempty htext hgap).mpr (.inr hmarks)
      rw [trimmedDomains, hskip]
      exact iff_of_false (by simp) fun h => h.1 hmarks
    · rw [mem_trimmedDomains_comment hempty htext hgap (by simp) (trim_trim line) hmarks]
      simp only [hmarks, not_false_eq_true, true_and]

/-- Behind a line a comment changes nothing exactly if it does not hold the mark of a rule, or if
nothing on the line is a domain. -/
theorem trailing_comment_iff {line comment : Bytes} (hnumber : 35 ∉ line) (hline : newline ∉ line)
    (hcomment : newline ∉ comment) :
    (∀ domains, parseUpstreamBlocklistContent (line ++ ascii " #" ++ comment) domains =
        parseUpstreamBlocklistContent line domains) ↔
      (∀ mark ∈ [ascii "##", ascii "#@#", ascii "#?#", ascii "#$#"], ¬ mark <:+: 35 :: comment) ∨
        ∀ word ∈ offeredWords line, normalizeDomain word = none := by
  have hmore : newline ∉ line ++ ascii " #" ++ comment := by
    have hnumber : newline ∉ ascii " #" := by decide
    simp [hline, hcomment, hnumber]
  have hsame : (∀ domains, parseUpstreamBlocklistContent (line ++ ascii " #" ++ comment) domains =
      parseUpstreamBlocklistContent line domains) ↔
      ∀ d, d ∈ lineDomains (line ++ ascii " #" ++ comment) ↔ d ∈ lineDomains line := by
    constructor
    · intro h d
      have hd := Finset.ext_iff.mp (h ∅) d
      rw [mem_parse_line hmore, mem_parse_line hline] at hd
      simpa using hd
    · intro h domains
      ext d
      rw [mem_parse_line hmore, mem_parse_line hline, h d]
  have hmarks : (∀ mark ∈ [ascii "##", ascii "#@#", ascii "#?#", ascii "#$#"],
      ¬ mark <:+: 35 :: comment) ↔ ¬ ∃ mark ∈ ruleMarks, mark <:+: 35 :: comment := by
    rw [ruleMarks]
    simp only [not_exists, not_and]
  have hnothing : (∀ word ∈ offeredWords line, normalizeDomain word = none) ↔
      ∀ d, d ∉ lineDomains line := by
    rw [lineDomains_plain hnumber, ← List.eq_nil_iff_forall_not_mem, List.filterMap_eq_nil_iff]
  rw [hsame, hmarks, hnothing]
  simp only [mem_lineDomains_comment hnumber]
  by_cases hmark : ∃ mark ∈ ruleMarks, mark <:+: 35 :: comment
  · simp only [hmark, not_true_eq_false, false_and, false_iff, false_or]
  · simp only [hmark, not_false_eq_true, true_and, iff_self, implies_true, true_or]

/-- A host with a comment that is not marked. -/
theorem trailing_comment_example :
    parseUpstreamBlocklistContent
        (ascii "0.0.0.0 ads.example.com" ++ ascii " #" ++ ascii " spam") ∅ =
      parseUpstreamBlocklistContent (ascii "0.0.0.0 ads.example.com") ∅ :=
  (trailing_comment_iff (by decide) (by decide) (by decide)).mpr (.inl (by decide +kernel)) ∅

/-- A second number sign, as in a comment of its own, unblocks the domain in front of it. -/
theorem marked_comment_unblocks :
    parseUpstreamBlocklistContent (ascii "0.0.0.0 ads.example.com") ∅ =
        {ascii "ads.example.com"} ∧
      parseUpstreamBlocklistContent
        (ascii "0.0.0.0 ads.example.com" ++ ascii " #" ++ ascii "# added 2020-01-01") ∅ = ∅ := by
  decide +kernel

end Gravastar
