import Gravastar.Config.BlocklistFiles
import Gravastar.UpstreamBlocklist.AllOrNothing
import Gravastar.UpstreamBlocklist.Formats

/-!
# The generated blocklist

The updater writes one item a line, in order, and the loader reads the file at
the next start. An item with a closing bracket in it ends the array for the
loader, and a final dot that was left in an item is taken off again.
-/

namespace Gravastar

/-! ## Items that a file can hold -/

/-- An item that stays in its quotes and on its line, in lower case. -/
structure FileItem (d : Bytes) : Prop where
  noQuote : quote ∉ d
  noComment : 35 ∉ d
  oneLine : newline ∉ d
  lower : toLower d = d

theorem lowerByte_eq {b c : UInt8} (hb : b = quote ∨ b = 35 ∨ b = newline) (h : lowerByte c = b) :
    c = b := by
  have hbyte : ∀ c, (lowerByte c = quote → c = quote) ∧ (lowerByte c = 35 → c = 35) ∧
      (lowerByte c = newline → c = newline) := by
    apply forall_byte
    decide +kernel
  rcases hb with rfl | rfl | rfl
  · exact (hbyte c).1 h
  · exact (hbyte c).2.1 h
  · exact (hbyte c).2.2 h

theorem notMem_canonicalName {b : UInt8} (hb : b = quote ∨ b = 35 ∨ b = newline) {s : Bytes}
    (h : b ∉ s) : b ∉ canonicalName s := by
  intro hmem
  have hlower : b ∈ toLower s := by
    rw [canonicalName, dropTrailingDot] at hmem
    split_ifs at hmem
    · exact List.mem_of_mem_dropLast hmem
    · exact hmem
  obtain ⟨c, hc, heq⟩ := List.mem_map.mp hlower
  exact h (lowerByte_eq hb heq ▸ hc)

theorem FileItem.of_canonicalName {s : Bytes} (hquote : quote ∉ s) (hcomment : 35 ∉ s)
    (hline : newline ∉ s) : FileItem (canonicalName s) where
  noQuote := notMem_canonicalName (.inl rfl) hquote
  noComment := notMem_canonicalName (.inr (.inl rfl)) hcomment
  oneLine := notMem_canonicalName (.inr (.inr rfl)) hline
  lower := toLower_canonicalName s

theorem CanonicalDomain.fileItem {d : Bytes} (h : CanonicalDomain d) : FileItem d := by
  obtain ⟨labels, rfl, -, hlabels⟩ := h
  have hbytes : ∀ b, isLetter b = false → isDigit b = false → b ≠ 45 → b ≠ dot →
      b ∉ dotJoin labels := by
    intro b hletter hdigit hhyphen hdot hmem
    rcases mem_intercalate hmem with heq | ⟨l, hl, hb⟩
    · exact hdot heq
    · exact (hlabels l hl).1.notMem hletter hdigit hhyphen hb
  refine ⟨hbytes _ rfl rfl (by decide) (by decide), hbytes _ rfl rfl (by decide) (by decide),
    hbytes _ rfl rfl (by decide) (by decide), ?_⟩
  have hmap : labels.map toLower = labels :=
    (List.map_congr_left fun l hl => (hlabels l hl).2).trans (List.map_id _)
  rw [toLower_dotJoin, hmap]

/-! ## What the loader yields -/

theorem newline_notMem_getLinesLoop {cur s : Bytes} (h : newline ∉ cur) :
    ∀ line ∈ getLinesLoop cur s, newline ∉ line := by
  induction s generalizing cur with
  | nil =>
    rw [getLinesLoop]
    split_ifs <;> simp [h]
  | cons b s ih =>
    rw [getLinesLoop]
    split_ifs with hb
    · rintro line (_ | ⟨_, hline⟩)
      · exact h
      · exact ih (by simp) line hline
    · exact ih (by simp [h, Ne.symm hb])

theorem mem_extractQuotedLoop {inQuote : Bool} {current raw item : Bytes}
    (hcurrent : quote ∉ current) (h : item ∈ extractQuotedLoop inQuote current raw) :
    quote ∉ item ∧ ∀ b ∈ item, b ∈ current ∨ b ∈ raw := by
  induction raw generalizing inQuote current with
  | nil => cases h
  | cons c raw ih =>
    rw [extractQuotedLoop] at h
    by_cases hc : c = quote
    · rw [if_pos hc] at h
      cases inQuote with
      | true =>
        rcases List.mem_cons.mp h with rfl | h
        · exact ⟨hcurrent, fun b hb => .inl hb⟩
        · obtain ⟨hquote, hbytes⟩ := ih (by simp) h
          refine ⟨hquote, fun b hb => ?_⟩
          exact .inr (List.mem_cons_of_mem _ ((hbytes b hb).resolve_left (by simp)))
      | false =>
        obtain ⟨hquote, hbytes⟩ := ih hcurrent h
        exact ⟨hquote, fun b hb => (hbytes b hb).imp_right (List.mem_cons_of_mem _)⟩
    · rw [if_neg hc] at h
      have hnext : quote ∉ if inQuote then current ++ [c] else current := by
        split_ifs
        · simp [hcurrent, Ne.symm hc]
        · exact hcurrent
      obtain ⟨hquote, hbytes⟩ := ih hnext h
      refine ⟨hquote, fun b hb => ?_⟩
      rcases hbytes b hb with hmem | hmem
      · split_ifs at hmem
        · rcases List.mem_append.mp hmem with hmem | hmem
          · exact .inl hmem
          · exact .inr (List.mem_singleton.mp hmem ▸ List.mem_cons_self)
        · exact .inl hmem
      · exact .inr (List.mem_cons_of_mem _ hmem)

namespace BlocklistLoader

/-- What the loader has inserted so far can be written. -/
def FileItems (l : BlocklistLoader) : Prop := ∀ d ∈ l.out, FileItem d

variable {l : BlocklistLoader}

theorem FileItems.insertItems (h : l.FileItems) {text : Bytes} (hcomment : 35 ∉ text)
    (hline : newline ∉ text) : (l.insertItems text).FileItems := by
  rw [insertItems_eq]
  intro d hd
  rcases Finset.mem_union.mp hd with hd | hd
  · exact h d hd
  · obtain ⟨item, hitem, rfl⟩ := List.mem_map.mp (List.mem_toFinset.mp hd)
    obtain ⟨hquote, hbytes⟩ := mem_extractQuotedLoop (by simp) hitem
    have htext : ∀ b ∈ item, b ∈ text := fun b hb => (hbytes b hb).resolve_left (by simp)
    exact .of_canonicalName hquote (fun hb => hcomment (htext _ hb)) fun hb => hline (htext _ hb)

theorem FileItems.line (h : l.FileItems) {text : Bytes} (hline : newline ∉ text) :
    (l.line text).FileItems := by
  have hcomment : 35 ∉ stripComment text := by
    intro hmem
    simpa using List.mem_takeWhile_imp hmem
  have hstripped : newline ∉ stripComment text := fun hmem =>
    hline ((List.takeWhile_sublist _).mem hmem)
  cases hin : l.inDomains with
  | true =>
    rw [line_inside hin]
    exact h.insertItems hcomment hstripped
  | false =>
    rw [line_outside hin]
    cases hkey : keyValue (stripComment text) with
    | none => exact h
    | some kv =>
      dsimp only
      split_ifs
      · exact h
      · exact h.insertItems (fun hb => hcomment (mem_of_keyValue hkey hb)) fun hb =>
          hstripped (mem_of_keyValue hkey hb)

end BlocklistLoader

theorem fileItem_of_loadBlocklist {path : Bytes} {file : Option Bytes} {custom : Finset Bytes}
    (h : loadBlocklist path file = .ok custom) : ∀ d ∈ custom, FileItem d := by
  cases file with
  | none => cases h
  | some content =>
    obtain rfl : ((getLines content).foldl BlocklistLoader.line ⟨false, ∅⟩).out = custom :=
      Except.ok.inj h
    have hlines : ∀ line ∈ getLines content, newline ∉ line :=
      newline_notMem_getLinesLoop (by simp)
    have hstart : BlocklistLoader.FileItems ⟨false, ∅⟩ := by simp [BlocklistLoader.FileItems]
    generalize (⟨false, ∅⟩ : BlocklistLoader) = l at hstart
    generalize getLines content = lines at hlines
    change (lines.foldl BlocklistLoader.line l).FileItems
    induction lines generalizing l with
    | nil => exact hstart
    | cons line lines ih =>
      exact ih _ (hstart.line (hlines line List.mem_cons_self)) fun l hl =>
        hlines l (List.mem_cons_of_mem _ hl)

/-- Whatever the sources and the custom file hold, their items can be written. -/
theorem fileItem_of_sources (contents : List Bytes) {u : UpstreamBlocklistUpdater}
    {env : UpdateEnv} {custom : Finset Bytes} (h : u.customDomains env = .ok custom) :
    ∀ d ∈ unionDomains contents ∪ custom, FileItem d := by
  intro d hd
  rcases Finset.mem_union.mp hd with hd | hd
  · obtain ⟨content, -, hd⟩ := mem_unionDomains.mp hd
    obtain ⟨line, -, hd⟩ := mem_domainsOf.mp hd
    exact (canonicalDomain_of_lineDomains hd).fileItem
  · rw [UpstreamBlocklistUpdater.customDomains] at h
    split_ifs at h
    · obtain rfl := Except.ok.inj h
      cases hd
    · exact fileItem_of_loadBlocklist h d hd

/-! ## The written file -/

/-- The line of an item. -/
def itemLine (d : Bytes) : Bytes := ascii "  \"" ++ d ++ ascii "\","

theorem renderBlocklist_eq (domains : Finset Bytes) :
    renderBlocklist domains =
      joinLines (ascii "domains = [" :: (domains.sort (· ≤ ·)).map itemLine ++ [ascii "]"]) := by
  have hopen : ascii "domains = [\n" = ascii "domains = [" ++ [newline] := by decide
  have hitem : ascii "\",\n" = ascii "\"," ++ [newline] := by decide
  have hclose : ascii "]\n" = ascii "]" ++ [newline] := by decide
  rw [renderBlocklist, joinLines, hopen, hitem, hclose, List.flatMap_append, List.flatMap_cons,
    List.flatMap_map, List.flatMap_singleton]
  simp [itemLine]

theorem itemLine_eq (d : Bytes) : itemLine d = ascii "  " ++ (quoted d ++ [44]) := by
  have hopen : ascii "  \"" = ascii "  " ++ [quote] := by decide
  have hclose : ascii "\"," = [quote, 44] := by decide
  rw [itemLine, hopen, hclose]
  simp [quoted]

/-- The items that the loader comes to: those up to the first one with a closing bracket. -/
def readItems : List Bytes → List Bytes
  | [] => []
  | d :: ds => d :: if 93 ∈ d then [] else readItems ds

namespace BlocklistLoader

variable {d : Bytes}

theorem stripComment_itemLine (h : FileItem d) : stripComment (itemLine d) = itemLine d := by
  have hline : 35 ∉ itemLine d := by
    simp [itemLine, h.noComment, ascii]
  simpa [stripComment_comment] using stripComment_append hline []

theorem line_item (h : FileItem d) (out : Finset Bytes) :
    BlocklistLoader.line ⟨true, out⟩ (itemLine d) =
      ⟨!d.contains 93, insert (canonicalName d) out⟩ := by
  have hitems : extractQuotedStrings (itemLine d) = [d] := by
    rw [itemLine_eq, extractQuotedStrings_append (by decide),
      extractQuotedStrings_quoted h.noQuote]
    rfl
  have hbracket : (itemLine d).contains 93 = d.contains 93 := by
    simp [itemLine, ascii]
  rw [line_inside rfl, stripComment_itemLine h, insertItems_eq, hitems, hbracket,
    List.map_singleton, List.toFinset_cons, List.toFinset_nil, Finset.union_insert,
    Finset.union_empty]

/-- Behind the array the line of an item is passed over: its key, if it has one, starts with a
quote. -/
theorem line_item_outside (h : FileItem d) (out : Finset Bytes) :
    BlocklistLoader.line ⟨false, out⟩ (itemLine d) = ⟨false, out⟩ := by
  rw [line_outside rfl, stripComment_itemLine h]
  cases hkey : keyValue (itemLine d) with
  | none => rfl
  | some kv =>
    refine if_pos ?_
    rw [keyValue] at hkey
    split_ifs at hkey with hequals
    obtain ⟨hkey, -⟩ := Prod.mk.inj (Option.some.inj hkey)
    have hstart : (itemLine d).takeWhile (· ≠ 61) =
        ascii "  " ++ quote :: (d ++ ascii "\",").takeWhile (· ≠ 61) := by
      rw [itemLine_eq]
      simp [ascii, quoted, quote]
    obtain ⟨t, ht, -⟩ := trim_cons (b := quote) (by decide)
      ((d ++ ascii "\",").takeWhile (· ≠ 61))
    rw [hstart, (by decide : Blank (ascii "  ")).trim_append, ht] at hkey
    rw [← hkey]
    intro heq
    have hhead : some quote = (ascii "domains").head? := congrArg List.head? heq
    revert hhead
    decide

/-- The lines of the items, from a line inside the array on. -/
theorem foldl_items {ds : List Bytes} (h : ∀ d ∈ ds, FileItem d) (out : Finset Bytes) :
    ((ds.map itemLine).foldl BlocklistLoader.line ⟨true, out⟩).out =
      out ∪ ((readItems ds).map canonicalName).toFinset := by
  induction ds generalizing out with
  | nil => simp [readItems]
  | cons d ds ih =>
    have hrest : ∀ d ∈ ds, FileItem d := fun e he => h e (List.mem_cons_of_mem _ he)
    rw [List.map_cons, List.foldl_cons, line_item (h d List.mem_cons_self), readItems,
      List.map_cons, List.toFinset_cons, Finset.union_insert, ← Finset.insert_union]
    by_cases hbracket : 93 ∈ d
    · have houtside : ∀ out : Finset Bytes,
          (ds.map itemLine).foldl BlocklistLoader.line ⟨false, out⟩ = ⟨false, out⟩ := by
        intro out
        clear ih h
        induction ds with
        | nil => rfl
        | cons e ds ih =>
          rw [List.map_cons, List.foldl_cons, line_item_outside (hrest e List.mem_cons_self)]
          exact ih fun d hd => hrest d (List.mem_cons_of_mem _ hd)
      have hcontains : d.contains 93 = true := by simpa using hbracket
      rw [if_pos hbracket, hcontains, Bool.not_true, houtside]
      simp
    · have hcontains : d.contains 93 = false := by simpa using hbracket
      rw [if_neg hbracket, hcontains, Bool.not_false, ih hrest]

end BlocklistLoader

theorem loadBlocklist_renderBlocklist (path : Bytes) {domains : Finset Bytes}
    (h : ∀ d ∈ domains, FileItem d) :
    loadBlocklist path (some (renderBlocklist domains)) =
      .ok ((readItems (domains.sort (· ≤ ·))).map canonicalName).toFinset := by
  have hitems : ∀ d ∈ domains.sort (· ≤ ·), FileItem d := fun d hd => h d (by simpa using hd)
  have hlines : ∀ line ∈ ascii "domains = [" :: (domains.sort (· ≤ ·)).map itemLine ++ [ascii "]"],
      newline ∉ line := by
    simp only [List.cons_append, List.mem_cons, List.mem_append, List.mem_map, List.not_mem_nil,
      or_false]
    rintro line (rfl | ⟨d, hd, rfl⟩ | rfl)
    · decide
    · have hopen : newline ∉ ascii "  \"" := by decide
      have hclose : newline ∉ ascii "\"," := by decide
      simp [itemLine, (hitems d hd).oneLine, hopen, hclose]
    · decide
  have hload : ∀ content, loadBlocklist path (some content) =
      .ok ((getLines content).foldl BlocklistLoader.line ⟨false, ∅⟩).out := fun _ => rfl
  have hfirst : BlocklistLoader.line ⟨false, ∅⟩ (ascii "domains = [") = ⟨true, ∅⟩ := by decide
  have hlast : ∀ l : BlocklistLoader, (l.line (ascii "]")).out = l.out := by
    rintro ⟨_ | _, out⟩
    · rfl
    · have hclose := BlocklistLoader.line_inside (l := ⟨true, out⟩) rfl (ascii "]")
      rw [hclose]
      rfl
  rw [hload, renderBlocklist_eq, getLines_joinLines hlines, List.cons_append, List.foldl_cons,
    hfirst, List.foldl_append, List.foldl_cons, List.foldl_nil, hlast,
    BlocklistLoader.foldl_items hitems, Finset.empty_union]

/-! ## When the file reads back -/

/-- A map that makes every element that it moves smaller permutes a finite set only if it moves
nothing. -/
theorem image_eq_self_iff {α : Type} [DecidableEq α] {f : α → α} {size : α → Nat} {s : Finset α}
    (hsmaller : ∀ a ∈ s, f a = a ∨ size (f a) < size a) :
    s.image f = s ↔ ∀ a ∈ s, f a = a := by
  constructor
  · intro himage
    by_contra hmoved
    have hne : (s.filter fun a => f a ≠ a).Nonempty := by
      obtain ⟨a, ha⟩ := not_forall.mp hmoved
      obtain ⟨ha, hmove⟩ := Classical.not_imp.mp ha
      exact ⟨a, Finset.mem_filter.mpr ⟨ha, hmove⟩⟩
    -- The largest element that is moved is the image of a larger one, which is moved too.
    obtain ⟨b, hb, hmax⟩ := Finset.exists_max_image _ size hne
    obtain ⟨hb, hmove⟩ := Finset.mem_filter.mp hb
    obtain ⟨a, ha, rfl⟩ := Finset.mem_image.mp (himage.symm ▸ hb)
    have hmove' : f a ≠ a := fun heq => hmove (congrArg f heq)
    have hle := hmax a (Finset.mem_filter.mpr ⟨ha, hmove'⟩)
    exact absurd ((hsmaller a ha).resolve_left hmove') (not_lt.mpr hle)
  · intro hfixed
    rw [Finset.image_congr (fun a ha => hfixed a ha), Finset.image_id']

theorem readItems_sublist (ds : List Bytes) : (readItems ds).Sublist ds := by
  induction ds with
  | nil => exact List.Sublist.refl _
  | cons d ds ih =>
    rw [readItems]
    split_ifs
    · exact (List.nil_sublist ds).cons_cons d
    · exact ih.cons_cons d

/-- The loader comes to every item exactly if only the last one may have a closing bracket. -/
theorem readItems_eq_self_iff {ds : List Bytes} (hsorted : ds.Pairwise fun a b => a ≤ b ∧ a ≠ b) :
    readItems ds = ds ↔ ∀ d ∈ ds, 93 ∈ d → ∀ d' ∈ ds, d' ≤ d := by
  induction ds with
  | nil => simp [readItems]
  | cons d ds ih =>
    obtain ⟨hfirst, hrest⟩ := List.pairwise_cons.mp hsorted
    rw [readItems, List.cons_inj_right]
    constructor
    · intro heq e he hbracket e' he'
      split_ifs at heq with hd
      · obtain rfl := heq
        obtain rfl := List.mem_singleton.mp he
        obtain rfl := List.mem_singleton.mp he'
        exact List.le_refl _
      · have hmem : e ∈ ds := (List.mem_cons.mp he).resolve_left fun h => hd (h ▸ hbracket)
        rcases List.mem_cons.mp he' with rfl | he'
        · exact (hfirst e hmem).1
        · exact (ih hrest).mp heq e hmem hbracket e' he'
    · intro hlast
      split_ifs with hd
      · rw [eq_comm, List.eq_nil_iff_forall_not_mem]
        intro e he
        obtain ⟨hle, hne⟩ := hfirst e he
        have hge := hlast d List.mem_cons_self hd e (List.mem_cons_of_mem _ he)
        exact hne (List.le_antisymm hle hge)
      · refine (ih hrest).mpr fun e he hbracket e' he' => ?_
        exact hlast e (List.mem_cons_of_mem _ he) hbracket e' (List.mem_cons_of_mem _ he')

theorem canonicalName_fileItem {d : Bytes} (h : FileItem d) :
    canonicalName d = d ∨ (canonicalName d).length < d.length := by
  rw [canonicalName, h.lower, dropTrailingDot]
  split_ifs with hdot
  · obtain ⟨front, rfl⟩ := List.getLast?_eq_some_iff.mp hdot
    exact .inr (by simp)
  · exact .inl rfl

theorem canonicalName_eq_self_iff {d : Bytes} (h : FileItem d) :
    canonicalName d = d ↔ d.getLast? ≠ some dot := by
  rw [canonicalName, h.lower, dropTrailingDot]
  split_ifs with hdot
  · obtain ⟨front, rfl⟩ := List.getLast?_eq_some_iff.mp hdot
    refine iff_of_false (fun heq => ?_) fun hne => hne hdot
    simpa using congrArg List.length heq
  · exact iff_of_true rfl hdot

/-- The set comes back exactly if no item ends in a dot and only the last item in order may have a
closing bracket. -/
theorem reads_back_iff {domains : Finset Bytes} (h : ∀ d ∈ domains, FileItem d) :
    ((readItems (domains.sort (· ≤ ·))).map canonicalName).toFinset = domains ↔
      (∀ d ∈ domains, d.getLast? ≠ some dot) ∧
        ∀ d ∈ domains, 93 ∈ d → ∀ d' ∈ domains, d' ≤ d := by
  have hsorted : (domains.sort (· ≤ ·)).Pairwise fun a b => a ≤ b ∧ a ≠ b :=
    (Finset.pairwise_sort domains (· ≤ ·)).and (Finset.sort_nodup domains (· ≤ ·))
  have hall := readItems_eq_self_iff hsorted
  simp only [Finset.mem_sort] at hall
  have himage : ((domains.sort (· ≤ ·)).map canonicalName).toFinset =
      domains.image canonicalName := by
    ext d
    simp
  have hfixed := image_eq_self_iff (s := domains) fun d hd => canonicalName_fileItem (h d hd)
  constructor
  · intro heq
    -- As many items as the set has are read, so all of them are.
    have hcount : domains.card ≤ (readItems (domains.sort (· ≤ ·))).length := by
      calc domains.card
          = ((readItems (domains.sort (· ≤ ·))).map canonicalName).toFinset.card := by rw [heq]
        _ ≤ ((readItems (domains.sort (· ≤ ·))).map canonicalName).length := List.toFinset_card_le _
        _ = (readItems (domains.sort (· ≤ ·))).length := List.length_map _
    have hread : readItems (domains.sort (· ≤ ·)) = domains.sort (· ≤ ·) :=
      (readItems_sublist _).eq_of_length_le (by simpa using hcount)
    rw [hread, himage] at heq
    exact ⟨fun d hd => (canonicalName_eq_self_iff (h d hd)).mp (hfixed.mp heq d hd), hall.mp hread⟩
  · rintro ⟨hdots, hbrackets⟩
    rw [hall.mpr hbrackets, himage]
    exact hfixed.mpr fun d hd => (canonicalName_eq_self_iff (h d hd)).mpr (hdots d hd)

/-- What the updater writes, from any sources and any custom file, is read back as it was exactly if
no item ends in a dot and only the last item in order may have a closing bracket. -/
theorem generated_blocklist_reads_back_iff (contents : List Bytes) (u : UpstreamBlocklistUpdater)
    (env : UpdateEnv) {custom : Finset Bytes} (hcustom : u.customDomains env = .ok custom)
    (disk : Disk) (path : Bytes) :
    loadBlocklist path
        ((writeBlocklistToml disk path (unionDomains contents ∪ custom) true true).2 path) =
        .ok (unionDomains contents ∪ custom) ↔
      (∀ d ∈ unionDomains contents ∪ custom, d.getLast? ≠ some dot) ∧
        ∀ d ∈ unionDomains contents ∪ custom, 93 ∈ d →
          ∀ d' ∈ unionDomains contents ∪ custom, d' ≤ d := by
  have hitems := fileItem_of_sources contents hcustom
  generalize unionDomains contents ∪ custom = domains at hitems ⊢
  have hwritten : (writeBlocklistToml disk path domains true true).2 path =
      some (renderBlocklist domains) := by
    simp [writeBlocklistToml, writeFile, rename]
  rw [hwritten, loadBlocklist_renderBlocklist path hitems, ← reads_back_iff hitems]
  exact ⟨Except.ok.inj, congrArg Except.ok⟩

/-- An updater with a custom file. -/
def customUpdater : UpstreamBlocklistUpdater where
  urls := [ascii "https://example.com/hosts.txt"]
  cacheDir := ascii "/var/gravastar"
  customBlocklistPath := ascii "/etc/gravastar/blocklist.toml"
  outputPath := ascii "/var/gravastar/blocklist.generated.toml"

def withCustomFile (content : Bytes) : UpdateEnv where
  cacheDir := ⟨true, false, false⟩
  cacheDirAgain := ⟨true, false, false⟩
  fetches := fun _ => ⟨.completed 200 [], true, true⟩
  customFile := some content
  tmpOpens := true
  renames := true

theorem generated_blocklist_reads_back_plain :
    loadBlocklist (ascii "blocklist.generated.toml")
        ((writeBlocklistToml (fun _ => none) (ascii "blocklist.generated.toml")
          (unionDomains [ascii "0.0.0.0 ads.example.com\n"] ∪ {ascii "tracker.example"})
          true true).2 (ascii "blocklist.generated.toml")) =
      .ok (unionDomains [ascii "0.0.0.0 ads.example.com\n"] ∪ {ascii "tracker.example"}) :=
  (generated_blocklist_reads_back_iff [ascii "0.0.0.0 ads.example.com\n"] customUpdater
    (withCustomFile (ascii "domains = [\"Tracker.example.\"]\n")) (by decide +kernel) _ _).mpr
    ⟨by decide +kernel, by decide +kernel⟩

/-- A bracket in an item hides the items behind it. Of two final dots one is taken off when the
custom file is read, and the other one when the generated file is. -/
theorem generated_blocklist_loses_items :
    let bracketed : Finset Bytes := {ascii "tracker.example", ascii "a]b.example"}
    let dotted : Finset Bytes := {ascii "ads.example."}
    customUpdater.customDomains
        (withCustomFile (ascii "domains = [\"a]b.example\", \"tracker.example\"]\n")) =
        .ok bracketed ∧
      loadBlocklist customUpdater.outputPath (some (renderBlocklist bracketed)) ≠ .ok bracketed ∧
      customUpdater.customDomains (withCustomFile (ascii "domains = [\"ads.example..\"]\n")) =
        .ok dotted ∧
      loadBlocklist customUpdater.outputPath (some (renderBlocklist dotted)) ≠ .ok dotted := by
  intro bracketed dotted
  have hbracketed : customUpdater.customDomains
      (withCustomFile (ascii "domains = [\"a]b.example\", \"tracker.example\"]\n")) =
      .ok bracketed := by decide +kernel
  have hdotted : customUpdater.customDomains
      (withCustomFile (ascii "domains = [\"ads.example..\"]\n")) = .ok dotted := by decide +kernel
  have hlost : ∀ {env : UpdateEnv} {custom : Finset Bytes},
      customUpdater.customDomains env = .ok custom →
      loadBlocklist customUpdater.outputPath (some (renderBlocklist custom)) = .ok custom →
      (∀ d ∈ custom, d.getLast? ≠ some dot) ∧ ∀ d ∈ custom, 93 ∈ d → ∀ d' ∈ custom, d' ≤ d := by
    intro env custom hcustom hread
    have hitems : ∀ d ∈ custom, FileItem d := fun d hd =>
      fileItem_of_sources [] hcustom d (Finset.mem_union_right _ hd)
    rw [loadBlocklist_renderBlocklist _ hitems] at hread
    exact (reads_back_iff hitems).mp (Except.ok.inj hread)
  refine ⟨hbracketed, fun hread => ?_, hdotted, fun hread => ?_⟩
  · have hlast := (hlost hbracketed hread).2 (ascii "a]b.example") (by decide +kernel) (by decide)
      (ascii "tracker.example") (by decide +kernel)
    revert hlast
    decide +kernel
  · exact (hlost hdotted hread).1 (ascii "ads.example.") (by decide +kernel) (by decide)

end Gravastar
