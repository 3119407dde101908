import Gravastar.Config.MainConfig
import Gravastar.Numerals

/-!
# Numbers in configuration files

A number that is written in a file should be the one that is used, and refused
where the field cannot hold it. `strtoul` and the casts behind it take more.
-/

namespace Gravastar

/-! ## `strtoul` -/

/-- What `strtoul` makes of a number. -/
def ulongValue (sign digits : Bytes) : UInt64 :=
  if digitsValue digits ≥ 2 ^ 64 then UInt64.ofNat (2 ^ 64 - 1)
  else if sign = [45] then -UInt64.ofNat (digitsValue digits)
  else UInt64.ofNat (digitsValue digits)

section
variable {text sign digits rest : Bytes}

theorem strtoul_eq (s : Bytes) :
    strtoul s =
      if (dropSign s).takeWhile isDigit = [] then none
      else some (if digitsValue ((dropSign s).takeWhile isDigit) ≥ 2 ^ 64 then
          UInt64.ofNat (2 ^ 64 - 1)
        else if s.head? = some 45 then -UInt64.ofNat (digitsValue ((dropSign s).takeWhile isDigit))
        else UInt64.ofNat (digitsValue ((dropSign s).takeWhile isDigit)),
        (dropSign s).dropWhile isDigit) := by
  rw [strtoul]
  simp only [List.isEmpty_iff, dropSign]
  split_ifs <;> rfl

theorem strtoul_cut (h : NumberCut text sign digits rest) :
    strtoul text = some (ulongValue sign digits, rest) := by
  rw [strtoul_eq, h.takeWhile_eq, h.dropWhile_eq, if_neg h.digits_ne, ulongValue]
  simp only [h.head?_eq_minus]

/-- A number is parsed if it ends with the text, or a zero byte follows. -/
theorem parseInteger_cut (h : NumberCut text sign digits rest) (htrim : trim text = text)
    (hrest : rest = [] ∨ rest.head? = some 0) :
    parseInteger text = some (ulongValue sign digits) := by
  have hne : text.isEmpty = false := by
    obtain ⟨b, tail, rfl, -⟩ := h.exists_digit
    simp [h.text_eq]
  rw [parseInteger, htrim, hne, strtoul_cut h]
  exact if_pos hrest

theorem exists_cut_of_parseInteger (htrim : trim text = text) (h : (parseInteger text).isSome) :
    ∃ sign digits rest, NumberCut text sign digits rest ∧ (rest = [] ∨ rest.head? = some 0) := by
  by_cases hdigits : (dropSign text).takeWhile isDigit = []
  · rw [parseInteger, htrim, strtoul_eq, if_pos hdigits] at h
    dsimp only at h
    split_ifs at h <;> cases h
  · obtain ⟨sign, hcut⟩ := exists_numberCut hdigits
    refine ⟨sign, _, _, hcut, ?_⟩
    rw [parseInteger, htrim, strtoul_cut hcut] at h
    dsimp only at h
    split_ifs at h with hempty hrest
    · cases h
    · exact hrest
    · cases h

/-- What stands behind a number that `strtoul` ends at does not go on with a digit. -/
theorem NumberCut.append {number : Bytes} (h : NumberCut number sign digits [])
    (htext : text = number ++ rest) (hrest : rest = [] ∨ rest.head? = some 0) :
    NumberCut text sign digits rest := by
  refine ⟨?_, h.sign_mem, h.digits_ne, h.isDigit_of_mem, ?_⟩
  · rw [htext, h.text_eq, List.append_nil]
  · rcases hrest with rfl | hzero
    · simp
    · intro b hb
      rw [hzero] at hb
      obtain rfl : 0 = b := Option.some.inj hb
      decide

theorem NumberCut.tight (h : NumberCut text sign digits rest) (htrim : trim text = text) :
    Tight text := by
  obtain ⟨_, _, -, -, -, hfirst, hlast⟩ := exists_trim text
  rw [htrim] at hfirst hlast
  obtain ⟨b, tail, rfl, -⟩ := h.exists_digit
  exact .of_ends (by simp [h.text_eq]) hfirst hlast

theorem numberValue_nonneg (h : 0 ≤ numberValue sign digits) :
    numberValue sign digits = digitsValue digits ∧ (sign = [45] → digitsValue digits = 0) := by
  rw [numberValue] at h ⊢
  split_ifs at h ⊢ with hminus
  · omega
  · exact ⟨rfl, fun heq => absurd heq hminus⟩

/-- A number that is not negative and fits is not changed. -/
theorem ulongValue_eq (h : 0 ≤ numberValue sign digits) (hlt : digitsValue digits < 2 ^ 64) :
    ulongValue sign digits = UInt64.ofNat (digitsValue digits) := by
  have hzero := (numberValue_nonneg h).2
  rw [ulongValue, if_neg (by omega)]
  split_ifs with hminus
  · rw [hzero hminus]
    rfl
  · rfl

end

/-! ## Settings with a number -/

theorem exists_of_map_ok {ε α β : Type} {x : Except ε α} {f : α → β} {b : β}
    (h : x.map f = .ok b) : ∃ a, x = .ok a ∧ f a = b := by
  cases x with
  | error e => cases h
  | ok a => exact ⟨a, rfl, Except.ok.inj h⟩

/-- A text that a line can have as its value. -/
def ValueText (text : Bytes) : Prop :=
  ∃ line key, newline ∉ line ∧ keyValue (trim (stripComment line)) = some (key, text)

/-- A loader, the values that a file has for one key, the field that holds the number, what it
should hold, and how many values it can take. -/
structure NumberSetting (Config : Type) where
  load : Bytes → Option Bytes → Except Bytes Config
  texts : Bytes → List Bytes
  field : Config → Nat
  exact : Nat → Nat
  size : Nat

def cacheSizeMb : NumberSetting MainConfig where
  load := loadMainConfig
  texts content := Settings.values (ascii "cache_size_mb") (MainConfig.settings (getLines content))
  field out := out.cacheSizeBytes.toNat
  exact v := v * 1048576
  size := 2 ^ 64

def cacheTtlSec : NumberSetting MainConfig where
  load := loadMainConfig
  texts content := Settings.values (ascii "cache_ttl_sec") (MainConfig.settings (getLines content))
  field out := out.cacheTtlSec.toNat
  exact v := v
  size := 2 ^ 32

def updateIntervalSec : NumberSetting UpstreamBlocklistConfig where
  load := loadUpstreamBlocklistConfig
  texts content := Settings.values (ascii "update_interval_sec")
    (UpstreamBlocklistConfig.settings (getLines content))
  field out := out.updateIntervalSec.toNat
  exact v := if v = 0 then 3600 else v
  size := 2 ^ 32

namespace NumberSetting

variable {Config : Type} (setting : NumberSetting Config)

/-- In every file with this text, it is a number and in the end the field holds that number, or the
file is refused; and the file is refused if the number is negative or does not fit. -/
def ExactOrRefused (text : Bytes) : Prop :=
  ∀ path content, text ∈ setting.texts content →
    (∀ out, setting.load path (some content) = .ok out → ∃ v : Nat, Denotes text v ∧
      ((setting.texts content).getLast? = some text → setting.field out = setting.exact v)) ∧
    ∀ z, Denotes text z → z < 0 ∨ setting.size ≤ setting.exact z.toNat →
      ∃ err, setting.load path (some content) = .error err

/-- If there is a number in front of the text, and nothing or a zero byte behind it, then it is all
of the text, it is not negative and it fits. -/
def Fits (text : Bytes) : Prop :=
  ∀ number rest z, text = number ++ rest → Denotes number z → rest = [] ∨ rest.head? = some 0 →
    rest = [] ∧ 0 ≤ z ∧ setting.exact z.toNat < setting.size

/-- What the loader does with the texts. -/
structure Reads (stored : UInt64 → Nat) : Prop where
  parsed : ∀ path content out, setting.load path (some content) = .ok out →
    ∀ text ∈ setting.texts content, (parseInteger text).isSome
  last : ∀ path content out text, setting.load path (some content) = .ok out →
    (setting.texts content).getLast? = some text →
      (parseInteger text).map stored = some (setting.field out)
  alone : ∀ text, Tight text → newline ∉ text → 35 ∉ text → (parseInteger text).isSome →
    ∃ content out, setting.load [] (some content) = .ok out ∧ setting.texts content = [text]
  stored_eq : ∀ v, setting.exact v < setting.size →
    v < 2 ^ 64 ∧ stored (UInt64.ofNat v) = setting.exact v

variable {setting} {stored : UInt64 → Nat} {text : Bytes}

theorem fits_of_cut {digits : Bytes} (hcut : NumberCut text [] digits [])
    (hsize : setting.exact (digitsValue digits) < setting.size) : setting.Fits text := by
  intro number rest z htext hz hrest
  obtain ⟨sign', digits', hnumber, rfl⟩ := hz
  obtain ⟨rfl, rfl, rfl⟩ := hcut.unique (hnumber.append htext hrest)
  exact ⟨rfl, Int.natCast_nonneg _, hsize⟩

/-- Of a text that fits, the field holds the number. -/
theorem Reads.exactOrRefused (h : setting.Reads stored) (htrim : trim text = text)
    (hfits : setting.Fits text) : setting.ExactOrRefused text := by
  intro path content hmem
  constructor
  · intro out hload
    obtain ⟨sign, digits, rest, hcut, hrest⟩ :=
      exists_cut_of_parseInteger htrim (h.parsed path content out hload text hmem)
    obtain ⟨rfl, hnonneg, hlt⟩ := hfits (sign ++ digits) rest _ hcut.text_eq
      ⟨sign, digits, hcut.number, rfl⟩ hrest
    have hvalue := (numberValue_nonneg hnonneg).1
    rw [hvalue, Int.toNat_natCast] at hlt
    obtain ⟨hsmall, hstored⟩ := h.stored_eq (digitsValue digits) hlt
    refine ⟨digitsValue digits, ⟨sign, digits, hcut, hvalue.symm⟩, fun hlast => ?_⟩
    have hfield := h.last path content out text hload hlast
    rw [parseInteger_cut hcut htrim hrest, ulongValue_eq hnonneg hsmall, Option.map_some,
      hstored] at hfield
    exact (Option.some.inj hfield).symm
  · intro z hz hbad
    obtain ⟨-, hnonneg, hlt⟩ := hfits text [] z (List.append_nil text).symm hz (.inl rfl)
    omega

/-- A text that does not fit is taken when it stands alone. -/
theorem Reads.fits (h : setting.Reads stored) (htrim : trim text = text) (hline : newline ∉ text)
    (hcomment : 35 ∉ text) (hexact : setting.ExactOrRefused text) : setting.Fits text := by
  intro number rest z htext hz hrest
  obtain ⟨sign, digits, hnumber, rfl⟩ := hz
  have hcut : NumberCut text sign digits rest := hnumber.append htext hrest
  have hparsed : (parseInteger text).isSome := by
    rw [parseInteger_cut hcut htrim hrest]
    rfl
  obtain ⟨content, out, hload, htexts⟩ := h.alone text (hcut.tight htrim) hline hcomment hparsed
  obtain ⟨htaken, hrefused⟩ := hexact [] content (htexts ▸ List.mem_singleton_self text)
  obtain ⟨v, ⟨sign', digits', hcut', hv⟩, -⟩ := htaken out hload
  obtain ⟨rfl, rfl, rfl⟩ := hcut.unique hcut'
  refine ⟨rfl, hv ▸ Int.natCast_nonneg v, ?_⟩
  by_contra hlarge
  obtain ⟨err, herr⟩ := hrefused _ ⟨sign, digits, hcut, rfl⟩ (.inr (Nat.le_of_not_lt hlarge))
  rw [hload] at herr
  cases herr

/-- A number that is negative or too large is not refused. -/
theorem Reads.not_exactOrRefused (h : setting.Reads stored) (htrim : trim text = text)
    (hline : newline ∉ text) (hcomment : 35 ∉ text) {z : Int} (hz : Denotes text z)
    (hbad : z < 0 ∨ setting.size ≤ setting.exact z.toNat) : ¬ setting.ExactOrRefused text := by
  intro hexact
  have hfits := h.fits htrim hline hcomment hexact
  obtain ⟨-, hnonneg, hlt⟩ := hfits text [] z (List.append_nil text).symm hz (.inl rfl)
  omega

/-- A loader that runs over settings, one of which is parsed into the field. -/
theorem Reads.of_run {σ α : Type} {set : σ → Bytes × Bytes → Except Bytes σ} {key : Bytes}
    {settings : List Bytes → List (Bytes × Bytes)} {start : σ} {finish : σ → Config}
    {store : UInt64 → α} {get : σ → α} {put : σ → UInt64 → σ} {err : Bytes} (view : α → Nat)
    (hkey : PlainKey key)
    (hload : ∀ path content, setting.load path (some content) =
      (Settings.run set start (settings (getLines content))).map finish)
    (htexts : ∀ content, setting.texts content = Settings.values key (settings (getLines content)))
    (hsettings : ∀ line value, keyValue (trim (stripComment line)) = some (key, value) →
      settings [line] = [(key, value)])
    (hset : ∀ s value, set s (key, value) =
      (parseInteger value).elim (.error err) fun v => .ok (put s v))
    (hfield : Settings.Field set key (fun value => (parseInteger value).map store) get)
    (hview : ∀ s, setting.field (finish s) = view (get s))
    (hstored : ∀ v, setting.exact v < setting.size →
      v < 2 ^ 64 ∧ view (store (UInt64.ofNat v)) = setting.exact v) :
    setting.Reads (fun v => view (store v)) where
  parsed path content out h text htext := by
    rw [hload] at h
    obtain ⟨s, hrun, -⟩ := exists_of_map_ok h
    rw [htexts] at htext
    simpa using hfield.isSome_of_run hrun text htext
  last path content out text h hlast := by
    rw [hload] at h
    obtain ⟨s, hrun, rfl⟩ := exists_of_map_ok h
    rw [htexts] at hlast
    have hget := congrArg (Option.map view) (hfield.get_of_last hrun hlast)
    rw [Option.map_map, Option.map_some, ← hview] at hget
    exact hget
  alone text htight hline hcomment hparsed := by
    obtain ⟨v, hv⟩ := Option.isSome_iff_exists.mp hparsed
    have hread : keyValue (trim (stripComment (keyLine key text))) = some (key, text) := by
      simpa using (keyLine_read hkey htight hcomment .empty).2
    have hnewline : newline ∉ keyLine key text := notMem_keyLine hkey (.inr rfl) hline
    have hlines : getLines (keyLine key text) = [keyLine key text] := by
      rw [getLines_line hnewline, (tight_keyLine hkey htight).isEmpty_eq]
      rfl
    have hpairs : settings (getLines (keyLine key text)) = [(key, text)] := by
      rw [hlines, hsettings _ _ hread]
    have hput : set start (key, text) = .ok (put start v) := by
      rw [hset, hv]
      rfl
    refine ⟨keyLine key text, finish (put start v), ?_, ?_⟩
    · rw [hload, hpairs, Settings.run_cons_ok hput]
      rfl
    · rw [htexts, hpairs]
      exact Settings.values_cons_self key text []
  stored_eq := hstored

end NumberSetting

theorem loadMainConfig_eq_run (path content : Bytes) :
    loadMainConfig path (some content) =
      (Settings.run MainConfig.set {} (MainConfig.settings (getLines content))).map id := by
  rw [← MainConfig.lines_eq_run, Except.map_id]
  rfl

/-- The end of `LoadUpstreamBlocklistConfig`. -/
def UpstreamBlocklistConfig.withInterval (out : UpstreamBlocklistConfig) :
    UpstreamBlocklistConfig :=
  if out.updateIntervalSec = 0 then { out with updateIntervalSec := 3600 } else out

theorem loadUpstreamBlocklistConfig_eq_run (path content : Bytes) :
    loadUpstreamBlocklistConfig path (some content) =
      (Settings.run UpstreamBlocklistConfig.set ⟨[], 3600, ascii "/var/gravastar"⟩
        (UpstreamBlocklistConfig.settings (getLines content))).map
          UpstreamBlocklistConfig.withInterval := by
  rw [← UpstreamBlocklistConfig.lines_eq_run]
  rfl

theorem mainConfig_settings_line {line key value : Bytes}
    (h : keyValue (trim (stripComment line)) = some (key, value)) :
    MainConfig.settings [line] = [(key, value)] := by
  simp [MainConfig.settings, h]

theorem reads_cacheSizeMb : cacheSizeMb.Reads fun v => (v * 1024 * 1024).toNat := by
  refine .of_run UInt64.toNat (by decide) loadMainConfig_eq_run (fun content => rfl)
    (fun line value => mainConfig_settings_line) MainConfig.set_cacheSizeMb
    MainConfig.field_cacheSizeBytes (fun s => rfl) fun v hv => ?_
  have hlt : v * 1048576 < 2 ^ 64 := hv
  refine ⟨by omega, ?_⟩
  change (UInt64.ofNat v * 1024 * 1024).toNat = v * 1048576
  simp only [UInt64.toNat_mul, UInt64.toNat_ofNat', UInt64.reduceToNat]
  omega

theorem toNat_toUInt32_ofNat {v : Nat} (h : v < 2 ^ 32) : (UInt64.ofNat v).toUInt32.toNat = v := by
  rw [UInt64.toNat_toUInt32, UInt64.toNat_ofNat', Nat.mod_eq_of_lt (by omega : v < 2 ^ 64)]
  exact Nat.mod_eq_of_lt h

theorem reads_cacheTtlSec : cacheTtlSec.Reads fun v => v.toUInt32.toNat := by
  refine .of_run UInt32.toNat (by decide) loadMainConfig_eq_run (fun content => rfl)
    (fun line value => mainConfig_settings_line) MainConfig.set_cacheTtlSec
    MainConfig.field_cacheTtlSec (fun s => rfl) fun v hv => ?_
  have hlt : v < 2 ^ 32 := hv
  refine ⟨by omega, ?_⟩
  exact toNat_toUInt32_ofNat hlt

theorem reads_updateIntervalSec : updateIntervalSec.Reads fun v =>
    if v.toUInt32 = 0 then 3600 else v.toUInt32.toNat := by
  refine .of_run (fun n : UInt32 => if n = 0 then 3600 else n.toNat) (by decide)
    loadUpstreamBlocklistConfig_eq_run (fun content => rfl) (fun line value h => ?_)
    UpstreamBlocklistConfig.set_updateIntervalSec UpstreamBlocklistConfig.field_updateIntervalSec
    (fun s => ?_) fun v hv => ?_
  · rw [UpstreamBlocklistConfig.settings_plain [] h (by decide), UpstreamBlocklistConfig.settings]
  · change s.withInterval.updateIntervalSec.toNat = _
    rw [UpstreamBlocklistConfig.withInterval]
    split_ifs <;> rfl
  · have hexact : (if v = 0 then 3600 else v) < 2 ^ 32 := hv
    have hlt : v < 2 ^ 32 := by
      split_ifs at hexact <;> omega
    have hvalue : (UInt64.ofNat v).toUInt32.toNat = v := toNat_toUInt32_ofNat hlt
    have hzero : (UInt64.ofNat v).toUInt32 = 0 ↔ v = 0 := by
      rw [← UInt32.toNat_inj, hvalue]
      rfl
    refine ⟨by omega, ?_⟩
    change (if (UInt64.ofNat v).toUInt32 = 0 then 3600 else (UInt64.ofNat v).toUInt32.toNat) =
      if v = 0 then 3600 else v
    simp only [hzero, hvalue]

/-! ## All three numbers -/

theorem ValueText.clean {text : Bytes} (h : ValueText text) :
    trim text = text ∧ newline ∉ text ∧ 35 ∉ text := by
  obtain ⟨line, key, hline, hvalue⟩ := h
  rw [keyValue_trim] at hvalue
  have hcomment : 35 ∉ stripComment line := fun hmem => by
    simpa using List.mem_takeWhile_imp hmem
  have hstripped : newline ∉ stripComment line := fun hmem =>
    hline ((List.takeWhile_sublist _).mem hmem)
  exact ⟨trim_of_keyValue hvalue, fun hb => hstripped (mem_of_keyValue hvalue hb),
    fun hb => hcomment (mem_of_keyValue hvalue hb)⟩

/-- The numbers are taken exactly or refused for those texts that either have no number in front,
or hold a number that fits and nothing else. -/
theorem config_numbers_exact_iff {text : Bytes} (h : ValueText text) :
    (cacheSizeMb.ExactOrRefused text ↔ cacheSizeMb.Fits text) ∧
      (cacheTtlSec.ExactOrRefused text ↔ cacheTtlSec.Fits text) ∧
      (updateIntervalSec.ExactOrRefused text ↔ updateIntervalSec.Fits text) := by
  obtain ⟨htrim, hline, hcomment⟩ := h.clean
  exact ⟨⟨reads_cacheSizeMb.fits htrim hline hcomment, reads_cacheSizeMb.exactOrRefused htrim⟩,
    ⟨reads_cacheTtlSec.fits htrim hline hcomment, reads_cacheTtlSec.exactOrRefused htrim⟩,
    ⟨reads_updateIntervalSec.fits htrim hline hcomment,
      reads_updateIntervalSec.exactOrRefused htrim⟩⟩

/-- The settings take a plain number. -/
theorem config_numbers_exact_120 :
    cacheSizeMb.ExactOrRefused (ascii "120") ∧ cacheTtlSec.ExactOrRefused (ascii "120") ∧
      updateIntervalSec.ExactOrRefused (ascii "120") := by
  have hcut : NumberCut (ascii "120") [] (ascii "120") [] :=
    ⟨rfl, by decide, by decide, by decide +kernel, by simp⟩
  have hline : keyValue (trim (stripComment (ascii "ttl = 120"))) =
      some (ascii "ttl", ascii "120") := by decide +kernel
  obtain ⟨hsize, httl, hinterval⟩ :=
    config_numbers_exact_iff ⟨ascii "ttl = 120", ascii "ttl", by decide +kernel, hline⟩
  refine ⟨hsize.mpr ?_, httl.mpr ?_, hinterval.mpr ?_⟩ <;>
    exact NumberSetting.fits_of_cut hcut (by decide)

/-- A size of 2^44 megabytes and a lifetime of 2^32 seconds both become zero. Negative numbers are
taken as well. -/
theorem config_numbers_wrap :
    loadMainConfig [] (some (ascii "cache_size_mb = 17592186044416")) =
        .ok { cacheSizeBytes := 0 } ∧
      loadMainConfig [] (some (ascii "cache_ttl_sec = 4294967296")) = .ok { cacheTtlSec := 0 } ∧
      ¬ cacheSizeMb.ExactOrRefused (ascii "17592186044416") ∧
      ¬ cacheTtlSec.ExactOrRefused (ascii "4294967296") ∧
      ¬ updateIntervalSec.ExactOrRefused (ascii "-1") := by
  have hsize : Denotes (ascii "17592186044416") 17592186044416 :=
    ⟨[], ascii "17592186044416", ⟨rfl, by decide, by decide, by decide +kernel, by simp⟩, by decide⟩
  have httl : Denotes (ascii "4294967296") 4294967296 :=
    ⟨[], ascii "4294967296", ⟨rfl, by decide, by decide, by decide +kernel, by simp⟩, by decide⟩
  have hinterval : Denotes (ascii "-1") (-1) :=
    ⟨[45], ascii "1", ⟨rfl, by decide, by decide, by decide +kernel, by simp⟩, by decide⟩
  refine ⟨by decide +kernel, by decide +kernel, ?_, ?_, ?_⟩
  · exact reads_cacheSizeMb.not_exactOrRefused (by decide +kernel) (by decide) (by decide) hsize
      (.inr (by decide))
  · exact reads_cacheTtlSec.not_exactOrRefused (by decide +kernel) (by decide) (by decide) httl
      (.inr (by decide))
  · exact reads_updateIntervalSec.not_exactOrRefused (by decide +kernel) (by decide) (by decide)
      hinterval (.inl (by decide))

end Gravastar
