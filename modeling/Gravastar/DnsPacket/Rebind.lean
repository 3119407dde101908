import Gravastar.DnsPacket.Walk

/-!
# Rebind protection leaves no private address behind

Zeroing RDATA may change what the names of later or earlier records say, when
they point into it, but never where a record lies: the skeleton is read from
bytes that are not RDATA. So each record is judged where the rewriting walk
found it, and the judgement survives a later change of the message ID.
-/

namespace Gravastar
open Traced

/-! ## Packets that agree on a range -/

/-- Same length, and the same bytes in `[lo, hi)`. -/
structure AgreeOn (lo hi : Nat) (p q : Bytes) : Prop where
  length : q.length = p.length
  bytes : ∀ i, lo ≤ i → i < hi → q[i]? = p[i]?

variable {lo hi : Nat} {p q s : Bytes}

theorem AgreeOn.refl (lo hi : Nat) (p : Bytes) : AgreeOn lo hi p p := ⟨rfl, fun _ _ _ => rfl⟩

theorem AgreeOn.symm (h : AgreeOn lo hi p q) : AgreeOn lo hi q p :=
  ⟨h.length.symm, fun i hl hh => (h.bytes i hl hh).symm⟩

theorem AgreeOn.trans (h : AgreeOn lo hi p q) (g : AgreeOn lo hi q s) : AgreeOn lo hi p s :=
  ⟨g.length.trans h.length, fun i hl hh => (g.bytes i hl hh).trans (h.bytes i hl hh)⟩

theorem AgreeOn.mono {lo' hi' : Nat} (h : AgreeOn lo hi p q) (hl : lo ≤ lo') (hh : hi' ≤ hi) :
    AgreeOn lo' hi' p q :=
  ⟨h.length, fun i h1 h2 => h.bytes i (hl.trans h1) (h2.trans_le hh)⟩

theorem AgreeOn.getD (h : AgreeOn lo hi p q) {i : Nat} (hl : lo ≤ i) (hh : i < hi) (d : UInt8) :
    q.getD i d = p.getD i d := by
  rw [List.getD_eq_getElem?_getD, List.getD_eq_getElem?_getD, h.bytes i hl hh]

theorem AgreeOn.readU16 (h : AgreeOn lo hi p q) {i : Nat} (hl : lo ≤ i) (hh : i + 1 < hi) :
    (readU16 q i).val = (readU16 p i).val := by
  simp only [Gravastar.readU16, val_bind, val_peek, val_pure, h.getD hl (by omega) default,
    h.getD (by omega : lo ≤ i + 1) hh default]

theorem AgreeOn.addressAt (h : AgreeOn lo hi p q) {i : Nat} (hl : lo ≤ i) (hh : i + 4 ≤ hi) :
    addressAt q i = addressAt p i := by
  simp only [Gravastar.addressAt, h.getD hl (by omega) 0,
    h.getD (by omega : lo ≤ i + 1) (by omega) 0, h.getD (by omega : lo ≤ i + 2) (by omega) 0,
    h.getD (by omega : lo ≤ i + 3) (by omega) 0]

/-! ## The skeleton depends on in-line bytes only -/

theorem skipName_advances {pos e : Nat} (h : skipName p pos = some e) :
    pos < e ∧ e ≤ p.length := by
  fun_induction skipName p pos <;> grind

theorem skipName_frame {pos e : Nat} (h : skipName p pos = some e) (hag : AgreeOn pos e p q) :
    skipName q pos = some e := by
  have hadv := skipName_advances h
  have hlen := hag.length
  have hb := hag.bytes pos le_rfl hadv.1
  fun_induction skipName p pos with
  | case1 => grind [skipName]
  | case2 => grind [skipName]
  | case3 => grind
  | case4 => grind
  | case5 => grind
  | case6 pos hin len h0 hptr htop hfit ih =>
    have hrest := skipName_advances h
    have := ih h (hag.mono (by omega) le_rfl) hrest (hag.bytes _ (by omega) hrest.1)
    grind [skipName]
  | case7 => grind

theorem recordAt_iff {f : Nat → Option Nat} {offset : Nat} {r : RecordHead} :
    recordAt p f offset = some r ↔
      ∃ e, f offset = some e ∧ r = ⟨(readU16 p e).val, (readU16 p (e + 8)).val, e + 10⟩ ∧
        r.next ≤ p.length := by
  rw [recordAt]
  cases f offset with
  | none => simp
  | some e =>
    simp only [Option.some.injEq, exists_eq_left']
    by_cases h10 : e + 10 > p.length
    · rw [if_pos h10]
      simp only [reduceCtorEq, false_iff, not_and, Nat.not_le]
      rintro rfl
      simp only [RecordHead.next]
      omega
    · rw [if_neg h10]
      by_cases hn : RecordHead.next ⟨(readU16 p e).val, (readU16 p (e + 8)).val, e + 10⟩ > p.length
      · rw [if_pos hn]
        simp only [reduceCtorEq, false_iff, not_and, Nat.not_le]
        rintro rfl
        exact hn
      · rw [if_neg hn, Option.some.injEq]
        constructor
        · rintro rfl
          exact ⟨rfl, by omega⟩
        · exact fun h => h.1.symm

theorem skeletonAt_bounds {offset : Nat} {r : RecordHead}
    (h : recordAt p (skipName p) offset = some r) :
    offset + 10 < r.rdataOffset ∧ r.rdataOffset ≤ r.next ∧ r.next ≤ p.length := by
  obtain ⟨e, he, rfl, hfit⟩ := recordAt_iff.mp h
  have := skipName_advances he
  refine ⟨by dsimp only; omega, Nat.le_add_right _ _, hfit⟩

theorem skeletonAt_frame {offset : Nat} {r : RecordHead}
    (h : recordAt p (skipName p) offset = some r) (hag : AgreeOn offset r.rdataOffset p q) :
    recordAt q (skipName q) offset = some r := by
  obtain ⟨e, he, rfl, hfit⟩ := recordAt_iff.mp h
  have hadv := skipName_advances he
  dsimp only at hag
  refine recordAt_iff.mpr ⟨e, skipName_frame he (hag.mono le_rfl (by omega)), ?_, ?_⟩
  · rw [hag.readU16 (by omega) (by omega), hag.readU16 (by omega) (by omega)]
  · rwa [hag.length]

/-! ## Patching the message ID -/

theorem skipName_congr (hag : AgreeOn lo p.length p q) {pos : Nat} (hpos : lo ≤ pos) :
    skipName q pos = skipName p pos := by
  refine Option.ext fun e => ⟨fun h => ?_, fun h => ?_⟩
  · have hle := (skipName_advances h).2
    exact skipName_frame h (hag.symm.mono hpos (hag.length ▸ hle))
  · exact skipName_frame h (hag.mono hpos (skipName_advances h).2)

theorem skeletonAt_congr (hag : AgreeOn lo p.length p q) {offset : Nat} (ho : lo ≤ offset) :
    recordAt q (skipName q) offset = recordAt p (skipName p) offset := by
  refine Option.ext fun r => ⟨fun h => ?_, fun h => ?_⟩
  · have hle := skeletonAt_bounds h
    exact skeletonAt_frame h (hag.symm.mono ho (by rw [hag.length] at hle; omega))
  · have hle := skeletonAt_bounds h
    exact skeletonAt_frame h (hag.mono ho (by omega))

theorem skeletonFrom_congr (hag : AgreeOn lo p.length p q) (n : Nat) {offset : Nat}
    (ho : lo ≤ offset) :
    recordsFrom q (skipName q) n offset = recordsFrom p (skipName p) n offset := by
  induction n generalizing offset with
  | zero => rfl
  | succ n ih =>
    rw [recordsFrom, recordsFrom, skeletonAt_congr hag ho]
    cases h : recordAt p (skipName p) offset with
    | none => rfl
    | some r =>
      have := skeletonAt_bounds h
      exact congrArg (r :: ·) (ih (by omega))

theorem questionsEnd_congr (hag : AgreeOn lo p.length p q) (n : Nat) {offset : Nat}
    (ho : lo ≤ offset) :
    questionsEnd q (skipName q) n offset = questionsEnd p (skipName p) n offset := by
  induction n generalizing offset with
  | zero => rfl
  | succ n ih =>
    rw [questionsEnd, questionsEnd, skipName_congr hag ho, hag.length]
    cases h : skipName p offset with
    | none => rfl
    | some e =>
      have := skipName_advances h
      dsimp only
      rw [ih (by omega)]

theorem questionsEnd_le {f : Nat → Option Nat} {n offset e : Nat}
    (hf : ∀ o e, f o = some e → o < e) (h : questionsEnd p f n offset = some e) : offset ≤ e := by
  induction n generalizing offset with
  | zero => simp only [questionsEnd, Option.some.injEq] at h; omega
  | succ n ih =>
    cases hn : f offset with
    | none => simp [questionsEnd, hn] at h
    | some e' =>
      simp only [questionsEnd, hn] at h
      split_ifs at h
      have := hf _ _ hn
      have := ih h
      omega

/-- No record of the skeleton is a private A record. -/
def SkeletonClean (p : Bytes) : Prop := ∀ r ∈ skeleton p, r.isPrivateA p = false

theorem isPrivateA_congr (hag : AgreeOn lo hi p q) {r : RecordHead} (hl : lo ≤ r.rdataOffset)
    (hh : r.next ≤ hi) : r.isPrivateA q = r.isPrivateA p := by
  unfold RecordHead.isPrivateA
  by_cases h4 : r.rdlength = 4
  · have : r.rdataOffset + 4 ≤ hi := by simpa [RecordHead.next, h4] using hh
    rw [hag.addressAt hl this]
  · simp [h4]

theorem mem_recordsFrom_bounds {n offset : Nat} {r : RecordHead}
    (h : r ∈ recordsFrom p (skipName p) n offset) :
    offset < r.rdataOffset ∧ r.next ≤ p.length := by
  induction n generalizing offset with
  | zero => simp [recordsFrom] at h
  | succ n ih =>
    cases hr : recordAt p (skipName p) offset with
    | none => simp [recordsFrom, hr] at h
    | some r' =>
      have hb := skeletonAt_bounds hr
      simp only [recordsFrom, hr, List.mem_cons] at h
      rcases h with rfl | h
      · omega
      · have := ih h
        omega

/-- The bytes before the counts do not matter to the skeleton. -/
theorem skeleton_congr (hag : AgreeOn lo p.length p q) (hlo : lo ≤ 4) :
    skeleton q = skeleton p := by
  unfold skeleton recordsBy recordCount
  rw [hag.length]
  split_ifs with h12
  · rfl
  · simp only [hag.readU16 hlo (by omega : 4 + 1 < p.length),
      hag.readU16 (by omega : lo ≤ 6) (by omega : 6 + 1 < p.length),
      hag.readU16 (by omega : lo ≤ 8) (by omega : 8 + 1 < p.length),
      hag.readU16 (by omega : lo ≤ 10) (by omega : 10 + 1 < p.length),
      questionsEnd_congr hag _ (by omega : lo ≤ 12)]
    cases h : questionsEnd p (skipName p) (readU16 p 4).val.toNat 12 with
    | none => rfl
    | some offset =>
      have := questionsEnd_le (fun _ _ h => (skipName_advances h).1) h
      exact skeletonFrom_congr hag _ (by omega)

theorem mem_skeleton_bounds {r : RecordHead} (h : r ∈ skeleton p) :
    12 < r.rdataOffset ∧ r.next ≤ p.length := by
  unfold skeleton recordsBy at h
  split_ifs at h with h12
  · simp at h
  · cases hq : questionsEnd p (skipName p) (readU16 p 4).val.toNat 12 with
    | none => simp [hq] at h
    | some offset =>
      rw [hq] at h
      have := questionsEnd_le (fun _ _ h => (skipName_advances h).1) hq
      have := mem_recordsFrom_bounds h
      omega

theorem SkeletonClean.congr (h : SkeletonClean p) (hag : AgreeOn lo p.length p q) (hlo : lo ≤ 4) :
    SkeletonClean q := by
  intro r hr
  rw [skeleton_congr hag hlo] at hr
  have hb := mem_skeleton_bounds hr
  rw [isPrivateA_congr hag (by omega) hb.2]
  exact h r hr

theorem agreeOn_patchResponseId (p : Bytes) (id : UInt16) :
    AgreeOn 2 p.length p (patchResponseId p id) := by
  unfold patchResponseId
  split_ifs
  · exact .refl _ _ _
  · refine ⟨by simp, fun i hl _ => ?_⟩
    rw [List.getElem?_set_ne (by omega), List.getElem?_set_ne (by omega)]

theorem SkeletonClean.patchResponseId (h : SkeletonClean p) (id : UInt16) :
    SkeletonClean (patchResponseId p id) := h.congr (agreeOn_patchResponseId p id) (by omega)

/-! ## The rewriting walk -/

theorem agreeOn_zeroAddress_below (p : Bytes) (addr : Nat) :
    AgreeOn 0 addr p (zeroAddress p addr).val := by
  refine ⟨length_zeroAddress p addr, fun i _ hi => ?_⟩
  simp only [zeroAddress, val_bind, val_poke]
  iterate 4 rw [List.getElem?_set_ne (by omega)]

theorem addressAt_zeroAddress (p : Bytes) (addr : Nat) (h : addr + 4 ≤ p.length) :
    addressAt (zeroAddress p addr).val addr = 0 := by
  have hz : ∀ i, addr ≤ i → i < addr + 4 → (zeroAddress p addr).val.getD i 0 = 0 := by
    intro i hl hh
    have hcell : (zeroAddress p addr).val[i]? = some 0 := by
      simp only [zeroAddress, val_bind, val_poke]
      grind
    rw [List.getD_eq_getElem?_getD, hcell, Option.getD_some]
  simp only [addressAt, hz addr le_rfl (by omega), hz (addr + 1) (by omega) (by omega),
    hz (addr + 2) (by omega) (by omega), hz (addr + 3) (by omega) (by omega), UInt8.toNat_zero]

/-- One turn of the rewriting loop: only a private A record is touched. -/
theorem val_rewriteRecords_succ (n : Nat) (p : Bytes) (offset : Nat) (replaced : Bool) :
    (rewriteRecords (n + 1) p offset replaced).val =
      match recordAt p (nameEnd p) offset with
      | none => (none, p)
      | some r =>
        if r.isPrivateA p then
          (rewriteRecords n (zeroAddress p r.rdataOffset).val r.next true).val
        else (rewriteRecords n p r.next replaced).val := by
  rw [rewriteRecords, val_bind, val_readRecord]
  cases recordAt p (nameEnd p) offset with
  | none => rfl
  | some r =>
    dsimp only
    by_cases hA : r.type = dnsTypeA ∧ r.rdlength = 4
    · rw [if_pos hA]
      have hpriv : isPrivateIPv4 (peek p r.rdataOffset).val (peek p (r.rdataOffset + 1)).val =
          r.isPrivateA p :=
        (isPrivateIPv4_eq p r.rdataOffset).trans (by simp [RecordHead.isPrivateA, hA])
      simp only [val_bind, val_ite, hpriv]
    · rw [if_neg hA, if_neg]
      simp only [RecordHead.isPrivateA, decide_eq_true_eq]
      exact fun h => hA ⟨h.1, h.2.1⟩

theorem recordAt_nameEnd {offset : Nat} {r : RecordHead}
    (h : recordAt p (nameEnd p) offset = some r) : recordAt p (skipName p) offset = some r :=
  recordAt_mono (fun _ _ => nameEnd_skipName) h

theorem questionsEnd_frame {n offset e : Nat} (h : questionsEnd p (skipName p) n offset = some e)
    (hag : AgreeOn offset e p q) : questionsEnd q (skipName q) n offset = some e := by
  induction n generalizing offset with
  | zero => exact h
  | succ n ih =>
    cases hn : skipName p offset with
    | none => simp [questionsEnd, hn] at h
    | some e' =>
      rw [questionsEnd, hn] at h
      dsimp only at h
      split_ifs at h with hfit
      have hadv := skipName_advances hn
      have hle := questionsEnd_le (fun _ _ h => (skipName_advances h).1) h
      rw [questionsEnd, skipName_frame hn (hag.mono le_rfl (by omega))]
      dsimp only
      rw [hag.length, if_neg hfit]
      exact ih h (hag.mono (by omega) le_rfl)

/-- What precedes the records still to be walked is left alone. -/
theorem rewriteRecords_below (n : Nat) (p : Bytes) (offset : Nat) (replaced : Bool) :
    AgreeOn 0 offset p (rewriteRecords n p offset replaced).val.2 := by
  induction n generalizing p offset replaced with
  | zero => exact .refl _ _ _
  | succ n ih =>
    rw [val_rewriteRecords_succ]
    cases h : recordAt p (nameEnd p) offset with
    | none => exact .refl _ _ _
    | some r =>
      have hb := skeletonAt_bounds (recordAt_nameEnd h)
      dsimp only
      split_ifs
      · exact ((agreeOn_zeroAddress_below p r.rdataOffset).mono le_rfl (by omega)).trans
          ((ih _ r.next true).mono le_rfl (by omega))
      · exact (ih p r.next replaced).mono le_rfl (by omega)

/-- The rewriting never writes anything but zeros. -/
theorem rewriteRecords_zeros (n : Nat) (p : Bytes) (offset : Nat) (replaced : Bool) (i : Nat) :
    (rewriteRecords n p offset replaced).val.2[i]? = p[i]? ∨
      (rewriteRecords n p offset replaced).val.2[i]? = some 0 := by
  induction n generalizing p offset replaced with
  | zero => exact .inl rfl
  | succ n ih =>
    rw [val_rewriteRecords_succ]
    cases h : recordAt p (nameEnd p) offset with
    | none => exact .inl rfl
    | some r =>
      have hzero : (zeroAddress p r.rdataOffset).val[i]? = p[i]? ∨
          (zeroAddress p r.rdataOffset).val[i]? = some 0 := by
        simp only [zeroAddress, val_bind, val_poke]
        grind
      dsimp only
      split_ifs
      · rcases ih (zeroAddress p r.rdataOffset).val r.next true with hi | hi
        · rwa [hi]
        · exact .inr hi
      · exact ih p r.next replaced

/-- A walk that reaches the end has judged every record of the final skeleton. -/
theorem rewriteRecords_clean {n : Nat} {p p' : Bytes} {offset : Nat} {replaced b : Bool}
    (h : (rewriteRecords n p offset replaced).val = (some b, p')) :
    ∀ r ∈ recordsFrom p' (skipName p') n offset, r.isPrivateA p' = false := by
  induction n generalizing p offset replaced with
  | zero => simp [recordsFrom]
  | succ n ih =>
    rw [val_rewriteRecords_succ] at h
    cases hr : recordAt p (nameEnd p) offset with
    | none => simp [hr] at h
    | some r =>
      rw [hr] at h
      have hb := skeletonAt_bounds (recordAt_nameEnd hr)
      -- The packet as this turn leaves it: `p1` agrees with the result up to the next record.
      obtain ⟨p1, b1, hturn, hnone, h1⟩ : ∃ p1 b1, AgreeOn 0 r.rdataOffset p p1 ∧
          r.isPrivateA p1 = false ∧ (rewriteRecords n p1 r.next b1).val = (some b, p') := by
        by_cases hA : r.isPrivateA p = true
        · refine ⟨_, true, agreeOn_zeroAddress_below p r.rdataOffset, ?_, by simpa [hA] using h⟩
          have h4 : r.rdlength = 4 := by
            simp only [RecordHead.isPrivateA, decide_eq_true_eq] at hA
            exact hA.2.1
          have hfit : r.rdataOffset + 4 ≤ p.length := by
            have := hb.2.2
            simpa [RecordHead.next, h4] using this
          have hz : isRfc1918 0 = false := by decide
          simp [RecordHead.isPrivateA, addressAt_zeroAddress p _ hfit, hz]
        · exact ⟨p, replaced, .refl _ _ _, by simpa using hA, by simpa [hA] using h⟩
      have hrest : AgreeOn 0 r.next p1 p' := by
        have := rewriteRecords_below n p1 r.next b1
        rwa [h1] at this
      have hall : AgreeOn 0 r.rdataOffset p p' := hturn.trans (hrest.mono le_rfl hb.2.1)
      have hr' := skeletonAt_frame (recordAt_nameEnd hr) (hall.mono (Nat.zero_le _) le_rfl)
      intro r' hmem
      simp only [recordsFrom, hr', List.mem_cons] at hmem
      rcases hmem with rfl | hmem
      · rw [isPrivateA_congr hrest (Nat.zero_le _) le_rfl, hnone]
      · exact ih h1 r' hmem

/-- A rewriting that reports success has walked the questions and then all records. -/
theorem rewrite_run {p p' : Bytes} {b : Bool}
    (h : (rewritePrivateARecordsToZero p).val = (some b, p')) :
    ∃ offset, 12 ≤ p.length ∧ 12 ≤ offset ∧
      questionsEnd p (nameEnd p) (readU16 p 4).val.toNat 12 = some offset ∧
      (rewriteRecords (recordCount p) p offset false).val = (some b, p') := by
  unfold rewritePrivateARecordsToZero at h
  by_cases h12 : p.length < 12
  · simp [h12] at h
  simp only [if_neg h12, val_bind, val_skipQuestions] at h
  cases hq : questionsEnd p (nameEnd p) (readU16 p 4).val.toNat 12 with
  | none => simp [hq] at h
  | some offset =>
    rw [hq] at h
    have hoff := questionsEnd_le (fun _ _ h => (skipName_advances (nameEnd_skipName h)).1) hq
    exact ⟨offset, Nat.le_of_not_lt h12, hoff, rfl, h⟩

/-- An accepted reply has a whole header, which is kept, and is changed by zeroing bytes only. -/
theorem rewrite_keeps {p p' : Bytes} {b : Bool}
    (h : (rewritePrivateARecordsToZero p).val = (some b, p')) :
    12 ≤ p.length ∧ AgreeOn 0 12 p p' ∧ ∀ i : Nat, p'[i]? = p[i]? ∨ p'[i]? = some 0 := by
  obtain ⟨offset, hlen, hoff, -, hrun⟩ := rewrite_run h
  have hbelow := rewriteRecords_below (recordCount p) p offset false
  have hzeros := rewriteRecords_zeros (recordCount p) p offset false
  rw [hrun] at hbelow hzeros
  exact ⟨hlen, hbelow.mono le_rfl hoff, hzeros⟩

/-- Whenever the rewriting reports success, its result is free of private A records. -/
theorem rewrite_clean {p p' : Bytes} {b : Bool}
    (h : (rewritePrivateARecordsToZero p).val = (some b, p')) : SkeletonClean p' := by
  obtain ⟨offset, hlen, hoff, hq, hrun⟩ := rewrite_run h
  have hbelow := rewriteRecords_below (recordCount p) p offset false
  rw [hrun] at hbelow
  have hq' : questionsEnd p' (skipName p') (readU16 p' 4).val.toNat 12 = some offset := by
    rw [hbelow.readU16 (Nat.zero_le _) (by omega)]
    exact questionsEnd_frame (questionsEnd_mono (fun _ _ => nameEnd_skipName) hq)
      (hbelow.mono (Nat.zero_le _) le_rfl)
  have hcount : recordCount p' = recordCount p := by
    simp only [recordCount, hbelow.readU16 (Nat.zero_le _) (by omega : 6 + 1 < offset),
      hbelow.readU16 (Nat.zero_le _) (by omega : 8 + 1 < offset),
      hbelow.readU16 (Nat.zero_le _) (by omega : 10 + 1 < offset)]
  intro r hr
  rw [skeleton, recordsBy, if_neg (by rw [hbelow.length]; omega), hq', hcount] at hr
  exact rewriteRecords_clean hrun r hr

/-- No record that the code's walk meets is a private A record. -/
def NoPrivateA (p : Bytes) : Prop := ∀ r ∈ records p, r.isPrivateA p = false

theorem SkeletonClean.noPrivateA (h : SkeletonClean p) : NoPrivateA p :=
  fun r hr => h r (records_subset_skeleton p hr)

end Gravastar
