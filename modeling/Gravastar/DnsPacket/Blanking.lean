import Gravastar.DnsPacket.Rebind
import Gravastar.DnsPacket.Encode

/-!
# What the rewriting does to names, and to itself

Zeroed RDATA may be part of a name that points into it. A zero byte ends a name,
so a name that could be read can still be read, and its in-line part, which is
never RDATA, ends where it did. The records of the rewritten packet are therefore
the ones the rewriting has met, and a second rewriting finds nothing to do.
-/

namespace Gravastar
open Traced

/-! ## Blanked packets -/

/-- `q` is `p` with some bytes zeroed, of a pointer never the second byte alone. -/
structure Blanked (p q : Bytes) : Prop where
  length : q.length = p.length
  zeros : ∀ i : Nat, q[i]? = p[i]? ∨ q[i]? = some 0
  pointers : ∀ (i : Nat) (hi : UInt8), hi &&& 0xC0 = 0xC0 → q[i]? = some hi →
    q[i + 1]? = p[i + 1]?

variable {p q s : Bytes}

theorem Blanked.refl (p : Bytes) : Blanked p p := ⟨rfl, fun _ => .inl rfl, fun _ _ _ _ => rfl⟩

/-- A byte that is still there is an old one. -/
theorem Blanked.of_ne_zero (h : Blanked p q) {i : Nat} {b : UInt8} (hb : q[i]? = some b)
    (hne : b ≠ 0) : p[i]? = some b := by
  rcases h.zeros i with hsame | hzero
  · rw [← hsame, hb]
  · rw [hb, Option.some.injEq] at hzero
    exact absurd hzero hne

theorem pointer_ne_zero {hi : UInt8} (h : hi &&& 0xC0 = 0xC0) : hi ≠ 0 := by
  rintro rfl
  simp at h

theorem Blanked.trans (h : Blanked p q) (g : Blanked q s) : Blanked p s := by
  refine ⟨g.length.trans h.length, fun i => ?_, fun i hi hptr hs => ?_⟩
  · rcases g.zeros i with hsame | hzero
    · rw [hsame]
      exact h.zeros i
    · exact .inr hzero
  · rw [g.pointers i hi hptr hs, h.pointers i hi hptr (g.of_ne_zero hs (pointer_ne_zero hptr))]

/-- What still stands at a position of a blanked packet: a zero, or the byte of before. -/
theorem Blanked.getElem?_cases (h : Blanked p q) {i : Nat} {b : UInt8} (hb : p[i]? = some b) :
    q[i]? = some 0 ∨ q[i]? = some b := by
  rcases h.zeros i with hsame | hzero
  · exact .inr (hsame.trans hb)
  · exact .inl hzero

/-- A name that can be read can be read when bytes are blanked; it takes no more jumps. -/
theorem NameAt.blanked {pos j e : Nat} {ls : List Label} (h : NameAt p pos j ls e)
    (hb : Blanked p q) : ∃ j' ls' e', j' ≤ j ∧ NameAt q pos j' ls' e' := by
  induction h with
  | @root pos h0 =>
    have hzero : q[pos]? = some 0 := by
      rcases hb.getElem?_cases h0 with hz | hz <;> exact hz
    exact ⟨0, [], pos + 1, le_rfl, .root hzero⟩
  | @label pos j e l ls hat hrest ih =>
    obtain ⟨hp, -⟩ := prefix_label_iff.mp hat
    have hfit := label_fits hat
    obtain ⟨hne, htop⟩ := l.toNat_pos_lt
    rcases hb.getElem?_cases hp with hz | hkept
    · exact ⟨0, [], pos + 1, Nat.zero_le _, .root hz⟩
    · obtain ⟨m, -, hlen, hat'⟩ := exists_label hkept hne htop
        (by rw [l.toNat_length, hb.length]; exact hfit)
      rw [l.toNat_length] at hlen
      obtain ⟨j', ls', e', hj, hrest'⟩ := ih
      exact ⟨j', m :: ls', e', hj, .label hat' (by rwa [hlen])⟩
  | @pointer pos j e hi lo ls hp hptr hq hrest ih =>
    rcases hb.getElem?_cases hp with hz | hkept
    · exact ⟨0, [], pos + 1, Nat.zero_le _, .root hz⟩
    · obtain ⟨j', ls', e', hj, hrest'⟩ := ih
      have hlo : q[pos + 1]? = some lo := (hb.pointers pos hi hptr hkept).trans hq
      exact ⟨j' + 1, ls', pos + 2, Nat.succ_le_succ hj, .pointer hkept hptr hlo hrest'⟩

/-- The end of a name stays where it is when only bytes elsewhere are blanked. -/
theorem nameEnd_blanked {offset e : Nat} (h : nameEnd p offset = some e) (hb : Blanked p q)
    (hag : AgreeOn offset e p q) : nameEnd q offset = some e := by
  have hskip := skipName_frame (nameEnd_skipName h) hag
  obtain ⟨⟨name, e'⟩, hread, -⟩ := Option.map_eq_some_iff.mp h
  obtain ⟨j, ls, hj, hat, -⟩ := val_readName_iff.mp hread
  obtain ⟨j', ls', e'', hj', hat'⟩ := hat.blanked hb
  have hsame : e'' = e := Option.some.inj (hat'.skipName.symm.trans hskip)
  have hread' : (readName q offset).val = some (nameText ls', e) :=
    val_readName_iff.mpr ⟨j', ls', hj'.trans hj, hsame ▸ hat', rfl⟩
  rw [nameEnd, hread', Option.map_some]

theorem recordAt_blanked {offset : Nat} {r : RecordHead}
    (h : recordAt p (nameEnd p) offset = some r) (hb : Blanked p q)
    (hag : AgreeOn offset r.rdataOffset p q) : recordAt q (nameEnd q) offset = some r := by
  obtain ⟨e, he, rfl, hfit⟩ := recordAt_iff.mp h
  have hadv := skipName_advances (nameEnd_skipName he)
  dsimp only at hag
  refine recordAt_iff.mpr ⟨e, nameEnd_blanked he hb (hag.mono le_rfl (by omega)), ?_, ?_⟩
  · rw [hag.readU16 (by omega) (by omega), hag.readU16 (by omega) (by omega)]
  · rwa [hag.length]

theorem questionsEnd_blanked {n offset e : Nat}
    (h : questionsEnd p (nameEnd p) n offset = some e) (hb : Blanked p q)
    (hag : AgreeOn offset e p q) : questionsEnd q (nameEnd q) n offset = some e := by
  induction n generalizing offset with
  | zero => exact h
  | succ n ih =>
    cases hn : nameEnd p offset with
    | none => simp [questionsEnd, hn] at h
    | some e' =>
      rw [questionsEnd, hn] at h
      dsimp only at h
      split_ifs at h with hfit
      have hadv := skipName_advances (nameEnd_skipName hn)
      have hle := questionsEnd_le
        (fun _ _ h => (skipName_advances (nameEnd_skipName h)).1) h
      rw [questionsEnd, nameEnd_blanked hn hb (hag.mono le_rfl (by omega))]
      dsimp only
      rw [hag.length, if_neg hfit]
      exact ih h (hag.mono (by omega) le_rfl)

/-! ## One turn of the rewriting -/

/-- The packet when the record has been dealt with. -/
def RecordHead.blank (p : Bytes) (r : RecordHead) : Bytes :=
  if r.isPrivateA p then (zeroAddress p r.rdataOffset).val else p

theorem getElem?_zeroAddress {addr : Nat} (h : addr + 4 ≤ p.length) (i : Nat) :
    (zeroAddress p addr).val[i]? = if addr ≤ i ∧ i < addr + 4 then some 0 else p[i]? := by
  simp only [zeroAddress, val_bind, val_poke]
  grind

/-- A private A record lies in the packet, and the byte in front of its RDATA is no pointer. -/
theorem isPrivateA_bounds {offset : Nat} {r : RecordHead}
    (h : recordAt p (nameEnd p) offset = some r) (hA : r.isPrivateA p = true) :
    r.next = r.rdataOffset + 4 ∧ r.rdataOffset + 4 ≤ p.length ∧
      ∀ hi, p[r.rdataOffset - 1]? = some hi → hi &&& 0xC0 ≠ 0xC0 := by
  obtain ⟨e, he, rfl, hfit⟩ := recordAt_iff.mp h
  simp only [RecordHead.isPrivateA, decide_eq_true_eq] at hA
  have h4 := congrArg UInt16.toNat hA.2.1
  have hnext : RecordHead.next ⟨(readU16 p e).val, (readU16 p (e + 8)).val, e + 10⟩ =
      e + 10 + 4 := by
    simp only [RecordHead.next, hA.2.1]
    rfl
  refine ⟨hnext, hnext ▸ hfit, fun hi hhi hptr => ?_⟩
  have hlow : p.getD (e + 8 + 1) 0 = hi := by
    rw [List.getD_eq_getElem?_getD]
    exact (congrArg (Option.getD · 0) hhi)
  rw [toNat_readU16, hlow] at h4
  have hbig := (topBits_iff hi).2.mp hptr
  have h4' : (p.getD (e + 8) 0).toNat * 256 + hi.toNat = 4 := h4
  omega

theorem length_blank (p : Bytes) (r : RecordHead) : (r.blank p).length = p.length := by
  rw [RecordHead.blank]
  split_ifs <;> simp

section
variable {offset : Nat} {r : RecordHead} (h : recordAt p (nameEnd p) offset = some r)
include h

theorem getElem?_blank (i : Nat) : (r.blank p)[i]? =
    if r.isPrivateA p = true ∧ r.rdataOffset ≤ i ∧ i < r.rdataOffset + 4 then some 0
    else p[i]? := by
  rw [RecordHead.blank]
  by_cases hA : r.isPrivateA p = true
  · rw [if_pos hA, getElem?_zeroAddress (isPrivateA_bounds h hA).2.1]
    simp [hA]
  · simp [hA]

/-- A turn changes the RDATA of its record only. -/
theorem blank_outside {lo hi : Nat} (hout : hi ≤ r.rdataOffset ∨ r.next ≤ lo) :
    AgreeOn lo hi p (r.blank p) := by
  refine ⟨length_blank p r, fun i hl hh => ?_⟩
  rw [getElem?_blank h, if_neg]
  rintro ⟨hA, hin⟩
  have := (isPrivateA_bounds h hA).1
  omega

theorem blanked_blank : Blanked p (r.blank p) := by
  refine ⟨length_blank p r, fun i => ?_, fun i hi hptr hkept => ?_⟩
  · rw [getElem?_blank h]
    split_ifs
    · exact .inr rfl
    · exact .inl rfl
  · rw [getElem?_blank h] at hkept
    split_ifs at hkept with hin
    · exact absurd (Option.some.inj hkept).symm (pointer_ne_zero hptr)
    · -- Only a pointer right in front of the RDATA could lose its second byte.
      rw [getElem?_blank h, if_neg]
      rintro ⟨hA, hin'⟩
      have hlast : i = r.rdataOffset - 1 := by
        by_contra hne
        exact hin ⟨hA, by omega, by omega⟩
      exact (isPrivateA_bounds h hA).2.2 hi (hlast ▸ hkept) hptr

theorem isPrivateA_blank : r.isPrivateA (r.blank p) = false := by
  rw [RecordHead.blank]
  by_cases hA : r.isPrivateA p = true
  · rw [if_pos hA]
    have hz : isRfc1918 0 = false := by decide
    simp [RecordHead.isPrivateA, addressAt_zeroAddress p _ (isPrivateA_bounds h hA).2.1, hz]
  · simp [hA]

end

theorem val_rewriteRecords_blank (n : Nat) (p : Bytes) (offset : Nat) (replaced : Bool) :
    (rewriteRecords (n + 1) p offset replaced).val =
      match recordAt p (nameEnd p) offset with
      | none => (none, p)
      | some r => (rewriteRecords n (r.blank p) r.next (replaced || r.isPrivateA p)).val := by
  rw [val_rewriteRecords_succ]
  cases recordAt p (nameEnd p) offset with
  | none => rfl
  | some r =>
    dsimp only
    rw [RecordHead.blank]
    cases r.isPrivateA p <;> simp

/-! ## The whole rewriting -/

/-- The records that the rewriting meets, in the packet as it is by then. -/
def rewriteVisits : Nat → Bytes → Nat → List RecordHead
  | 0, _, _ => []
  | n + 1, p, offset =>
    match recordAt p (nameEnd p) offset with
    | none => []
    | some r => r :: rewriteVisits n (r.blank p) r.next

theorem mem_rewriteVisits_bounds {n offset : Nat} {r : RecordHead}
    (h : r ∈ rewriteVisits n p offset) : offset < r.rdataOffset ∧ r.next ≤ p.length := by
  induction n generalizing p offset with
  | zero => simp [rewriteVisits] at h
  | succ n ih =>
    cases hr : recordAt p (nameEnd p) offset with
    | none => simp [rewriteVisits, hr] at h
    | some r' =>
      have hb := skeletonAt_bounds (recordAt_nameEnd hr)
      simp only [rewriteVisits, hr, List.mem_cons] at h
      rcases h with rfl | h
      · omega
      · have := ih h
        rw [length_blank] at this
        omega

theorem length_rewriteVisits_le (n : Nat) (p : Bytes) (offset : Nat) :
    (rewriteVisits n p offset).length ≤ n := by
  induction n generalizing p offset with
  | zero => exact le_rfl
  | succ n ih =>
    rw [rewriteVisits]
    cases recordAt p (nameEnd p) offset with
    | none => exact Nat.zero_le _
    | some r => exact Nat.succ_le_succ (ih ..)

/-- A record further on is judged as in the packet of before. -/
theorem isPrivateA_of_visits {n offset : Nat} {r r' : RecordHead}
    (h : recordAt p (nameEnd p) offset = some r)
    (h' : r' ∈ rewriteVisits n (r.blank p) r.next) :
    r'.isPrivateA (r.blank p) = r'.isPrivateA p := by
  have hb := mem_rewriteVisits_bounds h'
  rw [length_blank] at hb
  exact isPrivateA_congr (blank_outside h (.inr le_rfl)) hb.1.le hb.2

theorem rewriteRecords_blanked (n : Nat) (p : Bytes) (offset : Nat) (replaced : Bool) :
    Blanked p (rewriteRecords n p offset replaced).val.2 := by
  induction n generalizing p offset replaced with
  | zero => exact .refl p
  | succ n ih =>
    rw [val_rewriteRecords_blank]
    cases h : recordAt p (nameEnd p) offset with
    | none => exact .refl p
    | some r => exact (blanked_blank h).trans (ih ..)

/-- The rewriting succeeds if it meets as many records as the counts announce. -/
theorem rewriteRecords_fst (n : Nat) (p : Bytes) (offset : Nat) (replaced : Bool) :
    (rewriteRecords n p offset replaced).val.1 =
      if (rewriteVisits n p offset).length = n then
        some (replaced || (rewriteVisits n p offset).any (·.isPrivateA p))
      else none := by
  induction n generalizing p offset replaced with
  | zero => simp [rewriteRecords, rewriteVisits]
  | succ n ih =>
    rw [val_rewriteRecords_blank, rewriteVisits]
    cases h : recordAt p (nameEnd p) offset with
    | none => rfl
    | some r =>
      have hany : (rewriteVisits n (r.blank p) r.next).any (·.isPrivateA (r.blank p)) =
          (rewriteVisits n (r.blank p) r.next).any (·.isPrivateA p) := by
        rw [Bool.eq_iff_iff, List.any_eq_true, List.any_eq_true]
        exact exists_congr fun r' => and_congr_right fun hr' => by
          rw [isPrivateA_of_visits h hr']
      simp only [ih, hany, List.length_cons, Nat.succ_inj, List.any_cons, Bool.or_assoc]

/-- Exactly the RDATA of the private A records that it meets is zeroed. -/
theorem getElem?_rewriteRecords (n : Nat) (p : Bytes) (offset : Nat) (replaced : Bool) (i : Nat) :
    (rewriteRecords n p offset replaced).val.2[i]? =
      if ∃ r ∈ rewriteVisits n p offset,
        r.isPrivateA p = true ∧ r.rdataOffset ≤ i ∧ i < r.rdataOffset + 4 then some 0
      else p[i]? := by
  induction n generalizing p offset replaced with
  | zero => simp [rewriteRecords, rewriteVisits]
  | succ n ih =>
    rw [val_rewriteRecords_blank, rewriteVisits]
    cases h : recordAt p (nameEnd p) offset with
    | none => simp
    | some r =>
      have hlater : (∃ r' ∈ rewriteVisits n (r.blank p) r.next,
            r'.isPrivateA (r.blank p) = true ∧ r'.rdataOffset ≤ i ∧ i < r'.rdataOffset + 4) ↔
          ∃ r' ∈ rewriteVisits n (r.blank p) r.next,
            r'.isPrivateA p = true ∧ r'.rdataOffset ≤ i ∧ i < r'.rdataOffset + 4 :=
        exists_congr fun r' => and_congr_right fun hr' => by rw [isPrivateA_of_visits h hr']
      dsimp only
      rw [ih, getElem?_blank h]
      simp only [hlater, List.exists_mem_cons_iff]
      split_ifs <;> grind

/-- The records of the rewritten packet are the ones that the rewriting has met. -/
theorem recordsFrom_rewriteRecords (n : Nat) (p : Bytes) (offset : Nat) (replaced : Bool) :
    recordsFrom (rewriteRecords n p offset replaced).val.2
        (nameEnd (rewriteRecords n p offset replaced).val.2) n offset =
      rewriteVisits n p offset := by
  induction n generalizing p offset replaced with
  | zero => rfl
  | succ n ih =>
    rw [val_rewriteRecords_blank, rewriteVisits, recordsFrom]
    cases h : recordAt p (nameEnd p) offset with
    | none => simp [h]
    | some r =>
      have hb := skeletonAt_bounds (recordAt_nameEnd h)
      dsimp only
      have hblanked : Blanked p
          (rewriteRecords n (r.blank p) r.next (replaced || r.isPrivateA p)).val.2 :=
        (blanked_blank h).trans (rewriteRecords_blanked ..)
      have hag : AgreeOn offset r.rdataOffset p
          (rewriteRecords n (r.blank p) r.next (replaced || r.isPrivateA p)).val.2 :=
        (blank_outside h (.inl le_rfl)).trans
          ((rewriteRecords_below ..).mono (Nat.zero_le _) hb.2.1)
      rw [recordAt_blanked h hblanked hag]
      exact congrArg (r :: ·) (ih ..)

/-- What has been rewritten is no private A record any more. -/
theorem rewriteRecords_clears {n offset : Nat} {replaced : Bool} {r : RecordHead}
    (hr : r ∈ rewriteVisits n p offset) :
    r.isPrivateA (rewriteRecords n p offset replaced).val.2 = false := by
  induction n generalizing p offset replaced with
  | zero => simp [rewriteVisits] at hr
  | succ n ih =>
    rw [val_rewriteRecords_blank]
    cases h : recordAt p (nameEnd p) offset with
    | none => simp [rewriteVisits, h] at hr
    | some r' =>
      simp only [rewriteVisits, h, List.mem_cons] at hr
      rcases hr with rfl | hr
      · exact (isPrivateA_congr (rewriteRecords_below ..) (Nat.zero_le _) le_rfl).trans
          (isPrivateA_blank h)
      · exact ih hr

/-- A packet that has been blanked before `offset` shows at least the same records from there. -/
theorem recordsFrom_prefix_visits {n offset : Nat} (hb : Blanked p q)
    (hag : AgreeOn offset p.length p q) :
    recordsFrom p (nameEnd p) n offset <+: rewriteVisits n q offset := by
  induction n generalizing q offset with
  | zero => exact List.prefix_rfl
  | succ n ih =>
    cases h : recordAt p (nameEnd p) offset with
    | none =>
      rw [recordsFrom, h]
      exact List.nil_prefix
    | some r =>
      have hbounds := skeletonAt_bounds (recordAt_nameEnd h)
      have h' := recordAt_blanked h hb (hag.mono le_rfl (by omega))
      rw [recordsFrom, h, rewriteVisits, h']
      refine (List.prefix_cons_inj r).mpr (ih (hb.trans (blanked_blank h')) ?_)
      exact (hag.mono (by omega) le_rfl).trans (blank_outside h' (.inr le_rfl))

/-- Where there is no private A record, nothing is written. -/
theorem rewriteRecords_of_clean {n offset : Nat} {replaced : Bool}
    (h : ∀ r ∈ recordsFrom p (nameEnd p) n offset, r.isPrivateA p = false) :
    (rewriteRecords n p offset replaced).val =
      (if (recordsFrom p (nameEnd p) n offset).length = n then some replaced else none, p) := by
  induction n generalizing offset with
  | zero => rfl
  | succ n ih =>
    rw [val_rewriteRecords_succ]
    cases hr : recordAt p (nameEnd p) offset with
    | none => simp [recordsFrom, hr]
    | some r =>
      simp only [recordsFrom, hr, List.mem_cons, forall_eq_or_imp] at h ⊢
      rw [if_neg (by simp [h.1]), ih h.2]
      simp

/-! ## Packets -/

/-- Where the first record starts, if there is a header and the questions can be read. -/
def walkStart (p : Bytes) : Option Nat :=
  if p.length < 12 then none
  else questionsEnd p (nameEnd p) (readU16 p 4).val.toNat 12

/-- The questions and all records that the counts announce can be read. -/
def WalkSucceeds (p : Bytes) : Prop :=
  ∃ offset, walkStart p = some offset ∧
    (recordsFrom p (nameEnd p) (recordCount p) offset).length = recordCount p

/-- The records that `RewritePrivateARecordsToZero` meets on its way. -/
def visitedRecords (p : Bytes) : List RecordHead :=
  match walkStart p with
  | none => []
  | some offset => rewriteVisits (recordCount p) p offset

theorem records_eq (p : Bytes) : records p =
    match walkStart p with
    | none => []
    | some offset => recordsFrom p (nameEnd p) (recordCount p) offset := by
  rw [records, recordsBy, walkStart]
  split_ifs <;> rfl

theorem val_rewrite (p : Bytes) : (rewritePrivateARecordsToZero p).val =
    match walkStart p with
    | none => (none, p)
    | some offset => (rewriteRecords (recordCount p) p offset false).val := by
  rw [rewritePrivateARecordsToZero, walkStart]
  by_cases h12 : p.length < 12
  · simp [h12]
  · simp only [if_neg h12, val_bind, val_skipQuestions]
    cases questionsEnd p (nameEnd p) (readU16 p 4).val.toNat 12 with
    | none => rfl
    | some offset => rfl

theorem walkStart_ge {offset : Nat} (h : walkStart p = some offset) : 12 ≤ offset := by
  rw [walkStart] at h
  split_ifs at h
  exact questionsEnd_le (fun _ _ h => (skipName_advances (nameEnd_skipName h)).1) h

/-- The rewriting moves nothing: the records start where they did, and are as many. -/
theorem walkStart_rewriteRecords {offset : Nat} {replaced : Bool}
    (h : walkStart p = some offset) :
    walkStart (rewriteRecords (recordCount p) p offset replaced).val.2 = some offset ∧
      recordCount (rewriteRecords (recordCount p) p offset replaced).val.2 = recordCount p := by
  have hoff := walkStart_ge h
  have hblanked := rewriteRecords_blanked (recordCount p) p offset replaced
  have hbelow := rewriteRecords_below (recordCount p) p offset replaced
  generalize (rewriteRecords (recordCount p) p offset replaced).val.2 = q at hblanked hbelow
  rw [walkStart] at h ⊢
  split_ifs at h with h12
  refine ⟨?_, ?_⟩
  · rw [if_neg (by rwa [hblanked.length]), hbelow.readU16 (Nat.zero_le _) (by omega)]
    exact questionsEnd_blanked h hblanked (hbelow.mono (Nat.zero_le _) le_rfl)
  · simp only [recordCount, hbelow.readU16 (Nat.zero_le _) (by omega : 6 + 1 < offset),
      hbelow.readU16 (Nat.zero_le _) (by omega : 8 + 1 < offset),
      hbelow.readU16 (Nat.zero_le _) (by omega : 10 + 1 < offset)]

/-- A walk over the rewritten packet meets what the rewriting has met. -/
theorem records_rewritten (p : Bytes) :
    records (rewritePrivateARecordsToZero p).val.2 = visitedRecords p := by
  rw [val_rewrite, visitedRecords, records_eq]
  cases h : walkStart p with
  | none => simp [h]
  | some offset =>
    obtain ⟨hstart, hcount⟩ := @walkStart_rewriteRecords p offset false h
    dsimp only
    rw [hstart, hcount]
    exact recordsFrom_rewriteRecords ..

/-- A walk over the packet of before meets no other records. -/
theorem records_prefix_visited (p : Bytes) : records p <+: visitedRecords p := by
  rw [visitedRecords, records_eq]
  cases walkStart p with
  | none => exact List.prefix_rfl
  | some offset => exact recordsFrom_prefix_visits (.refl p) (.refl _ _ _)

theorem rewrite_fst_isSome (p : Bytes) :
    (rewritePrivateARecordsToZero p).val.1.isSome = true ↔
      WalkSucceeds (rewritePrivateARecordsToZero p).val.2 := by
  rw [WalkSucceeds, val_rewrite]
  cases h : walkStart p with
  | none => simp [h]
  | some offset =>
    obtain ⟨hstart, hcount⟩ := @walkStart_rewriteRecords p offset false h
    dsimp only
    rw [rewriteRecords_fst, hstart, hcount]
    simp only [Option.some.injEq, exists_eq_left', recordsFrom_rewriteRecords]
    split_ifs with hall <;> simp [hall]

/-- The rewriting succeeds on a packet that can be walked. -/
theorem rewrite_of_walkSucceeds (h : WalkSucceeds p) :
    (rewritePrivateARecordsToZero p).val.1.isSome = true := by
  obtain ⟨offset, hstart, hall⟩ := h
  have hmet : recordsFrom p (nameEnd p) (recordCount p) offset <+:
      rewriteVisits (recordCount p) p offset :=
    recordsFrom_prefix_visits (.refl p) (.refl _ _ _)
  have hle := hmet.length_le
  have hmost := length_rewriteVisits_le (recordCount p) p offset
  rw [val_rewrite, hstart]
  dsimp only
  rw [rewriteRecords_fst, if_pos (by omega)]
  rfl

/-- None of the records that have been met is a private A record any more. -/
theorem rewrite_clears {r : RecordHead} (hr : r ∈ visitedRecords p) :
    r.isPrivateA (rewritePrivateARecordsToZero p).val.2 = false := by
  rw [visitedRecords] at hr
  rw [val_rewrite]
  cases h : walkStart p with
  | none => simp [h] at hr
  | some offset =>
    rw [h] at hr
    exact rewriteRecords_clears hr

theorem getElem?_rewrite (p : Bytes) (i : Nat) :
    (rewritePrivateARecordsToZero p).val.2[i]? =
      if ∃ r ∈ visitedRecords p,
        r.isPrivateA p = true ∧ r.rdataOffset ≤ i ∧ i < r.rdataOffset + 4 then some 0
      else p[i]? := by
  rw [val_rewrite, visitedRecords]
  cases walkStart p with
  | none => simp
  | some offset => exact getElem?_rewriteRecords ..

theorem rewrite_fst_eq {rewritten : Bool}
    (h : (rewritePrivateARecordsToZero p).val.1 = some rewritten) :
    rewritten = (visitedRecords p).any (·.isPrivateA p) := by
  rw [val_rewrite] at h
  rw [visitedRecords]
  cases hstart : walkStart p with
  | none => simp [hstart] at h
  | some offset =>
    rw [hstart] at h
    dsimp only at h ⊢
    rw [rewriteRecords_fst] at h
    split_ifs at h
    exact (Option.some.inj h).symm

/-- `RewritePrivateARecordsToZero` succeeds where the packet can be walked. Where it succeeds, its
output can be walked and holds no private A record. In any case it zeroes the addresses of the
private A records that it meets, which are those that a walk over the output meets, and leaves
every other byte as it is. -/
theorem rewrite_zeroes_private_addresses (p : Bytes) :
    let result := (rewritePrivateARecordsToZero p).val.1
    let output := (rewritePrivateARecordsToZero p).val.2
    (WalkSucceeds p → result.isSome = true) ∧
    (∀ rewritten, result = some rewritten →
      WalkSucceeds output ∧ (∀ r ∈ records output, r.isPrivateA output = false) ∧
        (rewritten = true ↔ ∃ r ∈ visitedRecords p, r.isPrivateA p = true)) ∧
    output.length = p.length ∧
    (∀ i : Nat, output[i]? =
      if ∃ r ∈ visitedRecords p,
        r.isPrivateA p = true ∧ r.rdataOffset ≤ i ∧ i < r.rdataOffset + 4 then some 0
      else p[i]?) ∧
    records output = visitedRecords p ∧ records p <+: visitedRecords p := by
  intro result output
  have hlength : output.length = p.length := by
    have hblanked : Blanked p output := by
      simp only [output, val_rewrite]
      cases walkStart p with
      | none => exact .refl p
      | some offset => exact rewriteRecords_blanked ..
    exact hblanked.length
  refine ⟨rewrite_of_walkSucceeds, fun rewritten hresult => ⟨?_, fun r hr => ?_, ?_⟩, hlength,
    getElem?_rewrite p, records_rewritten p, records_prefix_visited p⟩
  · exact (rewrite_fst_isSome p).mp (Option.isSome_of_eq_some hresult)
  · rw [records_rewritten] at hr
    exact rewrite_clears hr
  · rw [rewrite_fst_eq hresult, List.any_eq_true]

/-- A second call finds nothing to do: it leaves the packet as the first has left it, and succeeds,
without any rewriting, exactly where the first has succeeded. -/
theorem rewrite_idempotent (p : Bytes) :
    (rewritePrivateARecordsToZero (rewritePrivateARecordsToZero p).val.2).val =
      ((rewritePrivateARecordsToZero p).val.1.map fun _ => false,
        (rewritePrivateARecordsToZero p).val.2) := by
  cases hstart : walkStart p with
  | none =>
    have hfail : (rewritePrivateARecordsToZero p).val = (none, p) := by rw [val_rewrite, hstart]
    rw [hfail]
    exact hfail
  | some offset =>
    have hfirst : (rewritePrivateARecordsToZero p).val =
        (rewriteRecords (recordCount p) p offset false).val := by rw [val_rewrite, hstart]
    obtain ⟨hstart', hcount⟩ := @walkStart_rewriteRecords p offset false hstart
    have hclean := recordsFrom_rewriteRecords (recordCount p) p offset false
    rw [hfirst, val_rewrite, hstart', hcount]
    dsimp only
    rw [rewriteRecords_of_clean, hclean, rewriteRecords_fst]
    · split_ifs <;> rfl
    · intro r hr
      rw [hclean] at hr
      exact rewriteRecords_clears hr

end Gravastar
