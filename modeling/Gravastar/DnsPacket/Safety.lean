import Gravastar.DnsPacket.Names
import Gravastar.DnsPacket.Rewrite

/-!
# The packet code stays inside the packet

Upstream and client bytes are hostile, so every reader is shown to touch only
indices below the packet length, whatever the bytes are. All functions are
total: the jump bound of `ReadName` and the advancing offsets are the measures
of their definitions.
-/

namespace Gravastar
open Traced

variable {packet : Bytes} {n : Nat}

theorem within_readU16 {offset : Nat} (h : offset + 1 < n) : Within n (readU16 packet offset) :=
  .bind ((within_peek _ _).mpr (by omega)) (.bind ((within_peek _ _).mpr h) (within_pure _))

theorem within_parseQNameLoop (packet : Bytes) (pos : Nat) (name : Bytes) :
    Within packet.length (parseQNameLoop packet pos name) := by
  induction pos, name using parseQNameLoop.induct packet with
  | case2 pos name hend =>
    rw [parseQNameLoop, if_neg hend]
    exact within_pure _
  | case1 pos name hin ih =>
    rw [parseQNameLoop, if_pos hin]
    refine .bind ((within_peek _ _).mpr hin) ?_
    split_ifs with _ _ hfit
    iterate 3 exact within_pure _
    exact .bind (within_slice _ (by omega)) (ih _ hfit _)

theorem within_parseQName (packet : Bytes) (offset : Nat) :
    Within packet.length (parseQName packet offset) := by
  refine .bind (within_parseQNameLoop packet offset []) ?_
  split
  · exact within_pure _
  · split <;> exact within_pure _

theorem within_readNameLoop (packet : Bytes) (pos jumpEnd : Nat) (jumped : Bool) (depth : Nat)
    (name : Bytes) : Within packet.length (readNameLoop packet pos jumpEnd jumped depth name) := by
  induction pos, jumpEnd, jumped, depth, name using readNameLoop.induct packet with
  | case2 pos jumpEnd jumped depth name hend =>
    rw [readNameLoop, if_neg hend]
    exact within_pure _
  | case1 pos jumpEnd jumped depth name hin ihJump ihLabel =>
    rw [readNameLoop, if_pos hin]
    refine .bind ((within_peek _ _).mpr hin) ?_
    by_cases h0 : (peek packet pos).val = 0
    · rw [if_pos h0]
      exact within_pure _
    rw [if_neg h0]
    by_cases hptr : (peek packet pos).val &&& 0xC0 = 0xC0
    · rw [if_pos hptr]
      by_cases hlow : pos + 1 ≥ packet.length
      · rw [if_pos hlow]
        exact within_pure _
      rw [if_neg hlow]
      refine .bind ((within_peek _ _).mpr (by omega)) ?_
      by_cases hdepth : depth + 1 > 16
      · simpa only [if_pos hdepth] using within_pure _
      · simpa only [if_neg hdepth, dite_eq_ite] using ihJump _ hlow _ hdepth
    rw [if_neg hptr]
    split_ifs with _ hfit
    · exact within_pure _
    · exact within_pure _
    · exact .bind (within_slice _ (by omega)) (ihLabel _ hfit _)

theorem within_readName (packet : Bytes) (offset depth : Nat) :
    Within packet.length (readName packet offset depth) := by
  unfold readName
  split_ifs
  · exact within_pure _
  · exact within_readNameLoop packet offset offset false depth []

theorem within_parseDnsQuery (packet : Bytes) : Within packet.length (parseDnsQuery packet) := by
  unfold parseDnsQuery
  by_cases h12 : packet.length < 12
  · rw [if_pos h12]
    exact within_pure _
  rw [if_neg h12]
  iterate 7 refine .bind (within_readU16 (by omega)) ?_
  split_ifs
  · exact within_pure _
  refine .bind (within_parseQName packet 12) ?_
  split
  · exact within_pure _
  · split_ifs
    · exact within_pure _
    · exact .bind (within_readU16 (by omega)) (.bind (within_readU16 (by omega)) (within_pure _))

/-! ## Record walks -/

theorem within_skipQuestions (packet : Bytes) (n offset : Nat) :
    Within packet.length (skipQuestions packet n offset) := by
  induction n generalizing offset with
  | zero => exact within_pure _
  | succ n ih =>
    refine .bind (within_readName packet offset 0) ?_
    split
    · exact within_pure _
    · split_ifs
      · exact within_pure _
      · exact ih _

theorem within_readRecord (packet : Bytes) (offset : Nat) :
    Within packet.length (readRecord packet offset) := by
  refine .bind (within_readName packet offset 0) ?_
  split
  · exact within_pure _
  · split_ifs
    · exact within_pure _
    · refine .bind (within_readU16 (by omega)) (.bind (within_readU16 (by omega)) ?_)
      dsimp only
      split_ifs <;> exact within_pure _

theorem readRecord_fits {offset : Nat} {r : RecordHead}
    (h : (readRecord packet offset).val = some r) : r.next ≤ packet.length := by
  rw [readRecord, val_bind] at h
  cases hn : (readName packet offset).val with
  | none => simp [hn] at h
  | some ne =>
    obtain ⟨name, e⟩ := ne
    simp only [hn, val_ite, val_bind, val_pure] at h
    split_ifs at h with h10 hfit
    obtain rfl := Option.some.inj h
    simpa [RecordHead.next] using hfit

@[simp] theorem length_zeroAddress (packet : Bytes) (addr : Nat) :
    (zeroAddress packet addr).val.length = packet.length := by
  simp [zeroAddress]

theorem within_zeroAddress {addr : Nat} (h : addr + 3 < n) :
    Within n (zeroAddress packet addr) :=
  .bind ((within_poke _ _ _).mpr (by omega)) (.bind ((within_poke _ _ _).mpr (by omega))
    (.bind ((within_poke _ _ _).mpr (by omega)) ((within_poke _ _ _).mpr h)))

/-- Writing into the RDATA keeps the length, so later checks still speak of the same bound. -/
theorem within_rewriteRecords (n : Nat) (packet : Bytes) (offset : Nat) (replaced : Bool) :
    Within packet.length (rewriteRecords n packet offset replaced) := by
  induction n generalizing packet offset replaced with
  | zero => exact within_pure _
  | succ n ih =>
    refine .bind (within_readRecord packet offset) ?_
    split
    · exact within_pure _
    · rename_i r hr
      have hfit := readRecord_fits hr
      split_ifs with hA
      · have h4 : r.rdataOffset + 4 ≤ packet.length := by
          simpa [RecordHead.next, hA.2] using hfit
        refine .bind ((within_peek _ _).mpr (by omega))
          (.bind ((within_peek _ _).mpr (by omega)) ?_)
        split_ifs
        · refine .bind (within_zeroAddress (by omega)) ?_
          have := ih (zeroAddress packet r.rdataOffset).val r.next true
          rwa [length_zeroAddress] at this
        · exact ih _ _ _
      · exact ih _ _ _

theorem within_rewritePrivateARecordsToZero (packet : Bytes) :
    Within packet.length (rewritePrivateARecordsToZero packet) := by
  unfold rewritePrivateARecordsToZero
  by_cases h12 : packet.length < 12
  · rw [if_pos h12]
    exact within_pure _
  rw [if_neg h12]
  iterate 4 refine .bind (within_readU16 (by omega)) ?_
  refine .bind (within_skipQuestions packet _ _) ?_
  split
  · exact within_pure _
  · exact within_rewriteRecords _ packet _ _

theorem within_firstPtrTarget (packet : Bytes) (n offset : Nat) :
    Within packet.length (firstPtrTarget packet n offset) := by
  induction n generalizing offset with
  | zero => exact within_pure _
  | succ n ih =>
    refine .bind (within_readRecord packet offset) ?_
    split
    · exact within_pure _
    · split_ifs
      · refine .bind (within_readName packet _ 0) ?_
        split <;> exact within_pure _
      · exact ih _

theorem within_extractFirstPtrTarget (packet : Bytes) :
    Within packet.length (extractFirstPtrTarget packet) := by
  unfold extractFirstPtrTarget
  by_cases h12 : packet.length < 12
  · rw [if_pos h12]
    exact within_pure _
  rw [if_neg h12]
  iterate 2 refine .bind (within_readU16 (by omega)) ?_
  refine .bind (within_skipQuestions packet _ _) ?_
  split
  · exact within_pure _
  · exact within_firstPtrTarget packet _ _

/-! ## Strict progress -/

theorem readName_advances {offset e : Nat} {name : Bytes}
    (h : (readName packet offset).val = some (name, e)) : offset < e ∧ e ≤ packet.length := by
  obtain ⟨j, ls, _, hat, _⟩ := val_readName_iff.mp h
  exact hat.end_bounds

theorem parseQName_advances {offset e : Nat} {name : Bytes} (hin : offset < packet.length)
    (h : (parseQName packet offset).val = some (name, e)) : offset < e ∧ e ≤ packet.length := by
  obtain ⟨hloop, hle⟩ := val_parseQName.mp h
  refine ⟨?_, hle⟩
  obtain ⟨ls, _, ⟨_, rfl⟩ | ⟨_, rfl⟩⟩ :=
    parseQNameLoop_sound packet offset [] name e hin.le hloop
  · have := length_encodeName_pos ls
    omega
  · exact hin

/-- On any bytes the packet readers stay inside the packet, and a name that was
read takes up at least one byte of it. -/
theorem packet_code_in_bounds (packet : Bytes) :
    Within packet.length (parseDnsQuery packet) ∧
    Within packet.length (rewritePrivateARecordsToZero packet) ∧
    Within packet.length (extractFirstPtrTarget packet) ∧
    ∀ offset < packet.length, ∀ name e,
      ((readName packet offset).val = some (name, e) → offset < e ∧ e ≤ packet.length) ∧
      ((parseQName packet offset).val = some (name, e) → offset < e ∧ e ≤ packet.length) :=
  ⟨within_parseDnsQuery packet, within_rewritePrivateARecordsToZero packet,
    within_extractFirstPtrTarget packet, fun _ hin _ _ =>
      ⟨readName_advances, parseQName_advances hin⟩⟩

end Gravastar
