import Gravastar.DnsPacket.Read
import Gravastar.Lib.Marker
import Mathlib.Data.List.AList

/-!
# Local records (`local_records.cpp`)

The key of a name and a type is also the cache's key; the source builds it in
two functions with the same body.
-/

namespace Gravastar

/-- The canonical name, a bar, and the type in decimal. -/
def nameTypeKey (name : Bytes) (qtype : UInt16) : Bytes :=
  canonicalName name ++ ascii "|" ++ decimal qtype.toNat

/-- The last bar of a key separates the name from the number. -/
theorem nameTypeKey_injective {name name' : Bytes} {qtype qtype' : UInt16}
    (h : nameTypeKey name qtype = nameTypeKey name' qtype') :
    canonicalName name = canonicalName name' ∧ qtype = qtype' := by
  have hbar : ∀ n, ¬ [124] <:+: decimal n := fun n hmem =>
    absurd (isDigit_of_mem_decimal (hmem.subset List.mem_cons_self)) (by decide)
  obtain ⟨hname, hnumber⟩ := Marker.cut_last (by simp) (hbar _) (hbar _) h
  exact ⟨hname, UInt16.toNat_inj.mp (decimal_injective hnumber)⟩

/-- The fields of `LocalRecord` that are read after loading. -/
structure LocalRecord where
  name : Bytes
  type : Bytes
  value : Bytes
  deriving DecidableEq, Repr

structure LocalRecords where
  records : AList fun _ : Bytes => LocalRecord
  deriving DecidableEq

namespace LocalRecords

def makeKey (name : Bytes) (qtype : UInt16) : Bytes := nameTypeKey name qtype

/-- `TypeFromString`, 0 for any other text. -/
def typeFromString (type : Bytes) : UInt16 :=
  if type = ascii "a" then dnsTypeA
  else if type = ascii "aaaa" then dnsTypeAaaa
  else if type = ascii "cname" then dnsTypeCname
  else if type = ascii "ptr" then dnsTypePtr
  else if type = ascii "mx" then dnsTypeMx
  else if type = ascii "txt" then dnsTypeTxt
  else 0

/-- One turn of the loop of `Load`. -/
def loadOne (records : AList fun _ : Bytes => LocalRecord) (rec : LocalRecord) :
    AList fun _ : Bytes => LocalRecord :=
  let qtype := typeFromString (toLower rec.type)
  if qtype = 0 then records else records.insert (makeKey rec.name qtype) rec

/-- `Load`, which forgets what was loaded before. -/
def load (records : List LocalRecord) : LocalRecords := ⟨records.foldl loadOne ∅⟩

/-- `Resolve`: the value and the type of the record found. -/
def resolve (r : LocalRecords) (name : Bytes) (qtype : UInt16) : Option (Bytes × UInt16) :=
  match r.records.lookup (makeKey name qtype) with
  | none => none
  | some rec => some (rec.value, qtype)

/-! ## What `Load` installs -/

end LocalRecords

namespace LocalRecord

/-- The record has this type, a known one, and this name up to letter case and a final dot. -/
def IsFor (rec : LocalRecord) (name : Bytes) (qtype : UInt16) : Prop :=
  LocalRecords.typeFromString (toLower rec.type) = qtype ∧ qtype ≠ 0 ∧
    canonicalName rec.name = canonicalName name

instance (rec : LocalRecord) (name : Bytes) (qtype : UInt16) : Decidable (rec.IsFor name qtype) :=
  inferInstanceAs (Decidable (_ ∧ _ ∧ _))

end LocalRecord

namespace LocalRecords

theorem load_concat (records : List LocalRecord) (rec : LocalRecord) :
    load (records ++ [rec]) = ⟨loadOne (load records).records rec⟩ := by
  simp only [load, List.foldl_append, List.foldl_cons, List.foldl_nil]

theorem resolve_loadOne (r : LocalRecords) (rec : LocalRecord) (name : Bytes) (qtype : UInt16) :
    resolve ⟨loadOne r.records rec⟩ name qtype =
      if rec.IsFor name qtype then some (rec.value, qtype) else r.resolve name qtype := by
  rw [resolve, loadOne]
  dsimp only
  by_cases hfor : rec.IsFor name qtype
  · obtain ⟨htype, hne, hname⟩ := id hfor
    have hkey : makeKey rec.name qtype = makeKey name qtype := by
      rw [makeKey, makeKey, nameTypeKey, nameTypeKey, hname]
    rw [if_pos hfor, htype, if_neg hne, hkey, AList.lookup_insert]
  · rw [if_neg hfor]
    by_cases hzero : typeFromString (toLower rec.type) = 0
    · rw [if_pos hzero, resolve]
    · have hkey : makeKey name qtype ≠ makeKey rec.name (typeFromString (toLower rec.type)) := by
        intro h
        obtain ⟨hname, htype⟩ := nameTypeKey_injective h
        exact hfor ⟨htype.symm, htype ▸ hzero, hname.symm⟩
      rw [if_neg hzero, AList.lookup_insert_ne hkey, resolve]

/-- `Resolve` returns the last record loaded for a name and a type. -/
theorem resolve_load (records : List LocalRecord) (name : Bytes) (qtype : UInt16) :
    (load records).resolve name qtype =
      (records.reverse.find? fun rec => rec.IsFor name qtype).map
        fun rec => (rec.value, qtype) := by
  induction records using List.reverseRecOn with
  | nil => rfl
  | append_singleton records rec ih =>
    rw [load_concat, resolve_loadOne, List.reverse_append, List.reverse_singleton,
      List.singleton_append, List.find?_cons]
    by_cases hfor : rec.IsFor name qtype
    · simp [hfor]
    · simp [hfor, ih]

theorem resolve_load_eq_none {records : List LocalRecord} {name : Bytes} {qtype : UInt16} :
    (load records).resolve name qtype = none ↔ ∀ rec ∈ records, ¬ rec.IsFor name qtype := by
  rw [resolve_load, Option.map_eq_none_iff, List.find?_eq_none]
  simp

theorem exists_record_of_resolve {records : List LocalRecord} {name value : Bytes}
    {qtype rtype : UInt16} (h : (load records).resolve name qtype = some (value, rtype)) :
    rtype = qtype ∧ ∃ rec ∈ records, rec.IsFor name qtype ∧ rec.value = value := by
  rw [resolve_load] at h
  obtain ⟨rec, hfind, hrec⟩ := Option.map_eq_some_iff.mp h
  obtain ⟨hvalue, htype⟩ := Prod.mk.inj hrec
  have hmem := List.mem_of_find?_eq_some hfind
  have hfor := List.find?_some hfind
  exact ⟨htype.symm, rec, List.mem_reverse.mp hmem, of_decide_eq_true hfor, hvalue⟩

end LocalRecords

/-! ## A scan for the last match -/

/-- The types that a record may have, by their names. -/
def recordTypes : List (Bytes × UInt16) :=
  [(ascii "a", dnsTypeA), (ascii "aaaa", dnsTypeAaaa), (ascii "cname", dnsTypeCname),
    (ascii "ptr", dnsTypePtr), (ascii "mx", dnsTypeMx), (ascii "txt", dnsTypeTxt)]

/-- The record has the name of this type, in any letter case, and this name, up to letter case and
a final dot. -/
def LocalRecord.Matches (rec : LocalRecord) (name : Bytes) (qtype : UInt16) : Prop :=
  (toLower rec.type, qtype) ∈ recordTypes ∧ canonicalName rec.name = canonicalName name

namespace LocalRecords

theorem mem_recordTypes {type : Bytes} {qtype : UInt16} :
    (type, qtype) ∈ recordTypes ↔ typeFromString type = qtype ∧ qtype ≠ 0 := by
  have hknown : ∀ p ∈ recordTypes, typeFromString p.1 = p.2 ∧ p.2 ≠ 0 := by decide
  constructor
  · exact hknown (type, qtype)
  · rintro ⟨rfl, hne⟩
    unfold typeFromString at hne ⊢
    split_ifs at hne ⊢ with h h h h h h
    any_goals simp [recordTypes, h]
    exact absurd rfl hne

theorem matches_iff {rec : LocalRecord} {name : Bytes} {qtype : UInt16} :
    rec.Matches name qtype ↔ rec.IsFor name qtype := by
  rw [LocalRecord.Matches, LocalRecord.IsFor, mem_recordTypes, and_assoc]

/-- `Resolve` after `Load` scans the records for the last match. Different names or types never
share a key, whatever bytes the names hold. -/
theorem resolve_last_match (records : List LocalRecord) (name : Bytes) (qtype : UInt16) :
    (∀ value rtype, (load records).resolve name qtype = some (value, rtype) ↔
      rtype = qtype ∧ ∃ older rec newer, records = older ++ rec :: newer ∧
        rec.Matches name qtype ∧ rec.value = value ∧ ∀ r ∈ newer, ¬ r.Matches name qtype) ∧
    ((load records).resolve name qtype = none ↔ ∀ rec ∈ records, ¬ rec.Matches name qtype) ∧
    ∀ name' qtype', makeKey name qtype = makeKey name' qtype' ↔
      canonicalName name = canonicalName name' ∧ qtype = qtype' := by
  simp only [matches_iff]
  refine ⟨fun value rtype => ?_, resolve_load_eq_none, fun name' qtype' => ?_⟩
  · rw [resolve_load, Option.map_eq_some_iff]
    simp only [List.find?_eq_some_iff_append, decide_eq_true_eq, Prod.mk.injEq]
    constructor
    · rintro ⟨rec, ⟨hfor, newer, older, hsplit, hnewer⟩, rfl, rfl⟩
      refine ⟨rfl, older.reverse, rec, newer.reverse, ?_, hfor, rfl, fun r hr => ?_⟩
      · simpa using congrArg List.reverse hsplit
      · simpa using hnewer r (List.mem_reverse.mp hr)
    · rintro ⟨rfl, older, rec, newer, rfl, hfor, rfl, hnewer⟩
      refine ⟨rec, ⟨hfor, newer.reverse, older.reverse, by simp, fun r hr => ?_⟩, rfl, rfl⟩
      simpa using hnewer r (List.mem_reverse.mp hr)
  · constructor
    · exact nameTypeKey_injective
    · rintro ⟨hname, rfl⟩
      rw [makeKey, makeKey, nameTypeKey, nameTypeKey, hname]

end LocalRecords

end Gravastar
