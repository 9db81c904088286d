/-
# The header of a blob is transparent

Nothing is read outside a blob (`Blob.checkedPayload_eq`). So a blob decodes by the
bytes behind its header and envelope, and of the header itself only the announced
size of the envelope counts.

The kind of envelope is told by three bits of the flags, and its size stands in a
list by that kind (`Blob.envelopeSize?_eq`). `Blob.Wrapped` is what all blobs have
in common whose header can be taken off; for these the payload is known
(`Blob.Wrapped.payload_eq`), and neither what stands in the header nor how the
payload begins plays a part in it.

Key definitions: `Blob.envelopeKind`, `Blob.Wrapped`.
Key theorems: `Blob.checkedPayload_eq`, `Blob.Wrapped.payload_eq`,
`Geometry.ofBlobWith_transparent`.
-/
import LatLonText.Blob

namespace LatLonText

namespace Blob

variable {bytes : List UInt8}

/-! ### Envelopes -/

/-- The kind of envelope that the flags announce, in bits 1 to 3. -/
def envelopeKind (flags : UInt8) : Nat :=
  (flags.toNat.testBit 1).toNat + 2 * (flags.toNat.testBit 2).toNat
    + 4 * (flags.toNat.testBit 3).toNat

/-- The sizes of the kinds of envelopes: none; X and Y; with Z; with M; with both. -/
def envelopeSizes : List Nat := [0, 32, 48, 48, 64]

theorem envelopeKind_eq (flags : UInt8) : envelopeKind flags = flags.toNat / 2 % 8 := by
  simp only [envelopeKind, Nat.toNat_testBit]
  omega

/-- **The size of an envelope** goes by its kind. -/
theorem envelopeSize?_eq (flags : UInt8) :
    envelopeSize? flags = envelopeSizes[envelopeKind flags]? := by
  rw [envelopeKind_eq, envelopeSize?]
  have hkind : flags.toNat / 2 % 8 < 8 := Nat.mod_lt _ (by decide)
  generalize flags.toNat / 2 % 8 = kind at hkind
  revert kind
  decide

/-! ### The payload -/

theorem hasHeader_iff : hasHeader bytes = true ↔ [0x47, 0x50] <+: bytes := by
  rw [hasHeader, beq_iff_eq, List.prefix_iff_eq_take]
  exact eq_comm

/-- **No access is outside** of a blob, so the payload is what the checked accesses give. -/
theorem checkedPayload_eq (bytes : List UInt8) : checkedPayload bytes = some (payload bytes) :=
  (Option.some_get (isSome_checkedPayload bytes)).symm

theorem payload_eq_of_checked {result : Except Error (List UInt8)}
    (h : checkedPayload bytes = some result) : payload bytes = result :=
  Option.some.inj ((checkedPayload_eq bytes).symm.trans h)

theorem payload_of_plain (h : ¬ [0x47, 0x50] <+: bytes) : payload bytes = .ok bytes := by
  rw [← hasHeader_iff, Bool.not_eq_true] at h
  apply payload_eq_of_checked
  rw [checkedPayload, h]
  rfl

theorem payload_of_short (h : [0x47, 0x50] <+: bytes) (hshort : bytes.length < headerSize) :
    payload bytes = .error (.truncatedHeader bytes.length headerSize) := by
  apply payload_eq_of_checked
  rw [checkedPayload, hasHeader_iff.mpr h]
  exact if_pos hshort

/-- Behind the check of the header, the kind of envelope decides. -/
theorem payload_of_flags {flags : UInt8} (h : [0x47, 0x50] <+: bytes)
    (hlong : headerSize ≤ bytes.length) (hflags : bytes[3]? = some flags) :
    payload bytes =
      match envelopeSizes[envelopeKind flags]? with
      | none => .error (.invalidEnvelope flags)
      | some size =>
        if bytes.length < headerSize + size then
          .error (.truncatedHeader bytes.length (headerSize + size))
        else .ok (bytes.drop (headerSize + size)) := by
  apply payload_eq_of_checked
  simp only [checkedPayload, hasHeader_iff.mpr h, Bool.not_true, Bool.false_eq_true, if_false,
    if_neg (Nat.not_lt.mpr hlong), hflags, Option.bind_eq_bind, Option.bind_some, envelopeSize?_eq]
  cases envelopeSizes[envelopeKind flags]? with
  | none => rfl
  | some size =>
    by_cases hshort : bytes.length < headerSize + size
    · simp only [if_pos hshort]
    · simp only [if_neg hshort, suffix?, if_pos (Nat.not_lt.mp hshort), Option.map_some]

/-- A blob with a header that announces an envelope of a size, and long enough for both. -/
structure Wrapped (size : Nat) (bytes : List UInt8) : Prop where
  magic : [0x47, 0x50] <+: bytes
  announced : ∃ flags, bytes[3]? = some flags ∧ envelopeSizes[envelopeKind flags]? = some size
  long : headerSize + size ≤ bytes.length

namespace Wrapped

variable {size : Nat}

/-- **Header and envelope are taken off**, whatever is in them. -/
theorem payload_eq (h : Wrapped size bytes) :
    payload bytes = .ok (bytes.drop (headerSize + size)) := by
  obtain ⟨flags, hflags, hsize⟩ := h.announced
  rw [payload_of_flags h.magic (Nat.le_of_add_right_le h.long) hflags, hsize]
  exact if_neg (Nat.not_lt.mpr h.long)

/-- What stands behind header and envelope changes neither. -/
theorem append (h : Wrapped size bytes) (w : List UInt8) : Wrapped size (bytes ++ w) where
  magic := h.magic.trans (List.prefix_append bytes w)
  announced := by
    obtain ⟨flags, hflags, hsize⟩ := h.announced
    have hthree : 3 < bytes.length := List.getElem?_eq_some_iff.mp hflags |>.1
    exact ⟨flags, (List.getElem?_append_left hthree).trans hflags, hsize⟩
  long := by
    rw [List.length_append]
    exact Nat.le_add_right_of_le h.long

/-- **What is wrapped** in a header is the payload, however it begins. -/
theorem payload_append (h : Wrapped size bytes) (hlength : bytes.length = headerSize + size)
    (w : List UInt8) : payload (bytes ++ w) = .ok w := by
  rw [(h.append w).payload_eq, ← hlength, List.drop_left]

end Wrapped

end Blob

/-! ### Decoding -/

namespace Geometry

/-- The geometry in a binary geometry that is read by `read`. -/
def ofWkbWith (read : List UInt8 → Except Wkb.Error Shape) (bytes : List UInt8) :
    Except Error Geometry :=
  ((read bytes).mapError .invalidWkb).map Shape.toGeometry

variable {read : List UInt8 → Except Wkb.Error Shape} {bytes : List UInt8}

theorem ofBlobWith_of_payload {w : List UInt8} (h : Blob.payload bytes = .ok w) :
    ofBlobWith read bytes = ofWkbWith read w := by
  rw [ofBlobWith, Blob.decodeWith, h]
  rfl

theorem ofBlobWith_of_error {fault : Error} (h : Blob.payload bytes = .error fault) :
    ofBlobWith read bytes = .error fault := by
  rw [ofBlobWith, Blob.decodeWith, h]
  rfl

open Blob (envelopeKind envelopeSizes Wrapped headerSize)

/-- **The header of a blob is transparent**, whatever reads the binary geometry. No access is
outside of the blob. Without the letters of the header the blob itself is read. With them it is
refused when it has fewer than eight bytes, else when its flags name no kind of envelope, else when
it ends before the envelope does; else what follows the envelope is read. So two blobs with the same
kind of envelope and the same bytes behind it decode alike, and what is wrapped in a header decodes
as it does by itself, however it begins. -/
theorem ofBlobWith_transparent (read : List UInt8 → Except Wkb.Error Shape) :
    (∀ bytes, Blob.checkedPayload bytes = some (Blob.payload bytes)) ∧
    (∀ bytes, ¬ [0x47, 0x50] <+: bytes → ofBlobWith read bytes = ofWkbWith read bytes) ∧
    (∀ bytes, [0x47, 0x50] <+: bytes → bytes.length < 8 →
      ofBlobWith read bytes = .error (.truncatedHeader bytes.length 8)) ∧
    (∀ bytes flags, [0x47, 0x50] <+: bytes → 8 ≤ bytes.length → bytes[3]? = some flags →
      (4 < envelopeKind flags → ofBlobWith read bytes = .error (.invalidEnvelope flags)) ∧
      ∀ size, envelopeSizes[envelopeKind flags]? = some size →
        (bytes.length < 8 + size →
          ofBlobWith read bytes = .error (.truncatedHeader bytes.length (8 + size))) ∧
        (8 + size ≤ bytes.length →
          ofBlobWith read bytes = ofWkbWith read (bytes.drop (8 + size)))) ∧
    (∀ size a b, Wrapped size a → Wrapped size b → a.drop (8 + size) = b.drop (8 + size) →
      ofBlobWith read a = ofBlobWith read b) ∧
    ∀ size header w, Wrapped size header → header.length = 8 + size →
      ofBlobWith read (header ++ w) = ofWkbWith read w := by
  refine ⟨Blob.checkedPayload_eq, fun bytes h => ofBlobWith_of_payload (Blob.payload_of_plain h),
    fun bytes h hshort => ofBlobWith_of_error (Blob.payload_of_short h hshort),
    fun bytes flags h hlong hflags => ⟨fun hkind => ?_, fun size hsize => ⟨fun hshort => ?_,
      fun hlong' => ?_⟩⟩, fun size a b ha hb htail => ?_, fun size header w h hlength => ?_⟩
  · have hnone : envelopeSizes[envelopeKind flags]? = none := List.getElem?_eq_none hkind
    apply ofBlobWith_of_error
    rw [Blob.payload_of_flags h hlong hflags, hnone]
  · apply ofBlobWith_of_error
    rw [Blob.payload_of_flags h hlong hflags, hsize]
    exact if_pos hshort
  · exact ofBlobWith_of_payload (Wrapped.payload_eq ⟨h, ⟨flags, hflags, hsize⟩, hlong'⟩)
  · rw [ofBlobWith_of_payload ha.payload_eq, ofBlobWith_of_payload hb.payload_eq]
    exact congrArg (ofWkbWith read) htail
  · exact ofBlobWith_of_payload (h.payload_append hlength w)

/-- Two letters are no geometry and no header; in a header with an envelope they are read as a
geometry, and a point decodes alike in two headers of that kind. -/
theorem ofBlobWith_transparent_wrapped :
    let a : List UInt8 := [0x47, 0x50, 0, 0x03, 1, 2, 3, 4] ++ List.replicate 32 0
    let b : List UInt8 := [0x47, 0x50, 9, 0xe2, 0, 0, 0, 0] ++ List.replicate 32 0xff
    let point : List UInt8 := [1, 1, 0, 0, 0] ++ List.replicate 16 0
    Wrapped 32 a ∧ Wrapped 32 b ∧
    ofBlobWith Wkb.read [0x47, 0x50] = .error (.truncatedHeader 2 8) ∧
    ofBlobWith Wkb.read (a ++ [0x47, 0x50]) = .error (.invalidWkb .invalidByteOrder) ∧
    ofBlobWith Wkb.read (a ++ point) = ofBlobWith Wkb.read (b ++ point) := by
  intro a b point
  have ha : Wrapped 32 a := ⟨by decide, ⟨0x03, rfl, rfl⟩, by decide⟩
  have hb : Wrapped 32 b := ⟨by decide, ⟨0xe2, rfl, rfl⟩, by decide⟩
  obtain ⟨-, -, hshort, -, halike, hwrapped⟩ := ofBlobWith_transparent Wkb.read
  exact ⟨ha, hb, hshort [0x47, 0x50] (by decide) (by decide), hwrapped 32 a [0x47, 0x50] ha rfl,
    halike 32 (a ++ point) (b ++ point) (ha.append point) (hb.append point) rfl⟩

end Geometry

end LatLonText
