import Kzg.Proofs.Group.Laws

/-! # Points read from strings

A string is read when it has the length of a written point and its bytes, last one first, are those
of a point. -/

namespace Kzg

section Written

variable {G : Type} [PointCodec G]

@[simp] theorem length_pointBytes [LawfulPointCodec G] (p : G) :
    (pointBytes p).length = PointCodec.byteSize G := by
  rw [pointBytes, List.length_reverse, LawfulPointCodec.length_encode]

theorem readPoint_of_length_ne {bytes : List UInt8} (h : bytes.length ≠ PointCodec.byteSize G) :
    (readPoint bytes : Except PointReadError G) =
      .error (.byteCount (PointCodec.byteSize G) bytes.length) :=
  if_pos h

theorem readPoint_eq_ok_iff {bytes : List UInt8} {p : G} : readPoint bytes = .ok p ↔
    bytes.length = PointCodec.byteSize G ∧ PointCodec.decode? bytes.reverse = some p := by
  by_cases hLength : bytes.length = PointCodec.byteSize G
  · rw [readPoint, if_neg (not_not.mpr hLength)]
    cases PointCodec.decode? (G := G) bytes.reverse <;> simp [hLength]
  · simp [readPoint_of_length_ne hLength, hLength]

theorem readPoint_pointBytes [PointGroup G] [LawfulPointReader G] {p : G}
    (h : checkPoint p = .ok ()) : readPoint (pointBytes p) = .ok p := by
  rw [readPoint_eq_ok_iff, pointBytes, List.reverse_reverse, LawfulPointReader.decode?_encode h,
    List.length_reverse, LawfulPointCodec.length_encode]
  exact ⟨rfl, rfl⟩

end Written

/-- What is read is valid, and a point other than the identity is read from its written form
only. -/
class CanonicalPointReader (G : Type) [PointGroup G] [PointCodec G] : Prop
    extends LawfulPointReader G where
  checkPoint_of_decode? {bytes : List UInt8} {p : G} : PointCodec.decode? bytes = some p →
    checkPoint p = .ok ()
  encode_of_decode? {bytes : List UInt8} {p : G} : bytes.length = PointCodec.byteSize G →
    PointCodec.decode? bytes = some p → p ≠ 0 → PointCodec.encode p = bytes

section Canonical

variable {G : Type} [PointGroup G] [PointCodec G] [CanonicalPointReader G] {bytes : List UInt8}
  {p : G} (h : readPoint bytes = .ok p)

include h

theorem checkPoint_of_readPoint : checkPoint p = .ok () :=
  CanonicalPointReader.checkPoint_of_decode? (readPoint_eq_ok_iff.mp h).2

theorem pointBytes_of_readPoint (hp : p ≠ 0) : pointBytes p = bytes := by
  obtain ⟨hLength, hDecode⟩ := readPoint_eq_ok_iff.mp h
  rw [pointBytes, CanonicalPointReader.encode_of_decode? (by rwa [List.length_reverse]) hDecode hp,
    List.reverse_reverse]

end Canonical

end Kzg
