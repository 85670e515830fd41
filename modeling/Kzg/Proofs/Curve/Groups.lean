import Kzg.Proofs.Curve.Compressed
import Kzg.Proofs.Group.Laws
import Kzg.Curve.Groups

/-! # The points of both groups can be read back -/

namespace Kzg.Bn254

instance : LawfulPointReader G1 where
  length_encode := Compressed.length_encode
  byteSize_pos := LawfulCoordinate.byteSize_pos
  decode?_encode {p} h := Compressed.decode?_encode ((checkPoint_passes_iff p).mp h)

instance : LawfulPointReader G2 where
  length_encode := Compressed.length_encode
  byteSize_pos := LawfulCoordinate.byteSize_pos
  decode?_encode {p} h := Compressed.decode?_encode ((checkPoint_passes_iff p).mp h)

end Kzg.Bn254
