import Kzg.Setup.Public

/-! # Setups in files

A file holds the written forms of its points, most significant byte first, one after the other.
Loading reads as many points as asked for and ignores what follows. The pieces of a file are handed
out to workers, and what they read is put together by the offsets of the pieces. Memory has no
limit here: room can be made for any number of points before the first one is read. -/

namespace Kzg

def pointsToBytes {G : Type} [PointCodec G] (points : List G) : List UInt8 :=
  points.flatMap pointBytes

/-- The worker to which the piece at each offset falls. -/
structure Schedule where
  workers : Nat
  workerAt : Nat → Fin workers

namespace Schedule

def alone : Schedule := ⟨1, fun _ => 0⟩

/-- The pieces of one worker, in the order of the file. -/
def share {α : Type} (s : Schedule) (pieces : List (α × Nat)) (worker : Fin s.workers) :
    List (α × Nat) :=
  pieces.filter fun (_, offset) => s.workerAt offset = worker

end Schedule

/-- A piece is named by its offset when it cannot be read. -/
def readPiece {G : Type} [PointCodec G] (piece : List UInt8) (offset : Nat) :
    Except KzgError (G × Nat) := do
  let p ← (readPoint piece).mapError fun e => .badPoint offset e.message
  return (p, offset)

/-- A worker stops at the first of its pieces that it cannot read; of the workers that stop, the
first one has its error reported. -/
def readPieces {G : Type} [PointCodec G] (schedule : Schedule)
    (pieces : List (List UInt8 × Nat)) : Except KzgError (List G) := do
  let shares ← (List.finRange schedule.workers).mapM fun worker =>
    (schedule.share pieces worker).mapM fun (piece, offset) => readPiece piece offset
  return (shares.flatten.mergeSort fun p q => p.2 ≤ q.2).map fun (p, _) => p

/-- The first `count` points of a file, of which every complete one must be readable even when
there are too few. -/
def readPoints {G : Type} [PointCodec G] (schedule : Schedule) (bytes : List UInt8)
    (count : Nat) : Except KzgError (List G) := do
  let size := PointCodec.byteSize G
  let pieces := (chunks size (min count (bytes.length / size)) bytes).zipIdx
  let points ← readPieces schedule (pieces.map fun (piece, i) => (piece, i * size))
  if points.length = count then return points else throw (.pointCount count points.length)

def loadPoints {G : Type} [PointGroup G] [PointCodec G] (schedule : Schedule)
    (file : Option (List UInt8)) (count : Nat) : Except KzgError (List G) := do
  let some bytes := file | throw .fileMissing
  let points ← readPoints schedule bytes count
  points.forM checkPoint
  return points

namespace PublicSetup

variable {G1 G2 : Type} [PointGroup G1] [PointGroup G2] [PointCodec G1] [PointCodec G2]

def toFiles (s : PublicSetup G1 G2) : List UInt8 × List UInt8 :=
  (pointsToBytes s.g1, pointsToBytes s.g2)

/-- The first file is read and checked before the second one is looked at. -/
def ofFilesBy (g1Schedule g2Schedule : Schedule) (g1File g2File : Option (List UInt8))
    (g1Length g2Length : Nat) : Except KzgError (PublicSetup G1 G2) := do
  let g1 ← loadPoints g1Schedule g1File g1Length
  let g2 ← loadPoints g2Schedule g2File g2Length
  ofVectors g1 g2

/-- Read by one worker. -/
def ofFiles (g1File g2File : Option (List UInt8)) (g1Length g2Length : Nat) :
    Except KzgError (PublicSetup G1 G2) :=
  ofFilesBy .alone .alone g1File g2File g1Length g2Length

end PublicSetup

end Kzg
