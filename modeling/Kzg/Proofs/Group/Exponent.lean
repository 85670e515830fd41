import Mathlib.Algebra.Group.TypeTags.Basic
import Kzg.Proofs.Bytes
import Kzg.Proofs.Group.Laws

/-! # Groups of exponents

A group of prime order is known by the exponents of its points, and a pairing by the product of
two exponents. This is the plainest curve that meets the laws, with one point off the curve
beside the valid ones. -/

namespace Kzg

inductive Exponent (group : String)
  | valid (exponent : Fr)
  | invalid
deriving DecidableEq

namespace Exponent

variable {group : String}

def add : Exponent group → Exponent group → Exponent group
  | valid s, valid t => valid (s + t)
  | _, _ => invalid

def neg : Exponent group → Exponent group
  | valid s => valid (-s)
  | invalid => invalid

def scale (c : Fr) : Exponent group → Exponent group
  | valid s => valid (c * s)
  | invalid => invalid

def isValid : Exponent group → Bool
  | valid _ => true
  | invalid => false

def log : Exponent group → Fr
  | valid s => s
  | invalid => 0

instance : PointGroup (Exponent group) where
  zero := valid 0
  add := add
  neg := neg
  smul := scale
  name := group
  generator := valid 1
  onCurve := isValid
  inSubgroup _ := true
  decEq := inferInstance

instance : PointCodec (Exponent group) where
  byteSize := Fr.byteSize
  encode p := bytesLE Fr.byteSize (if p.isValid then p.log.val else scalarOrder)
  decode? bytes := (Residue.ofNat? (natOfLE bytes)).map valid

instance {group' : String} : Pairing (Exponent group) (Exponent group') where
  productIsOne pairs := decide ((pairs.map fun pq => pq.1.log * pq.2.log).sum = 0)

instance : LawfulPointCodec (Exponent group) where
  length_encode _ := length_bytesLE Fr.byteSize _

theorem smul_generator (s : Fr) :
    s • (PointGroup.generator : Exponent group) = valid s :=
  congrArg valid (mul_one s)

instance : LawfulPointGroup (Exponent group) where
  valid_iff p := by
    constructor
    · rintro ⟨hValid, -⟩
      cases p with
      | valid s => exact ⟨s, (smul_generator s).symm⟩
      | invalid => cases hValid
    · rintro ⟨s, rfl⟩
      rw [smul_generator]
      exact ⟨rfl, rfl⟩
  smul_injective s t h := by
    simpa only [smul_generator, valid.injEq] using h
  zero_smul_generator := smul_generator 0
  one_smul_generator := smul_generator 1
  add_smul_generator s t := by
    simp only [smul_generator]
    rfl
  neg_smul_generator s := by
    simp only [smul_generator]
    rfl
  mul_smul_generator s t := by
    simp only [smul_generator]
    rfl

def bilinearPairing (group group' : String) :
    BilinearPairing (Exponent group) (Exponent group') (Multiplicative Fr) where
  pair p q := Multiplicative.ofAdd (p.log * q.log)
  add_left {p p' q} hp hp' _ := by
    obtain ⟨s, rfl⟩ := (LawfulPointGroup.checkPoint_eq_ok_iff p).mp hp
    obtain ⟨t, rfl⟩ := (LawfulPointGroup.checkPoint_eq_ok_iff p').mp hp'
    rw [← LawfulPointGroup.add_smul_generator, ← ofAdd_add]
    simp only [smul_generator, log, add_mul]
  add_right {p q q'} _ hq hq' := by
    obtain ⟨s, rfl⟩ := (LawfulPointGroup.checkPoint_eq_ok_iff q).mp hq
    obtain ⟨t, rfl⟩ := (LawfulPointGroup.checkPoint_eq_ok_iff q').mp hq'
    rw [← LawfulPointGroup.add_smul_generator, ← ofAdd_add]
    simp only [smul_generator, log, mul_add]
  nondegenerate h := absurd (Multiplicative.ofAdd.injective h) (by decide : (1 * 1 : Fr) ≠ 0)

instance {group' : String} : LawfulPairing (Exponent group) (Exponent group') where
  exists_pairing := by
    refine ⟨Multiplicative Fr, inferInstance, bilinearPairing group group', ?_⟩
    have hProd (pairs : List (Exponent group × Exponent group')) :
        (pairs.map fun pq => (bilinearPairing group group').pair pq.1 pq.2).prod =
          Multiplicative.ofAdd (pairs.map fun pq => pq.1.log * pq.2.log).sum := by
      induction pairs with
      | nil => rfl
      | cons pq pairs ih =>
        rw [List.map_cons, List.prod_cons, ih, List.map_cons, List.sum_cons, ofAdd_add]
        rfl
    intro pairs _
    rw [hProd, ofAdd_eq_one]
    exact decide_eq_true_iff

end Exponent

end Kzg
