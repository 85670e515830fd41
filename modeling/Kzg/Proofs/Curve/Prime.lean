import Kzg.Proofs.Field.Prime
import Kzg.Curve.Base

/-! # The order of the base field is a prime

By Lucas's test again, with the primes that divide the order less one. -/

namespace Kzg

def baseCertificates : List PrimeCertificate :=
  [⟨405928798, 22, [2, 11, 3691, 4999], 1⟩,
    ⟨11465965000, 3, [2, 5, 7, 327599], 4⟩,
    ⟨1263766530, 10, [2, 3, 5, 13, 911, 3557], 1⟩,
    ⟨35385462868, 2, [2, 7, 1263766531], 2⟩,
    ⟨2480874801745590, 6, [2, 3, 5, 19, 41, 35385462869], 2⟩,
    ⟨173171038, 13, [2, 73, 89, 13327], 1⟩,
    ⟨13427688667394608761327070753331941386768, 17,
      [2, 3, 7, 11, 1853641, 4562087, 173171039, 2480874801745591], 4⟩,
    ⟨baseOrder - 1, 3, [2, 3, 13, 29, 67, 229, 311, 983, 11003, 405928799, 11465965001,
      13427688667394608761327070753331941386769], 2⟩]

theorem baseOrder_prime : baseOrder.Prime := by
  have hPass : PrimeCertificate.allPass smallPrimes baseCertificates = true := by decide +kernel
  exact PrimeCertificate.prime_of_allPass prime_of_mem_smallPrimes hPass baseOrder (by decide)

instance : Fact baseOrder.Prime := ⟨baseOrder_prime⟩

end Kzg
