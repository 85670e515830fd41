import Kzg.Curve.Pairing
import Kzg.Setup.Sampling
import Kzg.Setup.File
import Kzg.Argument.ZeroTest
import Kzg.Argument.GrandProduct
import Kzg.Argument.Permutation.Verify
import Kzg.Argument.LinearizedProduct
import Kzg.Proofs.Field.RootOfUnity
import Kzg.Proofs.Coefficients.Division
import Kzg.Proofs.Group.Exponent
import Kzg.Proofs.Domain.Values
import Kzg.Proofs.Opening.Verify
import Kzg.Proofs.Opening.Sources
import Kzg.Proofs.Argument.GrandProduct
import Kzg.Proofs.Argument.Subgroup
import Kzg.Proofs.Argument.RunningProduct
import Kzg.Proofs.Argument.Permutation.Collisions
import Kzg.Proofs.Opening.Exact
import Kzg.Proofs.Opening.DerivedWeight
import Kzg.Proofs.Argument.ZeroTest
import Kzg.Proofs.Argument.Permutation.Sound
import Kzg.Proofs.Argument.Accepted
import Kzg.Proofs.Domain.Interpolation
import Kzg.Proofs.Opening.Forms
import Kzg.Proofs.Argument.Quotient
import Kzg.Proofs.Argument.GrandProduct.Complete
import Kzg.Proofs.Argument.Permutation.Complete
import Kzg.Proofs.Argument.Permutation.Prescribed
import Kzg.Proofs.Argument.LinearizedProduct
import Kzg.Proofs.Argument.ZeroTest.Complete
import Kzg.Proofs.Argument.ZeroTest.Witness
import Kzg.Proofs.Setup.Requests
import Kzg.Proofs.Opening.Derivative
import Kzg.Proofs.Opening.Evaluations
import Kzg.Proofs.Opening.Transcripts
import Kzg.Proofs.Setup.File
import Kzg.Proofs.Poly
import Kzg.Proofs.Commitment.Linear
import Kzg.Proofs.Fourier.Inverse
import Kzg.Proofs.Fourier.Cycle
import Kzg.Proofs.Fourier.BitReversal
import Kzg.Proofs.Domain.Subgroups
import Kzg.Proofs.Commitment.Values
import Kzg.Proofs.Argument.GrandProduct.Closing
import Kzg.Proofs.Argument.Permutation.Witness
import Kzg.Proofs.Opening.Capacity
import Kzg.Proofs.Opening.Changed
import Kzg.Proofs.Curve.RoundTrip
import Kzg.Proofs.Setup.Load
import Kzg.Proofs.Opening.Encoded
import Kzg.Proofs.Domain.Elements
import Kzg.Proofs.Fourier.Coset
import Kzg.Proofs.Argument.Identity
import Kzg.Proofs.Fourier.Butterflies
import Kzg.Proofs.Coefficients.LongDivision
