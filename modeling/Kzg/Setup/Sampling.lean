import Kzg.Setup.Trusted

/-! # Sampling a secret

A secret is drawn from a source of 64-bit words: four words are a number of 254 bits, which is the
scalar times `2^256` if it is below the order of the field and is refused otherwise. Zero is
refused too. -/

namespace Kzg

/-- The next four words as a number, least significant word first, less its two top bits. -/
def drawNumber (words : Nat → Nat) (start : Nat) : Nat :=
  words start + words (start + 1) * (1 <<< 64) + words (start + 2) * (1 <<< 128) +
    words (start + 3) % (1 <<< 62) * (1 <<< 192)

def drawScalar? (words : Nat → Nat) (start : Nat) : Option Fr :=
  let n := drawNumber words start
  if n < scalarOrder then some (Fr.ofNat n * (Fr.ofNat (1 <<< 256))⁻¹) else none

/-- The first acceptable draw from a source that repeats the given words for ever. Draws start to
repeat after as many of them as there are words. -/
def sampleSecret? (words : List Nat) : Option Fr :=
  let source i := words.getD (i % words.length) 0 % (1 <<< 64)
  (List.range words.length).findSome? fun i => (drawScalar? source (4 * i)).filter (· != 0)

end Kzg
