import Kzg.Field.RootOfUnity

/-! # Bit reversal

The permutation of a list of `2^k` entries that reverses the `k` binary digits of each index. -/

namespace Kzg

/-- The lowest `k` binary digits of `i` in reverse order. -/
def reverseBits : Nat → Nat → Nat
  | 0, _ => 0
  | k + 1, i => i % 2 * (1 <<< k) + reverseBits k (i / 2)

def bitReverse {α : Type} (values : List α) : Except PolyError (List α) :=
  let n := values.length
  let entries := values.toArray
  if isPowerOfTwo n then
    .ok ((List.range n).filterMap fun i => entries[reverseBits n.log2 i]?)
  else .error (.lengthNotPowerOfTwo n)

end Kzg
