import ExtraAccounts.Derivation.Edwards25519
import ExtraAccounts.Derivation.Limits
import ExtraAccounts.Derivation.Sha256

/-!
# Program-derived addresses

The address of seeds under a program is the hash of the seeds, a bump byte, the program and a fixed
marker. Only a hash off the curve serves, since nobody can hold a key for it. The bump is the
largest of 255 down to 1 that gives one; the bump 0 is never tried.
-/

namespace ExtraAccounts.ProgramAddress

def marker : Bytes := Bytes.ofAscii "ProgramDerivedAddress"

/-- The bytes hashed for one bump. -/
def preimage (program : Address) (seeds : List Bytes) (bump : UInt8) : Bytes :=
  seeds.flatten ++ bump :: program.toBytes ++ marker

/-- The candidate of the largest bump from `bump` down to 1 that is off the curve. -/
def search (candidate : UInt8 → Address) (onCurve : Address → Bool) : (bump : Nat) → Option Address
  | 0 => none
  | bump + 1 =>
    let address := candidate (UInt8.ofNat (bump + 1))
    if onCurve address then search candidate onCurve bump else some address

/-- Derives with a given hash and curve test. -/
def deriveWith (hash : Bytes → Address) (onCurve : Address → Bool) : Deriver :=
  fun program seeds => do
    checkLimits seeds
    match search (fun bump => hash (preimage program seeds bump)) onCurve 255 with
    | some address => .ok address
    | none => .error .noBump

/-- Derives an address from seeds under a program. -/
def derive : Deriver := deriveWith Sha256.hash Edwards25519.isPoint

end ExtraAccounts.ProgramAddress
