import ExtraAccounts.Configuration
import ExtraAccounts.Derivation.Limits
import ExtraAccounts.Seed.Reader

/-!
# Why a resolution fails

A `Failure` ends the whole resolution. Its `kind` says whether trying again can help: only an
account that is missing may come into existence. Bad bytes stay bad, and seeds that a program
refuses stay refused.
-/

namespace ExtraAccounts

/-- What is wrong with one seed. -/
inductive SeedProblem where
  | unknownTag (tag : UInt8)
  | missingOperands (tag : UInt8)
  /-- The window from `offset` to `stop` does not lie inside the instruction data. -/
  | argumentOutOfBounds (offset stop available : Nat)
  /-- There is no account at the index; only `known` are known so far. -/
  | noSuchAccount (index known : Nat)
  | dataOutOfBounds (offset stop available : Nat)
deriving DecidableEq, Repr

instance : ToString SeedProblem where
  toString
    | .unknownTag tag => s!"unknown seed tag {tag}"
    | .missingOperands tag => s!"seed tag {tag} runs past the end of the seed spec"
    | .argumentOutOfBounds offset stop available =>
      s!"instruction data slice {offset}..{stop} out of bounds of {available} bytes"
    | .noSuchAccount index known =>
      s!"account index {index} out of range of {known} resolved accounts"
    | .dataOutOfBounds offset stop available =>
      s!"account data slice {offset}..{stop} out of bounds of {available} bytes"

/-- Why a resolution fails. -/
inductive Failure where
  | noConfiguration (address : Address)
  | badConfiguration (cause : DecodeError)
  /-- The discriminator of a record selects no strategy. -/
  | badDiscriminator (record : Nat) (discriminator : UInt8)
  | badPointer (cause : PointerFault)
  | pointerOutOfBounds (offset available : Nat)
  /-- The seed at a cursor is malformed or cannot be read. -/
  | badSeed (cursor : Nat) (problem : SeedProblem)
  /-- There is no account at the index; only `known` are known so far. -/
  | noSuchAccount (index known : Nat)
  /-- The account that a pointer points into does not exist. -/
  | noPointerAccount (address : Address)
  /-- The account that holds the data of a seed does not exist. -/
  | noSeedAccount (address : Address)
  /-- The seeds give no address under the program. -/
  | underivable (program : Address) (cause : DerivationError)
deriving DecidableEq

/-- Whether and how a failure can be cured. -/
inductive Failure.Kind where
  /-- The configuration is bad or was made for another call. -/
  | malformed
  /-- An account does not exist, as yet. -/
  | missingAccount
  /-- The seeds were refused. -/
  | underivable
deriving DecidableEq, Repr

namespace Failure

instance : ToString Failure where
  toString
    | noConfiguration address => s!"configuration account {address} not found"
    | badConfiguration cause => toString cause
    | badDiscriminator record discriminator =>
      s!"record {record} has invalid discriminator {discriminator}"
    | badPointer cause => s!"invalid pointer spec: {cause}"
    | pointerOutOfBounds offset available =>
      s!"pointer reads 32 bytes at offset {offset} but only {available} bytes are available"
    | badSeed cursor problem => s!"invalid seed at cursor {cursor}: {problem}"
    | noSuchAccount index known =>
      s!"account index {index} out of range of {known} resolved accounts"
    | noPointerAccount address => s!"account {address} not found"
    | noSeedAccount address => s!"account {address} holding seed data not found"
    | underivable program _ => s!"derivation under {program} failed"

/-- The failure of a seed that cannot be read. -/
def ofSeedFault : SeedFault → Failure
  | .unknownTag cursor tag => .badSeed cursor (.unknownTag tag)
  | .missingOperands cursor tag => .badSeed cursor (.missingOperands tag)

/-- Whether and how the failure can be cured. -/
def kind : Failure → Kind
  | noConfiguration _ | noPointerAccount _ | noSeedAccount _ => .missingAccount
  | underivable .. => .underivable
  | badConfiguration _ | badDiscriminator .. | badPointer _ | pointerOutOfBounds ..
  | badSeed .. | noSuchAccount .. => .malformed

/-- Whether trying again may help, once the missing account exists. -/
def isTransient (e : Failure) : Bool := e.kind == .missingAccount

/-- The account that a transient failure misses. -/
def missing? : Failure → Option Address
  | noConfiguration address | noPointerAccount address | noSeedAccount address =>
    some address
  | _ => none

/-- The text of a separate failure behind this one. A decode error speaks for itself, and the
problem of a seed is part of its failure. -/
def underlying : Failure → Option String
  | badPointer cause => some (toString cause)
  | underivable _ cause => some (toString cause)
  | _ => none

/-- A failure is transient iff it names a missing account. -/
theorem isTransient_iff (e : Failure) : e.isTransient = true ↔ ∃ a, e.missing? = some a := by
  cases e <;> simp [isTransient, kind, missing?]

end Failure

end ExtraAccounts
