import ExtraAccounts.Resolution.Call

/-!
# Instructions

An instruction names a program, its data and the accounts it works on. Augmenting one resolves a
configuration against its data and appends the accounts of the records; if the resolution fails, the
instruction stays as it was. An account in an instruction has two flags where an account meta has a
role, and the two determine each other.
-/

namespace ExtraAccounts

/-- An account as an instruction names it. -/
structure InstructionAccount where
  address : Address
  signer : Bool
  writable : Bool
deriving DecidableEq

namespace InstructionAccount

/-- The account in the role that its flags stand for. -/
def toMeta (account : InstructionAccount) : AccountMeta where
  address := account.address
  role := .ofFlags account.signer account.writable

/-- The account with the flags that its role stands for. -/
def ofMeta (account : AccountMeta) : InstructionAccount where
  address := account.address
  signer := account.role.isSigner
  writable := account.role.isWritable

@[simp] theorem toMeta_ofMeta (account : AccountMeta) : (ofMeta account).toMeta = account := by
  simp [toMeta, ofMeta]

@[simp] theorem ofMeta_toMeta (account : InstructionAccount) : ofMeta account.toMeta = account := by
  simp [toMeta, ofMeta]

end InstructionAccount

/-- A call of a program. -/
structure Instruction where
  program : Address
  data : Bytes
  accounts : List InstructionAccount
deriving DecidableEq

namespace Instruction

/-- Resolves a configuration against the given accounts and appends those of its records. Hands back
the failure, if there is one, and the instruction after the call. -/
def addExtraAccounts (instruction : Instruction) (options : Options) (delivery : Plan.Delivery)
    (configuration : Address) (base : List AccountMeta) (gatingProgram : Address) :
    Plan (Option Failure × Instruction) := do
  let call : Call := { configuration, base, data := instruction.data, gatingProgram }
  match ← call.resolve options delivery with
  | .error cause => return (some cause, instruction)
  | .ok resolved =>
    let extra := resolved.extra.map InstructionAccount.ofMeta
    return (none, { instruction with accounts := instruction.accounts ++ extra })

/-- Resolves a configuration against the accounts of the instruction itself. -/
def augment (instruction : Instruction) (options : Options) (delivery : Plan.Delivery)
    (configuration gatingProgram : Address) : Plan (Option Failure × Instruction) :=
  instruction.addExtraAccounts options delivery configuration
    (instruction.accounts.map InstructionAccount.toMeta) gatingProgram

end Instruction

end ExtraAccounts
