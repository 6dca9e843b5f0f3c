import ExtraAccounts.Plan.Basic

/-!
# Configuration addresses

A gating program keeps the configurations of a mint at addresses derived from the mint: one that is
read when an account of the mint is thawed, and one when it is frozen.
-/

namespace ExtraAccounts

/-- When a configuration is read. -/
inductive ConfigurationUse where
  | thaw
  | freeze
deriving DecidableEq, Repr

namespace ConfigurationUse

def label : ConfigurationUse → Bytes
  | thaw => Bytes.ofAscii "thaw_extra_account_metas"
  | freeze => Bytes.ofAscii "freeze_extra_account_metas"

/-- The seeds of the configuration address for a mint. -/
def seeds (usage : ConfigurationUse) (mint : Address) : List Bytes := [usage.label, mint.toBytes]

/-- The address of the configuration that a program keeps for a mint. -/
def address (usage : ConfigurationUse) (mint gatingProgram : Address) :
    Plan (Except DerivationError Address) :=
  .derive gatingProgram (usage.seeds mint)

end ConfigurationUse

end ExtraAccounts
