import ExtraAccounts.Plan.Basic

/-!
# What a record may refer to

A record refers to accounts by index and to the instruction data by offset. Its `Scope` holds both:
the accounts given to the call, then those of the records before it. A `Resolution` is a plan that
may fail.
-/

namespace ExtraAccounts

/-- What the record being resolved may refer to. -/
structure Scope where
  accounts : List AccountMeta
  data : Bytes
deriving DecidableEq

/-- The address of the account at an index; `none` iff the index is out of range. -/
def Scope.address? (scope : Scope) (index : UInt8) : Option Address :=
  scope.accounts[index.toNat]?.map AccountMeta.address

/-- A plan that may fail. -/
abbrev Resolution := ExceptT Failure Plan

end ExtraAccounts
