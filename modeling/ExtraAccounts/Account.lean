import ExtraAccounts.AddressMap
import ExtraAccounts.Configuration

/-!
# Accounts

What a ledger holds at an address, and a `Store` of accounts kept in memory.
-/

namespace ExtraAccounts

/-- The contents of an account that exists. -/
structure Account where
  data : Bytes
  /-- The program that may change it. -/
  owner : Address
deriving DecidableEq, Inhabited

abbrev Store := AddressMap Account

def Configuration.toAccount (configuration : Configuration) (owner : Address) : Account where
  data := configuration.encode
  owner

end ExtraAccounts
