import ExtraAccounts.Resolution.Scope

/-!
# Evaluating seeds

The sources of a seed spec are evaluated in order, and the first that is malformed or cannot be
evaluated ends the resolution. The data of an account is fetched when its source is reached, unless
it is held already: with prefetching on, a spec that refers to the data of at least two different
accounts has all of them fetched as one batch before any source is evaluated. Those are the in-range
ones before the end or the fault, each once, in the order of their first source; whether they exist
matters only when their source is reached.
-/

namespace ExtraAccounts

/-- Accounts fetched ahead, by address. -/
abbrev Held := List (Address × Option Account)

/-- The address of the account that the source at a cursor refers to. -/
def seedAddress (scope : Scope) (cursor : Nat) (index : UInt8) : Except Failure Address :=
  match scope.address? index with
  | some address => .ok address
  | none =>
    .error (.badSeed cursor (.noSuchAccount index.toNat scope.accounts.length))

/-- The window of the data that a source asks for; `problem` says what is wrong if it runs past the
end. -/
def seedWindow (data : Bytes) (cursor : Nat) (offset len : UInt8)
    (problem : (offset stop available : Nat) → SeedProblem) : Except Failure Bytes :=
  match data.slice? offset.toNat len.toNat with
  | some window => .ok window
  | none =>
    .error (.badSeed cursor (problem offset.toNat (offset.toNat + len.toNat) data.length))

/-- The account at an address, from those held if it is among them. -/
def heldOrFetch (held : Held) (address : Address) : Plan (Option Account) :=
  match held.lookup address with
  | some answer => .done answer
  | none => .fetch address

/-- The seed that a source stands for. -/
def evaluateSeed (scope : Scope) (held : Held) (seed : PlacedSeed) : Resolution Bytes := do
  match seed.source with
  | .literal bytes => return bytes
  | .argument offset len =>
    ofExcept (seedWindow scope.data seed.cursor offset len .argumentOutOfBounds)
  | .key index =>
    let address ← ofExcept (seedAddress scope seed.cursor index)
    return address.toBytes
  | .data index offset len =>
    let address ← ofExcept (seedAddress scope seed.cursor index)
    match ← heldOrFetch held address with
    | none => throw (.noSeedAccount address)
    | some account =>
      ofExcept (seedWindow account.data seed.cursor offset len .dataOutOfBounds)

/-- The account whose data the source refers to; `none` iff there is no such source or its index is
out of range. -/
def PlacedSeed.dataAccount? (scope : Scope) (seed : PlacedSeed) : Option Address :=
  match seed.source with
  | .data index _ _ => scope.address? index
  | _ => none

/-- The accounts whose data the sources refer to, each once, in the order of their first source. An
index that is out of range counts for nothing. -/
def dataAccounts (scope : Scope) (seeds : List PlacedSeed) : List Address :=
  (seeds.filterMap (PlacedSeed.dataAccount? scope)).eraseDups

/-- Fetches the accounts whose data the sources refer to, if there are at least two. -/
def prefetchSeeds (scope : Scope) (seeds : List PlacedSeed) : Plan Held := do
  let addresses := dataAccounts scope seeds
  if addresses.length < 2 then return []
  else
    Plan.note (.prefetching addresses)
    let answers ← Plan.fetchAll addresses
    return addresses.zip answers

/-- The seeds that a reading stands for, in order. -/
def evaluateReading (scope : Scope) (held : Held) (reading : SeedReading) :
    Resolution (List Bytes) := do
  let seeds ← reading.sources.mapM (evaluateSeed scope held)
  match reading.fault with
  | none => return seeds
  | some fault => throw (.ofSeedFault fault)

/-- The seeds that a spec stands for, in order. -/
def evaluateSpec (prefetch : Bool) (scope : Scope) (spec : Bytes) : Resolution (List Bytes) := do
  let reading := SeedReading.ofSpec spec
  let held ← if prefetch then prefetchSeeds scope reading.sources else pure []
  evaluateReading scope held reading

end ExtraAccounts
