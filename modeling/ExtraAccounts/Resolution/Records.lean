import ExtraAccounts.Resolution.Target
import ExtraAccounts.Resolution.Evaluation

/-!
# Resolving records

Each record of a configuration gives one account: its address by the strategy of the record, its
role by the flags. Records are resolved in order, and each may refer to the accounts of those before
it. The first that fails ends the resolution, after a log entry that names it.
-/

namespace ExtraAccounts

/-- What all records of one resolution have in common. -/
structure RecordContext where
  /-- Whether the accounts of a seed spec are fetched ahead. -/
  prefetch : Bool
  gatingProgram : Address
  data : Bytes

/-- The address derived under a program from the seeds of a spec. -/
def deriveUnder (ctx : RecordContext) (known : List AccountMeta) (program : Address)
    (spec : AddressConfig) : Resolution Address := do
  let seeds ← evaluateSpec ctx.prefetch { accounts := known, data := ctx.data } spec.toBytes
  match ← Plan.derive program seeds with
  | .ok address => return address
  | .error cause => throw (.underivable program cause)

/-- The address that a strategy finds. -/
def evaluateStrategy (ctx : RecordContext) (known : List AccountMeta) :
    Strategy → Resolution Address
  | .literal address => pure address
  | .seeds spec => deriveUnder ctx known ctx.gatingProgram spec
  | .pointer spec => followPointer { accounts := known, data := ctx.data } spec.toBytes
  | .namespacedSeeds index spec =>
    match known[index.toNat]? with
    | none => throw (.noSuchAccount index.toNat known.length)
    | some owner => deriveUnder ctx known owner.address spec

/-- The account that the record at an index gives. -/
def evaluateRecord (ctx : RecordContext) (known : List AccountMeta) (index : Nat)
    (record : Record) : Resolution AccountMeta := do
  match record.strategy with
  | .error invalid => throw (.badDiscriminator index invalid.value)
  | .ok strategy =>
    let address ← evaluateStrategy ctx known strategy
    let account := { address, role := record.role }
    Plan.note (.recordResolved index strategy account)
    return account

/-- The known accounts followed by one for each record; the first record has the given index. -/
def evaluateRecords (ctx : RecordContext) :
    (index : Nat) → List Record → (known : List AccountMeta) → Resolution (List AccountMeta)
  | _, [], known => pure known
  | index, record :: later, known => do
    let account ← tryCatch (evaluateRecord ctx known index record) fun cause => do
      Plan.note (.recordFailed index cause)
      throw cause
    evaluateRecords ctx (index + 1) later (known ++ [account])

end ExtraAccounts
