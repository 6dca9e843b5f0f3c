import ExtraAccounts.Plan.Serving
import ExtraAccounts.Resolution.Records

/-!
# Resolving a configuration

A resolution fetches the configuration account, decodes it, and resolves its records in order
against the accounts it was given. Nothing is handed back unless all of them succeed.

`Options` say how a resolution asks. With `memo` each address is requested at most once, as the
answers are kept for the length of the resolution; with `prefetch` the accounts of a seed spec are
requested ahead as one batch. Neither changes what comes out.
-/

namespace ExtraAccounts

/-- What one resolution is given. -/
structure Call where
  configuration : Address
  /-- The accounts known from the start. -/
  base : List AccountMeta
  data : Bytes
  gatingProgram : Address
deriving DecidableEq

/-- The accounts known in the end: those given to the call, then one for each record. -/
structure Resolved where
  all : List AccountMeta
  /-- How many were given to the call. -/
  baseLength : Nat
deriving DecidableEq

/-- The accounts of the records. -/
def Resolved.extra (resolved : Resolved) : List AccountMeta :=
  resolved.all.drop resolved.baseLength

/-- How a resolution asks for accounts. -/
structure Options where
  memo : Bool := true
  prefetch : Bool := true
deriving DecidableEq, Inhabited

namespace Call

/-- Fetches and decodes the configuration account and resolves its records. -/
def plan (call : Call) (prefetch : Bool) : Resolution Resolved := do
  Plan.note (.fetchingConfiguration call.configuration)
  match ← Plan.fetch call.configuration with
  | none => throw (.noConfiguration call.configuration)
  | some account =>
    match Configuration.decode account.data with
    | .error cause =>
      Plan.note (.decodeFailed cause)
      throw (.badConfiguration cause)
    | .ok configuration =>
      Plan.note (.recordCount configuration.records.length)
      let ctx := { prefetch, gatingProgram := call.gatingProgram, data := call.data }
      let all ← evaluateRecords ctx 0 configuration.records call.base
      return { all, baseLength := call.base.length }

/-- The resolution of a call, for a store with the given delivery. -/
def resolve (call : Call) (options : Options) (delivery : Plan.Delivery) :
    Plan (Except Failure Resolved) :=
  let plan := (call.plan options.prefetch).run.delivered delivery
  if options.memo then Prod.fst <$> plan.memoized ∅ else plan

end Call

end ExtraAccounts
