import ExtraAccounts.Plan.Basic

/-!
# In front of the store

Two things may stand between a plan and the store it asks. A memo keeps every answer, absence
included, and gives it again. An overlay holds accounts of its own, which hide those of the store.
Both turn a plan into one that asks the store for less: what they know is answered with a log entry,
and only the rest is requested.

A batch is looked up as a whole before any of it is requested, so an address that it names twice
is requested twice, and the later answer is kept. `Plan.sequenced` is the same plan for a store that
answers each address before the next is looked up.
-/

namespace ExtraAccounts.Plan

variable {α : Type}

/-! ## Answering a batch in part -/

/-- The addresses of the batch that are not known. -/
def unknown (known : Address → Option (Option Account)) (addresses : List Address) : List Address :=
  addresses.filter fun address => (known address).isNone

/-- The answers to a batch: those that are known, and for the rest the `fresh` ones in order. -/
def combine (known : Address → Option (Option Account)) :
    (addresses : List Address) → (fresh : List (Option Account)) → List (Option Account)
  | [], _ => []
  | address :: later, fresh =>
    match known address with
    | some answer => answer :: combine known later fresh
    | none => fresh.head?.join :: combine known later fresh.tail

/-- Writes an entry for each address that is known and requests the others. -/
def requestUnknown (known : Address → Option (Option Account)) (entry : Address → LogEntry)
    (addresses : List Address) (next : (fresh : List (Option Account)) → Plan α) : Plan α :=
  logAll ((addresses.filter fun address => (known address).isSome).map entry)
    (request (unknown known addresses) next)

end Plan

/-! ## The memo -/

/-- The answers kept so far. -/
abbrev Memo := AddressMap (Option Account)

/-- Keeps the answers to the addresses; the last answer to an address wins. -/
def Memo.keep (memo : Memo) (addresses : List Address) (answers : List (Option Account)) : Memo :=
  (addresses.zip answers).foldl (fun memo entry => memo.insert entry.1 entry.2) memo

namespace Plan

/-- The plan behind a memo, which it hands back at the end. -/
def memoized (memo : Memo) : Plan α → Plan (α × Memo)
  | done value => done (value, memo)
  | request addresses next =>
    requestUnknown memo.get? .memoHit addresses fun fresh =>
      (next (combine memo.get? addresses fresh)).memoized
        (memo.keep (unknown memo.get? addresses) fresh)
  | derivation program seeds next =>
    derivation program seeds fun answer => (next answer).memoized memo
  | log entry next => log entry (next.memoized memo)

/-! ## The overlay -/

/-- The plan behind an overlay. -/
def overlaid (overlay : Store) : Plan α → Plan α
  | done value => done value
  | request addresses next =>
    let known := fun address => (overlay.get? address).map some
    requestUnknown known .overlayServing addresses fun fresh =>
      (next (combine known addresses fresh)).overlaid overlay
  | derivation program seeds next =>
    derivation program seeds fun answer => (next answer).overlaid overlay
  | log entry next => log entry (next.overlaid overlay)

/-! ## Delivery -/

/-- The batch requested one address at a time, each after the answer to the one before. -/
def requestEach : (addresses : List Address) → (next : List (Option Account) → Plan α) → Plan α
  | [], next => next []
  | address :: later, next =>
    request [address] fun answers =>
      requestEach later fun laterAnswers => next (answers.head?.join :: laterAnswers)

/-- The plan with every batch requested one address at a time. -/
def sequenced : Plan α → Plan α
  | done value => done value
  | request addresses next => requestEach addresses fun answers => (next answers).sequenced
  | derivation program seeds next => derivation program seeds fun answer => (next answer).sequenced
  | log entry next => log entry next.sequenced

/-- When a store answers the addresses of a batch. -/
inductive Delivery where
  /-- Each before the next is looked up. -/
  | immediate
  /-- All of them after the last was looked up. -/
  | batched
deriving DecidableEq, Repr

/-- The plan as it meets a store with the given delivery. -/
def delivered (delivery : Delivery) (plan : Plan α) : Plan α :=
  match delivery with
  | .immediate => plan.sequenced
  | .batched => plan

end Plan

end ExtraAccounts
