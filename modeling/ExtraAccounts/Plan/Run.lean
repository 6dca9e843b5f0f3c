import ExtraAccounts.Plan.Basic

/-!
# Running plans

`Plan.run` answers a plan from a `Source`, which may change from one request to the next, and a
deriver. The outcome is the value of the plan and the events on the way to it, in order: each
address that was asked for, as often as it was, each derivation and each log entry.
-/

namespace ExtraAccounts

/-- What a store answers, given the addresses it was asked for before, the latest first, and the
address it is asked for now. -/
abbrev Source := (asked : List Address) → Address → Option Account

/-- A store that does not change. -/
def Source.fixed (accounts : Address → Option Account) : Source := fun _ => accounts

/-- The accounts of a store in memory, which does not change. -/
def Store.toSource (store : Store) : Source := .fixed store.get?

/-- Answers the addresses of a batch one after another. -/
def Source.answer (source : Source) (asked : List Address) : List Address → List (Option Account)
  | [] => []
  | address :: later => source asked address :: source.answer (address :: asked) later

/-- Something that happens in a run. -/
inductive Event where
  | requested (address : Address)
  | derived (program : Address) (seeds : List Bytes)
  | logged (entry : LogEntry)
deriving DecidableEq

/-- What comes of a run. -/
structure Outcome (α : Type) where
  value : α
  events : List Event
deriving DecidableEq

namespace Outcome

variable {α : Type}

/-- The outcome with events before its own. -/
def after (outcome : Outcome α) (earlier : List Event) : Outcome α :=
  { outcome with events := earlier ++ outcome.events }

/-- The addresses that the source was asked for, in order and as often as it was. -/
def requests (outcome : Outcome α) : List Address :=
  outcome.events.filterMap fun
    | .requested address => some address
    | _ => none

def derivations (outcome : Outcome α) : List (Address × List Bytes) :=
  outcome.events.filterMap fun
    | .derived program seeds => some (program, seeds)
    | _ => none

def entries (outcome : Outcome α) : List LogEntry :=
  outcome.events.filterMap fun
    | .logged entry => some entry
    | _ => none

end Outcome

/-- Runs a plan against a source that was asked for the addresses in `asked` before, the latest
first. -/
def Plan.run {α : Type} (deriver : Deriver) (source : Source) (asked : List Address) :
    Plan α → Outcome α
  | done value => { value, events := [] }
  | request addresses next =>
    ((next (source.answer asked addresses)).run deriver source (addresses.reverse ++ asked)).after
      (addresses.map .requested)
  | derivation program seeds next =>
    ((next (deriver program seeds)).run deriver source asked).after [.derived program seeds]
  | log entry next => (next.run deriver source asked).after [.logged entry]

end ExtraAccounts
