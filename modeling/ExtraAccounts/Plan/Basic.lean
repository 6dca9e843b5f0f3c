import ExtraAccounts.Account
import ExtraAccounts.Resolution.Log

/-!
# Plans

A `Plan` is a computation that asks: it requests accounts, has addresses derived, writes log
entries, and ends with a value. What it asks next may depend on the answers so far. A request names
a batch of addresses, none of which waits for the answer to another.

Who answers is left open. `ExtraAccounts.Plan.Run` runs a plan against a store and a deriver;
`ExtraAccounts.Plan.Serving` puts a memo or an overlay in front of the store.
-/

namespace ExtraAccounts

/-- A computation that asks for accounts and derived addresses and writes log entries. -/
inductive Plan (α : Type) where
  /-- Ends with a value. -/
  | done (value : α)
  /-- Requests the accounts of a batch of addresses; an answer is `none` iff there is no account. -/
  | request (addresses : List Address) (next : List (Option Account) → Plan α)
  /-- Has an address derived. -/
  | derivation (program : Address) (seeds : List Bytes) (next : Except DerivationError Address → Plan α)
  | log (entry : LogEntry) (next : Plan α)

namespace Plan

variable {α β γ : Type}

instance [Inhabited α] : Inhabited (Plan α) := ⟨done default⟩

/-- The plan followed by the one that its value asks for. -/
def bind : Plan α → (α → Plan β) → Plan β
  | done value, f => f value
  | request addresses next, f => request addresses fun answers => (next answers).bind f
  | derivation program seeds next, f => derivation program seeds fun answer => (next answer).bind f
  | log entry next, f => log entry (next.bind f)

instance : Monad Plan where
  pure := done
  bind := bind

@[simp] theorem pure_eq_done (value : α) : (pure value : Plan α) = done value := rfl

@[simp] theorem bind_eq (plan : Plan α) (f : α → Plan β) : plan >>= f = plan.bind f := rfl

theorem bind_done (plan : Plan α) : plan.bind done = plan := by
  induction plan with
  | done _ => rfl
  | request _ _ ih => simp only [bind, ih]
  | derivation _ _ _ ih => simp only [bind, ih]
  | log _ _ ih => simp only [bind, ih]

theorem bind_assoc (plan : Plan α) (f : α → Plan β) (g : β → Plan γ) :
    (plan.bind f).bind g = plan.bind fun value => (f value).bind g := by
  induction plan with
  | done _ => rfl
  | request _ _ ih => simp only [bind, ih]
  | derivation _ _ _ ih => simp only [bind, ih]
  | log _ _ ih => simp only [bind, ih]

instance : LawfulMonad Plan :=
  LawfulMonad.mk' Plan bind_done (fun _ _ => rfl) bind_assoc

/-! ## Asking -/

/-- The accounts of a batch of addresses, in the order of the batch. -/
def fetchAll (addresses : List Address) : Plan (List (Option Account)) := request addresses done

def fetch (address : Address) : Plan (Option Account) :=
  request [address] fun answers => done answers.head?.join

def derive (program : Address) (seeds : List Bytes) : Plan (Except DerivationError Address) :=
  derivation program seeds done

def note (entry : LogEntry) : Plan Unit := log entry (done ())

/-- Writes log entries before the plan. -/
def logAll (entries : List LogEntry) (plan : Plan α) : Plan α := entries.foldr log plan

end Plan

end ExtraAccounts
