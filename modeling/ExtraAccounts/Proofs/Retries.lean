import ExtraAccounts.Proofs.Absence
import ExtraAccounts.Proofs.RecordByRecord
import ExtraAccounts.Proofs.RequestBounds

/-!
# Creating what is missing and trying again

A call that fails as missing an account is made again after that account was created, whatever it
holds (`storeAfter`). What is created may steer the records after it, so a new call may miss accounts
that no earlier one asked for. It ends nevertheless (`Call.retries_end`):

* an account is created only where there is none, so no two failures name the same one
  (`Retries.nodup`);
* a plan that stops at the first absent account runs again up to the request it failed at, which is
  answered now, so it fails at most as often as it asks (`StopsAtAbsence.length_retries_le`). The
  induction is on the plan: what is created first stays, so all later calls are of what follows that
  request.
-/

namespace ExtraAccounts

section
variable {α β : Type}

/-- One call after another, the first against `accounts`: each fails as missing the next account in
`named`, which is created then. In the end the store is `last`. -/
inductive Retries (value : (Address → Option Account) → Except Failure α) :
    (accounts : Address → Option Account) → (named : List Address) →
    (last : Address → Option Account) → Prop where
  | none {accounts : Address → Option Account} : Retries value accounts [] accounts
  | again {accounts last : Address → Option Account} {cause : Failure} {a : Address}
      {named : List Address} (account : Account) (hfails : value accounts = .error cause)
      (hmissing : cause.missing? = some a)
      (hlater : Retries value (Function.update accounts a (some account)) named last) :
      Retries value accounts (a :: named) last

/-- Only accounts that are absent are named as missing. -/
def MissesAbsent (value : (Address → Option Account) → Except Failure α) : Prop :=
  ∀ accounts cause a, value accounts = .error cause → cause.missing? = some a → accounts a = none

variable {value : (Address → Option Account) → Except Failure α}
  {value' : (Address → Option Account) → Except Failure β}
  {accounts last : Address → Option Account} {named : List Address}

theorem adds_update {a : Address} (h : accounts a = none) (account : Account) :
    Adds accounts (Function.update accounts a (some account)) := by
  intro b found hb
  have hne : b ≠ a := by
    rintro rfl
    rw [h] at hb
    cases hb
  rw [Function.update_of_ne hne, hb]

/-- What was there stays as it was. -/
theorem Retries.adds (habsent : MissesAbsent value) (h : Retries value accounts named last) :
    Adds accounts last := by
  induction h with
  | none => exact fun a account ha => ha
  | again account hfails hmissing hlater ih =>
    intro b found hb
    exact ih b found (adds_update (habsent _ _ _ hfails hmissing) account b found hb)

/-- **No account is named twice**, and none that was there. -/
theorem Retries.nodup (habsent : MissesAbsent value) (h : Retries value accounts named last) :
    named.Nodup ∧ ∀ a ∈ named, accounts a = Option.none := by
  induction h with
  | none => exact ⟨List.nodup_nil, nofun⟩
  | @again accounts last cause a named account hfails hmissing hlater ih =>
    obtain ⟨hnodup, hnew⟩ := ih
    have ha := habsent _ _ _ hfails hmissing
    have hother : ∀ b ∈ named, b ≠ a ∧ accounts b = Option.none := by
      intro b hb
      have hnone := hnew b hb
      have hne : b ≠ a := by
        rintro rfl
        rw [Function.update_self] at hnone
        cases hnone
      rw [Function.update_of_ne hne] at hnone
      exact ⟨hne, hnone⟩
    refine ⟨List.nodup_cons.2 ⟨fun hmem => (hother a hmem).1 rfl, hnodup⟩, fun b hb => ?_⟩
    rcases List.mem_cons.1 hb with rfl | hb
    · exact ha
    · exact (hother b hb).2

/-- Where an account is there, the calls are those of what follows its request. -/
theorem Retries.congr_of_present (habsent : MissesAbsent value)
    (h : Retries value accounts named last) {address : Address} {account : Account}
    (hpresent : accounts address = some account)
    (hvalue : ∀ accounts cause, accounts address = some account →
      value accounts = .error cause → value' accounts = .error cause) :
    Retries value' accounts named last := by
  induction h with
  | none => exact .none
  | again created hfails hmissing hlater ih =>
    have hkept := adds_update (habsent _ _ _ hfails hmissing) created address account hpresent
    exact .again created (hvalue _ _ hpresent hfails) hmissing (ih hkept)

end

/-! ## Plans -/

namespace Plan

variable {α : Type} (deriver : Deriver)

/-- What a plan comes to against a store that does not change. -/
def valueOn (plan : Plan α) (accounts : Address → Option Account) : α :=
  (plan.run deriver (.fixed accounts) []).value

variable {deriver} {accounts last : Address → Option Account} {named : List Address}

theorem valueOn_request (address : Address) (next : List (Option Account) → Plan α) :
    (request [address] next).valueOn deriver accounts =
      (next [accounts address]).valueOn deriver accounts := by
  unfold valueOn
  rw [run, Source.answer_fixed, Outcome.value_after, run_fixed_asked deriver accounts _ _ []]
  rfl

theorem StopsAtAbsence.missesAbsent {plan : Plan (Except Failure α)} (h : plan.StopsAtAbsence) :
    MissesAbsent (plan.valueOn deriver) :=
  fun _ _ _ hfails hmissing => h.absent hfails hmissing

/-- Where the account is there that a plan asks for first, the calls are those of what follows. -/
theorem StopsAtAbsence.retries_next {address : Address}
    {next : List (Option Account) → Plan (Except Failure α)} {account : Account}
    (hstops : (request [address] next).StopsAtAbsence) (hpresent : accounts address = some account)
    (h : Retries ((request [address] next).valueOn deriver) accounts named last) :
    Retries ((next [some account]).valueOn deriver) accounts named last := by
  refine h.congr_of_present hstops.missesAbsent hpresent fun accounts cause ha hfails => ?_
  rwa [valueOn_request, ha] at hfails

/-- **A plan fails at most as often as it asks.** -/
theorem StopsAtAbsence.length_retries_le {plan : Plan (Except Failure α)}
    (hstops : plan.StopsAtAbsence) {n : Nat} (hasks : plan.AsksAtMost n)
    (h : Retries (plan.valueOn deriver) accounts named last) : named.length ≤ n := by
  induction plan generalizing n accounts named with
  | done result =>
    cases h with
    | none => exact Nat.zero_le n
    | again account hfails hmissing hlater =>
      rw [hstops _ hfails] at hmissing
      cases hmissing
  | request addresses next ih =>
    obtain ⟨⟨address, missed, rfl, hmissed, hnone⟩, hnext⟩ := hstops
    obtain ⟨hone, hasks⟩ := hasks
    rw [List.length_singleton] at hone hasks
    have hstops : (request [address] next).StopsAtAbsence :=
      ⟨⟨address, missed, rfl, hmissed, hnone⟩, hnext⟩
    -- once the account is there, what is left asks for one account less
    have hleft : ∀ {first later account}, first address = some account →
        Retries ((request [address] next).valueOn deriver) first later last →
        later.length ≤ n - 1 := fun hpresent hcalls =>
      ih _ (hnext _) (hasks _) (hstops.retries_next hpresent hcalls)
    cases haddress : accounts address with
    | some account => exact Nat.le_trans (hleft haddress h) (Nat.sub_le n 1)
    | none =>
      cases h with
      | none => exact Nat.zero_le n
      | @again _ _ cause a later account hfails hmissing hlater =>
        -- the call fails as missing this account, which is created
        rw [valueOn_request, haddress] at hfails
        cases hfails.symm.trans (hnone.value_run [])
        cases hmissing.symm.trans hmissed
        have hle := hleft (Function.update_self _ _ _) hlater
        rw [List.length_cons]
        omega
  | derivation program seeds next ih => exact ih _ (hstops _) (hasks _) h
  | log entry next ih => exact ih hstops hasks h

end Plan

/-! ## Creating what is missing -/

section
variable {α : Type} (value : (Address → Option Account) → Except Failure α)

/-- The store after a call against it: if the call fails as missing an account, that is created. -/
def createMissing (accounts : Address → Option Account) (account : Account) :
    Address → Option Account :=
  match value accounts with
  | .ok _ => accounts
  | .error cause =>
    match cause.missing? with
    | some a => Function.update accounts a (some account)
    | none => accounts

/-- The store after so many calls, each followed by the creation of what it misses. What that holds
may be anything: `contents` says it for each call. -/
def storeAfter (accounts : Address → Option Account) (contents : Nat → Account) :
    (calls : Nat) → Address → Option Account
  | 0 => accounts
  | calls + 1 => createMissing value (storeAfter accounts contents calls) (contents calls)

/-- The first calls fail as missing the accounts in `named`, one after the other. -/
def MissInOrder (accounts : Address → Option Account) (contents : Nat → Account)
    (named : List Address) : Prop :=
  ∀ k a, named[k]? = some a → ∃ cause,
    value (storeAfter value accounts contents k) = .error cause ∧ cause.missing? = some a

variable {value} {accounts : Address → Option Account} {contents : Nat → Account}
  {named : List Address} {a : Address}

/-- After a call that fails as missing an account, the later ones are calls in their own right. -/
theorem storeAfter_succ {cause : Failure} (hfails : value accounts = .error cause)
    (hmissing : cause.missing? = some a) (calls : Nat) :
    storeAfter value accounts contents (calls + 1) =
      storeAfter value (Function.update accounts a (some (contents 0))) (fun k => contents (k + 1))
        calls := by
  induction calls with
  | zero => simp only [storeAfter, createMissing, hfails, hmissing]
  | succ calls ih => rw [storeAfter, ih, storeAfter]

theorem MissInOrder.of_cons (h : MissInOrder value accounts contents (a :: named)) :
    ∃ cause, value accounts = .error cause ∧ cause.missing? = some a ∧
      MissInOrder value (Function.update accounts a (some (contents 0)))
        (fun k => contents (k + 1)) named := by
  obtain ⟨cause, hfails, hmissing⟩ := h 0 a rfl
  have hfails : value accounts = .error cause := hfails
  refine ⟨cause, hfails, hmissing, fun k b hk => ?_⟩
  rw [← storeAfter_succ hfails hmissing]
  exact h (k + 1) b hk

theorem MissInOrder.retries (h : MissInOrder value accounts contents named) :
    Retries value accounts named (storeAfter value accounts contents named.length) := by
  induction named generalizing accounts contents with
  | nil => exact .none
  | cons a later ih =>
    obtain ⟨cause, hfails, hmissing, hlater⟩ := h.of_cons
    rw [List.length_cons, storeAfter_succ hfails hmissing]
    exact .again (contents 0) hfails hmissing (ih hlater)

theorem MissInOrder.concat (h : MissInOrder value accounts contents named) {cause : Failure}
    (hfails : value (storeAfter value accounts contents named.length) = .error cause)
    (hmissing : cause.missing? = some a) : MissInOrder value accounts contents (named ++ [a]) := by
  intro k b hk
  by_cases hlt : k < named.length
  · rw [List.getElem?_append_left hlt] at hk
    exact h k b hk
  · rw [List.getElem?_append_right (Nat.le_of_not_lt hlt), List.getElem?_singleton,
      Option.ite_none_right_eq_some] at hk
    obtain ⟨hzero, hb⟩ := hk
    cases hb
    rw [Nat.le_antisymm (Nat.le_of_sub_eq_zero hzero) (Nat.le_of_not_lt hlt)]
    exact ⟨cause, hfails, hmissing⟩

variable (value accounts contents)

/-- Of the first `n` calls, all fail as missing an account, or those before one that does not. -/
theorem exists_missInOrder (n : Nat) :
    ∃ named, MissInOrder value accounts contents named ∧
      (named.length = n ∨ ∀ cause,
        value (storeAfter value accounts contents named.length) = .error cause →
          cause.missing? = none) := by
  induction n with
  | zero => exact ⟨[], nofun, .inl rfl⟩
  | succ n ih =>
    obtain ⟨named, hnamed, rfl | hend⟩ := ih
    · by_cases hmisses : ∃ cause a,
          value (storeAfter value accounts contents named.length) = .error cause ∧
            cause.missing? = some a
      · obtain ⟨cause, a, hfails, hmissing⟩ := hmisses
        exact ⟨named ++ [a], hnamed.concat hfails hmissing, .inl List.length_append⟩
      · refine ⟨named, hnamed, .inr fun cause hfails => ?_⟩
        cases hmissing : cause.missing? with
        | none => rfl
        | some a => exact absurd ⟨cause, a, hfails, hmissing⟩ hmisses
    · exact ⟨named, hnamed, .inr hend⟩

end

/-! ## Calls -/

namespace Call

variable (call : Call) (options : Options) (delivery : Plan.Delivery) (deriver : Deriver)

/-- What a call comes to against a store that does not change. -/
def valueOn (accounts : Address → Option Account) : Except Failure Resolved :=
  (call.outcome options delivery deriver accounts).value

theorem valueOn_eq :
    call.valueOn options delivery deriver = (call.plan false).run.valueOn deriver := by
  funext accounts
  exact (call.outcome_eq_plan delivery deriver accounts options).1

variable {accounts last : Address → Option Account} {contents : Nat → Account}
  {named : List Address}

theorem missesAbsent_valueOn : MissesAbsent (call.valueOn options delivery deriver) := by
  rw [valueOn_eq]
  exact (stopsAtAbsence_plan call).missesAbsent

theorem valueOn_of_none (h : accounts call.configuration = none) :
    call.valueOn options delivery deriver accounts =
      .error (.noConfiguration call.configuration) := by
  rw [valueOn_eq]
  exact call.value_plan_of_none deriver accounts h

/-- With its configuration there, a call fails at most as often as its records read. -/
theorem length_retries_le {account : Account} (hpresent : accounts call.configuration = some account)
    (h : Retries (call.valueOn options delivery deriver) accounts named last) :
    named.length ≤ mostReads account.records := by
  obtain ⟨next, hplan, -, hnext⟩ := call.run_plan_eq false
  have hstops := stopsAtAbsence_plan call
  rw [valueOn_eq] at h
  rw [hplan] at h hstops
  have hstops : (Plan.request [call.configuration] next).StopsAtAbsence := hstops
  have hlater := hstops.retries_next hpresent h
  rw [hnext] at hlater
  exact (hnext account ▸ hstops.2 account).length_retries_le (call.asksAtMost_resolveFrom account)
    hlater

/-- **The failures of a call** are at most one for its configuration and one for each account that
the records of that read. The configuration is the one that is there, or the first account
created. -/
theorem length_le_of_missInOrder
    (h : MissInOrder (call.valueOn options delivery deriver) accounts contents named) :
    let account := (accounts call.configuration).getD (contents 0)
    named.length ≤ 1 + mostReads account.records ∧
      (named ≠ [] → storeAfter (call.valueOn options delivery deriver) accounts contents
        named.length call.configuration = some account) := by
  have habsent := call.missesAbsent_valueOn options delivery deriver
  cases hconfiguration : accounts call.configuration with
  | some account =>
    have hle := call.length_retries_le options delivery deriver hconfiguration h.retries
    exact ⟨Nat.le_add_left_of_le hle, fun _ => h.retries.adds habsent _ _ hconfiguration⟩
  | none =>
    cases named with
    | nil => exact ⟨Nat.zero_le _, fun hne => absurd rfl hne⟩
    | cons a later =>
      obtain ⟨cause, hfails, hmissing, hlater⟩ := h.of_cons
      rw [List.length_cons, storeAfter_succ hfails hmissing]
      -- the first failure is for the configuration, which is created
      cases hfails.symm.trans (call.valueOn_of_none options delivery deriver hconfiguration)
      cases hmissing
      have hpresent := Function.update_self call.configuration (some (contents 0)) accounts
      have hle := call.length_retries_le options delivery deriver hpresent hlater.retries
      exact ⟨Nat.le_trans (Nat.add_le_add_right hle 1) (Nat.le_of_eq (Nat.add_comm _ _)),
        fun _ => hlater.retries.adds habsent _ _ hpresent⟩

/-- **Creating what is missing ends.** However a call is retried, each time after the account it
failed as missing was created, whatever that holds, it fails so only finitely often: never twice for
one account, and at most once for its configuration and once for each account that the records of
that read. The call after that succeeds or fails for good. -/
theorem retries_end (accounts : Address → Option Account) (contents : Nat → Account) :
    let store := storeAfter (call.valueOn options delivery deriver) accounts contents
    let value := fun k => call.valueOn options delivery deriver (store k)
    ∃ (named : List Address) (account : Account),
      (∀ k a, named[k]? = some a → ∃ cause, value k = .error cause ∧ cause.isTransient = true ∧
        cause.missing? = some a) ∧
      (∀ cause, value named.length = .error cause → cause.isTransient = false) ∧
      named.Nodup ∧
      store named.length call.configuration = some account ∧
      named.length ≤ 1 + mostReads account.records ∧
      named.length ≤ 1 + 8 * account.records.length := by
  intro store value
  obtain ⟨named, hnamed, hlast⟩ := exists_missInOrder (call.valueOn options delivery deriver)
    accounts contents (2 + mostReads ((accounts call.configuration).getD (contents 0)).records)
  obtain ⟨hle, hkept⟩ := call.length_le_of_missInOrder options delivery deriver hnamed
  have hend : ∀ cause, value named.length = .error cause → cause.missing? = none :=
    hlast.resolve_left fun heq => by omega
  refine ⟨named, _, fun k a hk => ?_, fun cause hfails => ?_,
    (hnamed.retries.nodup (call.missesAbsent_valueOn options delivery deriver)).1, ?_, hle,
    Nat.le_trans hle (Nat.add_le_add_left (mostReads_le _) 1)⟩
  · obtain ⟨cause, hfails, hmissing⟩ := hnamed k a hk
    exact ⟨cause, hfails, cause.isTransient_iff.2 ⟨a, hmissing⟩, hmissing⟩
  · refine Bool.eq_false_iff.2 fun htransient => ?_
    obtain ⟨a, hmissing⟩ := cause.isTransient_iff.1 htransient
    rw [hend cause hfails] at hmissing
    cases hmissing
  · cases named with
    | cons a later => exact hkept (List.cons_ne_nil a later)
    | nil =>
      -- without a configuration, the first call would have missed it
      cases hconfiguration : accounts call.configuration with
      | some account => exact hconfiguration
      | none =>
        cases hend _ (call.valueOn_of_none options delivery deriver hconfiguration)

end Call

/-! ## What is created steers what is missed next -/

namespace Chained

def pointee : Address := .padded [14] (by decide)

/-- A pointer into the data of an account, then seeds from the account that it points at. -/
def configuration : Configuration where
  records := [
    .make 2 (Pointer.data 1 0).pack false false,
    .make 1 (.padded [4, 2, 0, 1] (by decide)) false true]

def call : Call where
  configuration := .zero 32
  base := [{ address := .zero 32, role := .readonly }, { address := pointee, role := .writable }]
  data := []
  gatingProgram := .zero 32

/-- What the second account created points at. -/
def holder : Address := ⟨List.replicate 32 14, by decide⟩

def contents : Nat → Account
  | 0 => configuration.toAccount (.zero 32)
  | _ => { data := List.replicate 32 14, owner := .zero 32 }

/-- What the calls come to, the first against an empty store. -/
def value (calls : Nat) : Except Failure Resolved :=
  let valueOn := call.valueOn {} .batched fun program _ => .ok program
  valueOn (storeAfter valueOn (fun _ => none) contents calls)

example : [value 0, value 1, value 2].map (Except.mapError Failure.missing?) =
    [.error (some (.zero 32)), .error (some pointee), .error (some holder)] := by
  decide +kernel

example : value 3 = .ok {
    all := call.base ++ [{ address := holder, role := .readonly },
      { address := .zero 32, role := .writable }]
    baseLength := 2 } := by
  decide +kernel

end Chained

end ExtraAccounts
