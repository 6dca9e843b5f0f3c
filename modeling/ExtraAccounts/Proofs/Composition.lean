import ExtraAccounts.Proofs.ConfigurationFormat
import ExtraAccounts.Proofs.RecordByRecord
import Mathlib.Data.List.Infix

/-!
# Configurations one after the other

Resolving `first ++ later` is resolving `first` and then, from the accounts it gives, `later`
(`resolve_append`): a failure of the first part is the failure of the whole, whatever comes after
it, and the accounts of the first part are the first accounts of the whole. What comes second
starts counting its records anew, so a failure that names a record names a later one in the whole
(`Failure.shift`); every other failure is the same.
-/

namespace ExtraAccounts

/-- The failure with the record it names, if it does, counted from `count` records earlier. -/
def Failure.shift (count : Nat) : Failure → Failure
  | .badDiscriminator record discriminator => .badDiscriminator (count + record) discriminator
  | cause => cause

/-- The data at the address holds a configuration of these records. -/
def Holds (accounts : Address → Option Account) (address : Address) (records : List Record) :
    Prop :=
  ∃ account configuration, accounts address = some account ∧
    Configuration.decode account.data = .ok configuration ∧ configuration.records = records

theorem holds_of_toAccount {accounts : Address → Option Account} {address : Address}
    (configuration : Configuration) (owner : Address)
    (h : accounts address = some (configuration.toAccount owner))
    (hfits : Configuration.Fits configuration.records.length) :
    Holds accounts address configuration.records :=
  ⟨_, configuration, h, Configuration.decode_toAccount hfits owner, rfl⟩

/-! ## Failures that name no record -/

section
variable {α β : Type} {count : Nat}

theorem mapError_shift_of {result : Except Failure α}
    (h : ∀ cause, result = .error cause → cause.shift count = cause) :
    result.mapError (Failure.shift count) = result := by
  cases result with
  | ok value => rfl
  | error cause => exact congrArg Except.error (h cause rfl)

theorem mapError_map (result : Except Failure α) (f : α → β) (g : Failure → Failure) :
    (result.map f).mapError g = (result.mapError g).map f := by
  cases result <;> rfl

theorem mapError_bind (result : Except Failure α) (f : α → Except Failure β)
    (g : Failure → Failure) :
    (result.bind f).mapError g = (result.mapError g).bind fun value => (f value).mapError g := by
  cases result <;> rfl

theorem shift_of_isSeedFailure {cause : Failure} (h : cause.isSeedFailure = true) :
    cause.shift count = cause := by
  cases cause <;> first | rfl | cases h

theorem shift_of_pointerValue {accounts : Address → Option Account} {scope : Scope} {spec : Bytes}
    {cause : Failure} (h : pointerValue accounts scope spec = .error cause) :
    cause.shift count = cause := by
  unfold pointerValue at h
  split at h
  · cases h; rfl
  · obtain ⟨-, rfl⟩ := addressAt_eq_error_iff.1 h
    rfl
  · split at h
    · cases h; rfl
    · split at h
      · cases h; rfl
      · obtain ⟨-, rfl⟩ := addressAt_eq_error_iff.1 h
        rfl

end

namespace Call

variable (call : Call) (deriver : Deriver) (accounts : Address → Option Account)

theorem shift_of_derivedValue {count : Nat} {known : List AccountMeta} {program : Address}
    {spec : AddressConfig} {cause : Failure}
    (h : call.derivedValue deriver accounts known program spec = .error cause) :
    cause.shift count = cause := by
  rw [derivedValue_eq] at h
  obtain h | ⟨seeds, -, h⟩ := exceptBind_eq_error.1 h
  · exact shift_of_isSeedFailure (isSeedFailure_of_readingValue accounts h)
  · split at h <;> cases h
    rfl

/-- A record gives the same account wherever it stands; only a failure may name its index. -/
theorem recordValue_shift (count index : Nat) (known : List AccountMeta) (record : Record) :
    call.recordValue deriver accounts (count + index) known record =
      (call.recordValue deriver accounts index known record).mapError (.shift count) := by
  have haddress : call.addressValue deriver accounts (count + index) known record =
      (call.addressValue deriver accounts index known record).mapError (.shift count) := by
    unfold addressValue
    dsimp only
    split
    · rfl
    · exact (mapError_shift_of fun _ => call.shift_of_derivedValue deriver accounts).symm
    · rw [Resolution.outcome_followPointer]
      exact (mapError_shift_of fun _ => shift_of_pointerValue).symm
    · split
      · rfl
      · split
        · rfl
        · exact (mapError_shift_of fun _ => call.shift_of_derivedValue deriver accounts).symm
  rw [recordValue, haddress, recordValue, mapError_map]

end Call

/-! ## Records -/

section
variable (evaluate : Nat → List AccountMeta → Record → Except Failure AccountMeta)

theorem recordsValue_append (index : Nat) (first later : List Record) (known : List AccountMeta) :
    recordsValue evaluate index (first ++ later) known =
      (recordsValue evaluate index first known).bind fun all =>
        recordsValue evaluate (index + first.length) later all := by
  induction first generalizing index known with
  | nil => rfl
  | cons record first ih =>
    rw [List.cons_append, recordsValue, recordsValue, List.length_cons,
      show index + (first.length + 1) = index + 1 + first.length by omega]
    cases evaluate index known record with
    | error cause => rfl
    | ok account => exact ih (index + 1) (known ++ [account])

theorem recordsValue_shift {count : Nat}
    (h : ∀ index known record, evaluate (count + index) known record =
      (evaluate index known record).mapError (.shift count))
    (index : Nat) (records : List Record) (known : List AccountMeta) :
    recordsValue evaluate (count + index) records known =
      (recordsValue evaluate index records known).mapError (.shift count) := by
  induction records generalizing index known with
  | nil => rfl
  | cons record later ih =>
    rw [recordsValue, recordsValue, mapError_bind, h]
    cases evaluate index known record with
    | error cause => rfl
    | ok account => exact ih (index + 1) (known ++ [account])

theorem isPrefix_of_recordsValue {index : Nat} {records : List Record}
    {known all : List AccountMeta} (h : recordsValue evaluate index records known = .ok all) :
    known <+: all := by
  obtain ⟨metas, -, -, rfl⟩ := (recordsValue_eq_ok_iff evaluate index records known all).1 h
  exact List.prefix_append known metas

end

/-! ## Calls -/

namespace Call

variable (call : Call) (options : Options) (delivery : Plan.Delivery) (deriver : Deriver)
  {accounts : Address → Option Account}

theorem value_of_holds {records : List Record} (h : Holds accounts call.configuration records) :
    (call.outcome options delivery deriver accounts).value =
      (recordsValue (call.recordValue deriver accounts) 0 records call.base).map
        fun all => { all, baseLength := call.base.length } := by
  obtain ⟨account, configuration, ha, hc, rfl⟩ := h
  rw [(call.outcome_eq_plan delivery deriver accounts options).1,
    call.value_plan deriver accounts ha hc]

/-- **Resolution composes.** -/
theorem resolve_append {whole first later : Address} {records records' : List Record}
    (hwhole : Holds accounts whole (records ++ records')) (hfirst : Holds accounts first records)
    (hlater : Holds accounts later records') :
    let value := fun call : Call => (call.outcome options delivery deriver accounts).value
    (∀ cause, value { call with configuration := first } = .error cause →
      value { call with configuration := whole } = .error cause) ∧
    (∀ resolved, value { call with configuration := first } = .ok resolved →
      value { call with configuration := whole } =
        match value { call with configuration := later, base := resolved.all } with
        | .ok resolved' => .ok { resolved' with baseLength := call.base.length }
        | .error cause => .error (cause.shift records.length)) ∧
    (∀ resolved, value { call with configuration := whole } = .ok resolved →
      ∃ resolved', value { call with configuration := first } = .ok resolved' ∧
        resolved'.all <+: resolved.all ∧ resolved'.extra <+: resolved.extra) := by
  -- a record does not look at the configuration it stands in, nor at where the base ends
  let evaluate := call.recordValue deriver accounts
  have hall := recordsValue_append evaluate 0 records records' call.base
  have hshift := fun known => recordsValue_shift evaluate
    (call.recordValue_shift deriver accounts records.length) 0 records' known
  simp only [Nat.zero_add, Nat.add_zero] at hall hshift
  have hvalue : ∀ (configuration : Address) (base : List AccountMeta) (list : List Record),
      Holds accounts configuration list →
      ({ call with configuration, base }.outcome options delivery deriver accounts).value =
        (recordsValue evaluate 0 list base).map fun all => { all, baseLength := base.length } :=
    fun configuration base list h =>
      value_of_holds { call with configuration, base } options delivery deriver h
  dsimp only
  rw [hvalue whole call.base _ hwhole, hvalue first call.base _ hfirst, hall]
  cases hr : recordsValue evaluate 0 records call.base with
  | error cause =>
    refine ⟨fun cause' hc => hc, fun resolved h => ?_, fun resolved h => ?_⟩
    · cases h
    · cases h
  | ok all =>
    refine ⟨fun cause h => ?_, fun resolved h => ?_, fun resolved h => ?_⟩
    · cases h
    · cases h
      rw [hvalue later all _ hlater]
      dsimp only [Except.bind]
      rw [hshift all]
      cases recordsValue evaluate 0 records' all <;> rfl
    · obtain ⟨all', hall', rfl⟩ := exceptMap_eq_ok.1 h
      have hpre := isPrefix_of_recordsValue evaluate hall'
      exact ⟨_, rfl, hpre, hpre.drop _⟩

end Call

/-! ## A failure in the second part -/

namespace SecondPart

def first : Configuration where
  records := [.make 2 (Pointer.argument 0).pack false true]

/-- A key of the account that the first part gives, then a discriminator that selects nothing. -/
def later : Configuration where
  records := [.make 128 (.padded [3, 0] (by decide)) true false, .make 3 (.zero 32) false false]

def whole : Configuration where
  records := first.records ++ later.records

def address (n : UInt8) : Address := ⟨List.replicate 32 n, by simp⟩

def accounts : Address → Option Account := fun a =>
  if a = address 0 then some (whole.toAccount (address 9))
  else if a = address 1 then some (first.toAccount (address 9))
  else if a = address 2 then some (later.toAccount (address 9))
  else none

def call : Call where
  configuration := address 0
  base := []
  data := List.replicate 32 7
  gatingProgram := address 9

def value (call : Call) : Except Failure Resolved :=
  (call.outcome {} .batched (fun program _ => .ok program) accounts).value

/-- The second record of the second part is the third of the whole. -/
theorem resolve_append_second_part :
    let resolved : Resolved :=
      { all := [{ address := address 7, role := .writable }], baseLength := 0 }
    Holds accounts (address 0) (first.records ++ later.records) ∧
    Holds accounts (address 1) first.records ∧ Holds accounts (address 2) later.records ∧
    value { call with configuration := address 1 } = .ok resolved ∧
    value { call with configuration := address 2, base := resolved.all } =
      .error (.badDiscriminator 1 3) ∧
    value call = .error (.badDiscriminator 2 3) := by
  intro resolved
  have hwhole : Holds accounts (address 0) (first.records ++ later.records) :=
    holds_of_toAccount whole (address 9) (by decide +kernel) (by decide)
  have hfirst : Holds accounts (address 1) first.records :=
    holds_of_toAccount first (address 9) (by decide +kernel) (by decide)
  have hlater : Holds accounts (address 2) later.records :=
    holds_of_toAccount later (address 9) (by decide +kernel) (by decide)
  have hone : value { call with configuration := address 1 } = .ok resolved := by decide +kernel
  have htwo : value { call with configuration := address 2, base := resolved.all } =
      .error (.badDiscriminator 1 3) := by decide +kernel
  have happend := Call.resolve_append call {} .batched (fun program _ => .ok program)
    hwhole hfirst hlater
  refine ⟨hwhole, hfirst, hlater, hone, htwo, (happend.2.1 resolved hone).trans ?_⟩
  unfold value at htwo
  dsimp only
  rw [htwo]
  rfl

end SecondPart

end ExtraAccounts
