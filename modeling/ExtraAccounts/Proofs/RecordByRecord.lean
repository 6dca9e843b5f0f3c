import ExtraAccounts.Proofs.Settings

/-!
# A resolution record by record

`Call.recordValue` says what one record gives after the accounts known so far, by the value of its
discriminator. A call succeeds iff every record gives an account after the base and the accounts of
the records before it, and fails as the first that does not (`resolve_record_by_record`).

* `recordsValue_eq_ok_iff`, `recordsValue_eq_error_iff`: a run of records ends well iff all of them
  give accounts in order, and fails iff those before some record do and that one fails.
* `value_evaluateRecord`: evaluating a record comes to its `recordValue`.
-/

namespace ExtraAccounts

/-! ## Records in order -/

section
variable (evaluate : Nat → List AccountMeta → Record → Except Failure AccountMeta)

/-- `metas` are the accounts of the first records, each given after `base` and those before it. -/
def InOrder (base : List AccountMeta) (records : List Record) (metas : List AccountMeta) : Prop :=
  ∀ i (h : i < metas.length), ∃ record, records[i]? = some record ∧
    evaluate i (base ++ metas.take i) record = .ok metas[i]

/-- The known accounts followed by one for each record; the first record has the given index. -/
def recordsValue : (index : Nat) → List Record → (known : List AccountMeta) →
    Except Failure (List AccountMeta)
  | _, [], known => .ok known
  | index, record :: later, known =>
    (evaluate index known record).bind fun account =>
      recordsValue (index + 1) later (known ++ [account])

theorem inOrder_nil (base : List AccountMeta) (records : List Record) :
    InOrder evaluate base records [] := by
  intro i h
  simp at h

theorem inOrder_cons {base : List AccountMeta} {record : Record} {records : List Record}
    {account : AccountMeta} {metas : List AccountMeta} :
    InOrder evaluate base (record :: records) (account :: metas) ↔
      evaluate 0 base record = .ok account ∧
        InOrder (fun i => evaluate (i + 1)) (base ++ [account]) records metas := by
  constructor
  · intro h
    refine ⟨?_, fun i hi => ?_⟩
    · obtain ⟨first, hr, hv⟩ := h 0 (by simp)
      cases hr
      simpa using hv
    · obtain ⟨later, hr, hv⟩ := h (i + 1) (by simpa using hi)
      exact ⟨later, by simpa using hr, by simpa using hv⟩
  · rintro ⟨h0, h⟩ i hi
    cases i with
    | zero => exact ⟨record, rfl, by simpa using h0⟩
    | succ i =>
      obtain ⟨later, hr, hv⟩ := h i (by simpa using hi)
      exact ⟨later, by simpa using hr, by simpa using hv⟩

theorem shift_index (index : Nat) :
    (fun i => evaluate (index + (i + 1))) = fun i => evaluate (index + 1 + i) := by
  funext i
  rw [show index + (i + 1) = index + 1 + i by omega]

/-- **Records that end well**: each gives an account. -/
theorem recordsValue_eq_ok_iff (index : Nat) (records : List Record)
    (known all : List AccountMeta) :
    recordsValue evaluate index records known = .ok all ↔
      ∃ metas, metas.length = records.length ∧
        InOrder (fun i => evaluate (index + i)) known records metas ∧ all = known ++ metas := by
  induction records generalizing index known with
  | nil =>
    constructor
    · intro h
      cases h
      exact ⟨[], rfl, inOrder_nil _ _ _, by simp⟩
    · rintro ⟨metas, hl, -, rfl⟩
      rw [List.eq_nil_of_length_eq_zero hl, List.append_nil]
      rfl
  | cons record later ih =>
    rw [recordsValue, exceptBind_eq_ok]
    constructor
    · rintro ⟨account, hv, h⟩
      obtain ⟨metas, hl, ho, rfl⟩ := (ih _ _).1 h
      refine ⟨account :: metas, by simp [hl], (inOrder_cons _).2 ⟨hv, ?_⟩, by simp⟩
      rwa [shift_index]
    · rintro ⟨metas, hl, ho, rfl⟩
      obtain ⟨account, metas, rfl⟩ := List.exists_cons_of_length_eq_add_one hl
      obtain ⟨hv, ho⟩ := (inOrder_cons _).1 ho
      rw [shift_index] at ho
      exact ⟨account, hv, (ih _ _).2 ⟨metas, by simpa using hl, ho, by simp⟩⟩

/-- **Records that fail**: those before some record give accounts, and that one fails. -/
theorem recordsValue_eq_error_iff (index : Nat) (records : List Record)
    (known : List AccountMeta) (cause : Failure) :
    recordsValue evaluate index records known = .error cause ↔
      ∃ metas record, records[metas.length]? = some record ∧
        InOrder (fun i => evaluate (index + i)) known records metas ∧
        evaluate (index + metas.length) (known ++ metas) record = .error cause := by
  induction records generalizing index known with
  | nil =>
    constructor
    · intro h
      cases h
    · rintro ⟨metas, record, hr, -⟩
      simp at hr
  | cons record later ih =>
    rw [recordsValue, exceptBind_eq_error]
    have hnext : ∀ metas : List AccountMeta,
        index + (metas.length + 1) = index + 1 + metas.length := by
      intro metas
      omega
    constructor
    · rintro (hv | ⟨account, hv, h⟩)
      · exact ⟨[], record, rfl, inOrder_nil _ _ _, by simpa using hv⟩
      · obtain ⟨metas, failing, hr, ho, hf⟩ := (ih _ _).1 h
        refine ⟨account :: metas, failing, by simpa using hr, (inOrder_cons _).2 ⟨hv, ?_⟩, ?_⟩
        · rwa [shift_index]
        · rw [List.length_cons, hnext]
          simpa using hf
    · rintro ⟨metas, failing, hr, ho, hf⟩
      cases metas with
      | nil =>
        cases hr
        exact .inl (by simpa using hf)
      | cons account metas =>
        obtain ⟨hv, ho⟩ := (inOrder_cons _).1 ho
        rw [shift_index] at ho
        rw [List.length_cons, hnext] at hf
        exact .inr ⟨account, hv,
          (ih _ _).2 ⟨metas, failing, by simpa using hr, ho, by simpa using hf⟩⟩

end

/-! ## One record -/

/-- The strategy of a record, by the value of its discriminator. -/
theorem Record.strategy_cases (record : Record) :
    (record.discriminator.toNat = 0 ∧ record.strategy = .ok (.literal record.config)) ∨
      (record.discriminator.toNat = 1 ∧ record.strategy = .ok (.seeds record.config)) ∨
      (record.discriminator.toNat = 2 ∧ record.strategy = .ok (.pointer record.config)) ∨
      (3 ≤ record.discriminator.toNat ∧ record.discriminator.toNat < 128 ∧
        record.strategy = .error ⟨record.discriminator⟩) ∨
      (128 ≤ record.discriminator.toNat ∧ ∃ index : UInt8,
        index.toNat = record.discriminator.toNat - 128 ∧
        record.strategy = .ok (.namespacedSeeds index record.config)) := by
  obtain ⟨d, config, signer, writable⟩ := record
  unfold Record.strategy
  dsimp only
  split
  · exact .inl ⟨rfl, rfl⟩
  · exact .inr (.inl ⟨rfl, rfl⟩)
  · exact .inr (.inr (.inl ⟨rfl, rfl⟩))
  · rename_i h0 h1 h2
    have h0 : d.toNat ≠ 0 := fun h => h0 (UInt8.toNat_inj.1 h)
    have h1 : d.toNat ≠ 1 := fun h => h1 (UInt8.toNat_inj.1 h)
    have h2 : d.toNat ≠ 2 := fun h => h2 (UInt8.toNat_inj.1 h)
    split
    · rename_i h
      have hle : 128 ≤ d.toNat := UInt8.le_iff_toNat_le.1 h
      exact .inr (.inr (.inr (.inr ⟨hle, d - 128, UInt8.toNat_sub_of_le _ _ h, rfl⟩)))
    · rename_i h
      have hlt : d.toNat < 128 := by
        simpa [UInt8.le_iff_toNat_le] using h
      exact .inr (.inr (.inr (.inl ⟨by omega, hlt, rfl⟩)))

namespace Call

variable (call : Call) (deriver : Deriver) (accounts : Address → Option Account)

/-- The address derived under a program from the seeds of a record. -/
def derivedValue (known : List AccountMeta) (program : Address) (spec : AddressConfig) :
    Except Failure Address :=
  let scope : Scope := { accounts := known, data := call.data }
  (Resolution.outcome deriver accounts (evaluateSpec true scope spec.toBytes)).value.bind fun seeds =>
    match deriver program seeds with
    | .ok address => .ok address
    | .error cause => .error (.underivable program cause)

theorem derivedValue_eq (known : List AccountMeta) (program : Address) (spec : AddressConfig) :
    call.derivedValue deriver accounts known program spec =
      (readingValue accounts { accounts := known, data := call.data }
        (.ofSpec spec.toBytes)).bind fun seeds =>
          match deriver program seeds with
          | .ok address => .ok address
          | .error cause => .error (.underivable program cause) := by
  unfold derivedValue
  dsimp only
  rw [(ahead_evaluateSpec deriver accounts _ _).value, outcome_evaluateSpec_plain]

/-- The address that the record at an index gives, by the value of its discriminator. -/
def addressValue (index : Nat) (known : List AccountMeta) (record : Record) :
    Except Failure Address :=
  let scope : Scope := { accounts := known, data := call.data }
  match record.discriminator.toNat with
  | 0 => .ok record.config
  | 1 => call.derivedValue deriver accounts known call.gatingProgram record.config
  | 2 => (Resolution.outcome deriver accounts (followPointer scope record.config.toBytes)).value
  | discriminator =>
    if discriminator < 128 then .error (.badDiscriminator index record.discriminator)
    else match known[discriminator - 128]? with
      | none => .error (.noSuchAccount (discriminator - 128) known.length)
      | some owner => call.derivedValue deriver accounts known owner.address record.config

/-- The account that the record at an index gives: its address in the role of its flag bytes. -/
def recordValue (index : Nat) (known : List AccountMeta) (record : Record) :
    Except Failure AccountMeta :=
  (call.addressValue deriver accounts index known record).map fun address =>
    { address, role := .ofFlags (record.signerByte == 1) (record.writableByte == 1) }

/-- A flag of the account is set iff the flag byte of its record is 1. -/
theorem flags_of_recordValue {index : Nat} {known : List AccountMeta} {record : Record}
    {account : AccountMeta}
    (h : call.recordValue deriver accounts index known record = .ok account) :
    account.role.isSigner = (record.signerByte == 1) ∧
      account.role.isWritable = (record.writableByte == 1) := by
  obtain ⟨address, -, rfl⟩ := exceptMap_eq_ok.1 h
  exact ⟨Role.isSigner_ofFlags _ _, Role.isWritable_ofFlags _ _⟩

theorem flags_of_inOrder {base : List AccountMeta} {records : List Record}
    {metas : List AccountMeta}
    (h : InOrder (call.recordValue deriver accounts) base records metas) {i : Nat}
    {account : AccountMeta} {record : Record} (ha : metas[i]? = some account)
    (hr : records[i]? = some record) :
    account.role.isSigner = (record.signerByte == 1) ∧
      account.role.isWritable = (record.writableByte == 1) := by
  obtain ⟨hi, rfl⟩ := List.getElem?_eq_some_iff.1 ha
  obtain ⟨record', hr', hv⟩ := h i hi
  cases hr.symm.trans hr'
  exact call.flags_of_recordValue deriver accounts hv

theorem addressValue_of_le {record : Record} (h : 3 ≤ record.discriminator.toNat) (index : Nat)
    (known : List AccountMeta) :
    call.addressValue deriver accounts index known record =
      if record.discriminator.toNat < 128 then .error (.badDiscriminator index record.discriminator)
      else match known[record.discriminator.toNat - 128]? with
        | none => .error (.noSuchAccount (record.discriminator.toNat - 128) known.length)
        | some owner => call.derivedValue deriver accounts known owner.address record.config := by
  unfold addressValue
  dsimp only
  split
  · omega
  · omega
  · omega
  · rfl

theorem value_deriveUnder (known : List AccountMeta) (owner : Address) (spec : AddressConfig) :
    (Resolution.outcome deriver accounts
        (deriveUnder ⟨false, call.gatingProgram, call.data⟩ known owner spec)).value =
      call.derivedValue deriver accounts known owner spec := by
  unfold deriveUnder derivedValue
  dsimp only
  rw [Resolution.outcome_bind, Resolution.value_andThen,
    (ahead_evaluateSpec deriver accounts _ _).value]
  congr 1
  funext seeds
  rw [Resolution.outcome_bind, Resolution.value_andThen, Resolution.outcome_derive, Except.bind]
  cases deriver owner seeds <;> rfl

theorem value_evaluateStrategy (index : Nat) (known : List AccountMeta) {record : Record}
    {strategy : Strategy} (h : record.strategy = .ok strategy) :
    (Resolution.outcome deriver accounts
        (evaluateStrategy ⟨false, call.gatingProgram, call.data⟩ known strategy)).value =
      call.addressValue deriver accounts index known record := by
  obtain ⟨hd, hs⟩ | ⟨hd, hs⟩ | ⟨hd, hs⟩ | ⟨-, -, hs⟩ | ⟨hd, i, hi, hs⟩ := record.strategy_cases <;>
    rw [hs] at h <;> cases h
  · simp [addressValue, hd, evaluateStrategy]
  · simp only [addressValue, hd, evaluateStrategy]
    exact call.value_deriveUnder deriver accounts known _ _
  · simp only [addressValue, hd, evaluateStrategy]
  · rw [addressValue_of_le call deriver accounts (by omega), if_neg (by omega), evaluateStrategy, hi]
    cases known[record.discriminator.toNat - 128]? with
    | none => rfl
    | some owner => exact call.value_deriveUnder deriver accounts known _ _

/-- **Evaluating a record** comes to its value. -/
theorem value_evaluateRecord (index : Nat) (known : List AccountMeta) (record : Record) :
    (Resolution.outcome deriver accounts
        (evaluateRecord ⟨false, call.gatingProgram, call.data⟩ known index record)).value =
      call.recordValue deriver accounts index known record := by
  unfold evaluateRecord recordValue
  cases hs : record.strategy with
  | ok strategy =>
    rw [Resolution.outcome_bind, Resolution.value_andThen,
      call.value_evaluateStrategy deriver accounts index known hs]
    cases call.addressValue deriver accounts index known record <;> rfl
  | error invalid =>
    obtain ⟨he, h3, h128⟩ := Record.strategy_eq_error_iff.1 hs
    have h3 : 3 ≤ record.discriminator.toNat := UInt8.le_iff_toNat_le.1 h3
    have h128 : record.discriminator.toNat < 128 := UInt8.lt_iff_toNat_lt.1 h128
    rw [addressValue_of_le call deriver accounts h3, if_pos h128]
    dsimp only
    rw [he]
    rfl

theorem value_evaluateRecords (index : Nat) (records : List Record) (known : List AccountMeta) :
    (Resolution.outcome deriver accounts
        (evaluateRecords ⟨false, call.gatingProgram, call.data⟩ index records known)).value =
      recordsValue (call.recordValue deriver accounts) index records known := by
  induction records generalizing index known with
  | nil => rfl
  | cons record later ih =>
    rw [evaluateRecords, recordsValue, Resolution.outcome_bind, Resolution.value_andThen,
      Resolution.outcome_tryCatch_note, ← value_evaluateRecord]
    cases hv : (Resolution.outcome deriver accounts
        (evaluateRecord ⟨false, call.gatingProgram, call.data⟩ known index record)).value with
    | error cause => rfl
    | ok account =>
      dsimp only
      rw [hv]
      exact ih (index + 1) (known ++ [account])

/-- Without an owner, a record fails before it asks for anything or has anything derived. -/
theorem evaluateRecord_without_owner {ctx : RecordContext} {known : List AccountMeta}
    {index : Nat} {record : Record} (h : 128 ≤ record.discriminator.toNat)
    (hk : known[record.discriminator.toNat - 128]? = none) :
    (evaluateRecord ctx known index record).run =
      .done (.error (.noSuchAccount (record.discriminator.toNat - 128) known.length)) := by
  obtain ⟨hd, -⟩ | ⟨hd, -⟩ | ⟨hd, -⟩ | ⟨-, hd, -⟩ | ⟨-, i, hi, hs⟩ := record.strategy_cases
  -- the other discriminators are below 128
  iterate 4 omega
  unfold evaluateRecord
  rw [hs]
  dsimp only [evaluateStrategy]
  rw [hi, hk]
  rfl

/-! ## A call -/

theorem value_plan {account : Account} {configuration : Configuration}
    (ha : accounts call.configuration = some account)
    (hc : Configuration.decode account.data = .ok configuration) :
    (Resolution.outcome deriver accounts (call.plan false)).value =
      (recordsValue (call.recordValue deriver accounts) 0 configuration.records call.base).map
        fun all => { all, baseLength := call.base.length } := by
  unfold plan
  simp only [Resolution.outcome_bind, Resolution.outcome_note, Resolution.outcome_fetch,
    Resolution.value_andThen, Except.bind, ha, hc, value_evaluateRecords]
  cases recordsValue (call.recordValue deriver accounts) 0 configuration.records call.base <;> rfl

theorem value_plan_of_none (ha : accounts call.configuration = none) :
    (Resolution.outcome deriver accounts (call.plan false)).value =
      .error (.noConfiguration call.configuration) := by
  unfold plan
  simp only [Resolution.outcome_bind, Resolution.outcome_note, Resolution.outcome_fetch,
    Resolution.value_andThen, Except.bind, ha]
  rfl

theorem value_plan_of_error {account : Account} {cause : DecodeError}
    (ha : accounts call.configuration = some account)
    (hc : Configuration.decode account.data = .error cause) :
    (Resolution.outcome deriver accounts (call.plan false)).value =
      .error (.badConfiguration cause) := by
  unfold plan
  simp only [Resolution.outcome_bind, Resolution.outcome_note, Resolution.outcome_fetch,
    Resolution.value_andThen, Except.bind, ha, hc]
  rfl

/-- **A call resolves its configuration record by record**, whatever the settings. Without a
configuration account, or with one that does not decode, it fails as such. Otherwise it succeeds
with the base followed by one account for each record, each given after the base and the accounts
before it and with the flags whose bytes are 1 in its record, or it fails as the first record that
gives none. A record whose owner is not among the accounts before it fails before anything is asked
for. -/
theorem resolve_record_by_record (options : Options) (delivery : Plan.Delivery) :
    let value := (call.outcome options delivery deriver accounts).value
    match accounts call.configuration with
    | none => value = .error (.noConfiguration call.configuration)
    | some account =>
      match Configuration.decode account.data with
      | .error cause => value = .error (.badConfiguration cause)
      | .ok configuration =>
        let inOrder := InOrder (call.recordValue deriver accounts) call.base configuration.records
        (∀ resolved, value = .ok resolved ↔
          ∃ metas, metas.length = configuration.records.length ∧ inOrder metas ∧
            resolved = { all := call.base ++ metas, baseLength := call.base.length }) ∧
        (∀ metas, inOrder metas → ∀ (i : Nat) account record, metas[i]? = some account →
          configuration.records[i]? = some record →
            account.role.isSigner = (record.signerByte == 1) ∧
              account.role.isWritable = (record.writableByte == 1)) ∧
        (∀ cause, value = .error cause ↔
          ∃ metas record, configuration.records[metas.length]? = some record ∧ inOrder metas ∧
            call.recordValue deriver accounts metas.length (call.base ++ metas) record =
              .error cause) ∧
        (∀ prefetch metas record, configuration.records[metas.length]? = some record →
          inOrder metas → 128 ≤ record.discriminator.toNat →
          (call.base ++ metas)[record.discriminator.toNat - 128]? = none →
          (evaluateRecord ⟨prefetch, call.gatingProgram, call.data⟩ (call.base ++ metas)
              metas.length record).run =
            .done (.error (.noSuchAccount (record.discriminator.toNat - 128)
              (call.base ++ metas).length))) := by
  dsimp only
  rw [(call.outcome_eq_plan delivery deriver accounts options).1]
  cases ha : accounts call.configuration with
  | none => exact call.value_plan_of_none deriver accounts ha
  | some account =>
    dsimp only
    cases hc : Configuration.decode account.data with
    | error cause => exact call.value_plan_of_error deriver accounts ha hc
    | ok configuration =>
      dsimp only
      rw [call.value_plan deriver accounts ha hc]
      have hok := recordsValue_eq_ok_iff (call.recordValue deriver accounts) 0
        configuration.records call.base
      have herror := recordsValue_eq_error_iff (call.recordValue deriver accounts) 0
        configuration.records call.base
      simp only [Nat.zero_add] at hok herror
      refine ⟨fun resolved => ?_,
        fun metas h i account record => call.flags_of_inOrder deriver accounts h,
        fun cause => ?_, fun prefetch metas record _ _ => evaluateRecord_without_owner⟩
      · rw [exceptMap_eq_ok]
        constructor
        · rintro ⟨all, hall, rfl⟩
          obtain ⟨metas, hl, ho, rfl⟩ := (hok all).1 hall
          exact ⟨metas, hl, ho, rfl⟩
        · rintro ⟨metas, hl, ho, rfl⟩
          exact ⟨_, (hok _).2 ⟨metas, hl, ho, rfl⟩, rfl⟩
      · rw [exceptMap_eq_error]
        exact herror cause

end Call

end ExtraAccounts
