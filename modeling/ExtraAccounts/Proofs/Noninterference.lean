import ExtraAccounts.Proofs.ConfigurationFormat
import ExtraAccounts.Proofs.Settings

/-!
# What a configuration does not mention

A record refers to accounts by index, and its bytes say which: `Configuration.mentioned` lists the
indexes in its owners, pointers and seeds. Two lists of accounts are `SameAt` these when they are of
the same length and have the same addresses there. Then every record is evaluated alike: its plan
is not just equivalent but the same (`evaluateSpec_of_sameAt`, `followPointer_of_sameAt`,
`evaluateRecord_of_sameAt`), and it gives the same account, which is appended to both lists
(`SameAt.append`). So neither an address that is not mentioned nor any role of the base shows in
what a call resolves, asks for or has derived (`Call.resolve_noninterference`).
-/

namespace ExtraAccounts

/-! ## Mentioned indexes -/

/-- The index of the account that a source refers to. -/
def SeedSource.index? : SeedSource → Option UInt8
  | literal _ | argument .. => none
  | key index | data index _ _ => some index

def SeedReading.mentioned (reading : SeedReading) : List UInt8 :=
  reading.sources.filterMap fun seed => seed.source.index?

/-- The indexes that a record with the strategy refers to, in range or not. -/
def Strategy.mentioned : Strategy → List UInt8
  | literal _ => []
  | seeds spec => (SeedReading.ofSpec spec.toBytes).mentioned
  | pointer spec =>
    match Pointer.read spec.toBytes with
    | .ok (.data index _) => [index]
    | _ => []
  | namespacedSeeds index spec => index :: (SeedReading.ofSpec spec.toBytes).mentioned

def Record.mentioned (record : Record) : List UInt8 :=
  match record.strategy with
  | .ok strategy => strategy.mentioned
  | .error _ => []

def Configuration.mentioned (configuration : Configuration) : List UInt8 :=
  configuration.records.flatMap Record.mentioned

/-! ## Lists of accounts -/

/-- Lists of as many accounts, with the same addresses at the given indexes. -/
structure SameAt (indexes : List UInt8) (known known' : List AccountMeta) : Prop where
  length : known.length = known'.length
  address : ∀ index ∈ indexes, known[index.toNat]?.map AccountMeta.address =
    known'[index.toNat]?.map AccountMeta.address

section
variable {indexes : List UInt8} {known known' : List AccountMeta} {data : Bytes}

theorem SameAt.mono {fewer : List UInt8} (h : SameAt indexes known known')
    (hsub : ∀ index ∈ fewer, index ∈ indexes) : SameAt fewer known known' :=
  ⟨h.length, fun index hindex => h.address index (hsub index hindex)⟩

/-- Lists that are alike stay so when both go on with the same accounts. -/
theorem SameAt.append (h : SameAt indexes known known') (metas : List AccountMeta) :
    SameAt indexes (known ++ metas) (known' ++ metas) := by
  refine ⟨by rw [List.length_append, List.length_append, h.length], fun index hindex => ?_⟩
  by_cases hlt : index.toNat < known.length
  · rw [List.getElem?_append_left hlt, List.getElem?_append_left (h.length ▸ hlt)]
    exact h.address index hindex
  · have hle : known.length ≤ index.toNat := by omega
    rw [List.getElem?_append_right hle, List.getElem?_append_right (h.length ▸ hle), h.length]

/-! ## One record -/

theorem seedAddress_of_sameAt (h : SameAt indexes known known') {index : UInt8}
    (hindex : index ∈ indexes) (cursor : Nat) :
    seedAddress { accounts := known, data } cursor index =
      seedAddress { accounts := known', data } cursor index := by
  unfold seedAddress Scope.address?
  dsimp only
  rw [h.address index hindex, h.length]

theorem evaluateSeed_of_sameAt (h : SameAt indexes known known') (held : Held) {seed : PlacedSeed}
    (hseed : ∀ index, seed.source.index? = some index → index ∈ indexes) :
    evaluateSeed { accounts := known, data } held seed =
      evaluateSeed { accounts := known', data } held seed := by
  obtain ⟨cursor, source⟩ := seed
  unfold evaluateSeed
  cases source with
  | literal bytes => rfl
  | argument offset len => rfl
  | key index =>
    dsimp only
    rw [seedAddress_of_sameAt h (hseed index rfl)]
  | data index offset len =>
    dsimp only
    rw [seedAddress_of_sameAt h (hseed index rfl)]

theorem dataAccount?_of_sameAt (h : SameAt indexes known known') {seed : PlacedSeed}
    (hseed : ∀ index, seed.source.index? = some index → index ∈ indexes) :
    seed.dataAccount? { accounts := known, data } =
      seed.dataAccount? { accounts := known', data } := by
  obtain ⟨cursor, source⟩ := seed
  cases source with
  | literal bytes => rfl
  | argument offset len => rfl
  | key index => rfl
  | data index offset len => exact h.address index (hseed index rfl)

theorem mapM_evaluateSeed_of_sameAt (h : SameAt indexes known known') (held : Held)
    {seeds : List PlacedSeed}
    (hseeds : ∀ seed ∈ seeds, ∀ index, seed.source.index? = some index → index ∈ indexes) :
    seeds.mapM (evaluateSeed { accounts := known, data } held) =
      seeds.mapM (evaluateSeed { accounts := known', data } held) := by
  induction seeds with
  | nil => rfl
  | cons seed later ih =>
    rw [List.mapM_cons, List.mapM_cons,
      evaluateSeed_of_sameAt h held (hseeds seed List.mem_cons_self),
      ih fun seed hseed => hseeds seed (List.mem_cons_of_mem _ hseed)]

/-- **A seed spec** is evaluated alike, whether its accounts are fetched ahead or not. -/
theorem evaluateSpec_of_sameAt (prefetch : Bool) {spec : Bytes}
    (h : SameAt (SeedReading.ofSpec spec).mentioned known known') :
    evaluateSpec prefetch { accounts := known, data } spec =
      evaluateSpec prefetch { accounts := known', data } spec := by
  have hseeds : ∀ seed ∈ (SeedReading.ofSpec spec).sources, ∀ index,
      seed.source.index? = some index → index ∈ (SeedReading.ofSpec spec).mentioned := by
    intro seed hseed index hindex
    exact List.mem_filterMap.2 ⟨seed, hseed, hindex⟩
  have hahead : dataAccounts { accounts := known, data } (SeedReading.ofSpec spec).sources =
      dataAccounts { accounts := known', data } (SeedReading.ofSpec spec).sources := by
    unfold dataAccounts
    rw [List.filterMap_congr fun seed hseed => dataAccount?_of_sameAt h (hseeds seed hseed)]
  unfold evaluateSpec evaluateReading prefetchSeeds
  dsimp only
  rw [hahead]
  simp only [mapM_evaluateSeed_of_sameAt h _ hseeds]

theorem followPointer_of_sameAt {spec : AddressConfig}
    (h : SameAt (Strategy.pointer spec).mentioned known known') :
    followPointer { accounts := known, data } spec.toBytes =
      followPointer { accounts := known', data } spec.toBytes := by
  unfold followPointer
  cases hread : Pointer.read spec.toBytes with
  | error cause => rfl
  | ok pointer =>
    cases pointer with
    | argument offset => rfl
    | data index offset =>
      have hindex : index ∈ (Strategy.pointer spec).mentioned := by
        simp [Strategy.mentioned, hread]
      dsimp only
      unfold Scope.address?
      dsimp only
      rw [h.address index hindex, h.length]

theorem deriveUnder_of_sameAt {ctx : RecordContext} {spec : AddressConfig}
    (h : SameAt (SeedReading.ofSpec spec.toBytes).mentioned known known') (program : Address) :
    deriveUnder ctx known program spec = deriveUnder ctx known' program spec := by
  unfold deriveUnder
  rw [evaluateSpec_of_sameAt ctx.prefetch h]

theorem evaluateStrategy_of_sameAt {ctx : RecordContext} {strategy : Strategy}
    (h : SameAt strategy.mentioned known known') :
    evaluateStrategy ctx known strategy = evaluateStrategy ctx known' strategy := by
  cases strategy with
  | literal address => rfl
  | seeds spec => exact deriveUnder_of_sameAt h ctx.gatingProgram
  | pointer spec => exact followPointer_of_sameAt h
  | namespacedSeeds index spec =>
    have hspec : SameAt (SeedReading.ofSpec spec.toBytes).mentioned known known' :=
      h.mono fun _ hindex => List.mem_cons_of_mem _ hindex
    have howner := h.address index List.mem_cons_self
    unfold evaluateStrategy
    dsimp only
    -- only the address of the owner is looked at
    cases hk : known[index.toNat]? with
    | none =>
      rw [hk] at howner
      rw [Option.map_eq_none_iff.1 howner.symm, h.length]
    | some owner =>
      rw [hk] at howner
      obtain ⟨owner', hk', howner⟩ := Option.map_eq_some_iff.1 howner.symm
      rw [hk']
      dsimp only
      rw [howner]
      exact deriveUnder_of_sameAt hspec owner.address

/-- **A record** gives the same account in the same way. -/
theorem evaluateRecord_of_sameAt {ctx : RecordContext} {record : Record}
    (h : SameAt record.mentioned known known') (index : Nat) :
    evaluateRecord ctx known index record = evaluateRecord ctx known' index record := by
  unfold evaluateRecord
  unfold Record.mentioned at h
  cases hs : record.strategy with
  | error invalid => rfl
  | ok strategy =>
    rw [hs] at h
    dsimp only at h ⊢
    rw [evaluateStrategy_of_sameAt h]

end

/-! ## Records in order -/

/-- The accounts of the records alone, in order; the first record has the given index. -/
def evaluateExtras (ctx : RecordContext) :
    (index : Nat) → List Record → (known : List AccountMeta) → Resolution (List AccountMeta)
  | _, [], _ => pure []
  | index, record :: later, known => do
    let account ← tryCatch (evaluateRecord ctx known index record) fun cause => do
      Plan.note (.recordFailed index cause)
      throw cause
    let extras ← evaluateExtras ctx (index + 1) later (known ++ [account])
    return account :: extras

/-- The accounts known in the end are those known before, then those of the records. -/
theorem evaluateRecords_eq (ctx : RecordContext) (index : Nat) (records : List Record)
    (known : List AccountMeta) :
    evaluateRecords ctx index records known =
      (known ++ ·) <$> evaluateExtras ctx index records known := by
  induction records generalizing index known with
  | nil =>
    rw [evaluateRecords, evaluateExtras, map_pure, List.append_nil]
  | cons record later ih =>
    rw [evaluateRecords, evaluateExtras, map_bind]
    congr 1
    funext account
    rw [ih, map_bind, map_eq_pure_bind]
    congr 1
    funext extras
    rw [map_pure, List.append_assoc, List.singleton_append]

/-- **Records** give the same accounts in the same way after lists that are alike where they look:
an account that they give is then at the same index of both. -/
theorem evaluateExtras_of_sameAt {ctx : RecordContext} {records : List Record}
    {known known' : List AccountMeta} (h : SameAt (records.flatMap Record.mentioned) known known')
    (index : Nat) :
    evaluateExtras ctx index records known = evaluateExtras ctx index records known' := by
  induction records generalizing index known known' with
  | nil => rfl
  | cons record later ih =>
    rw [List.flatMap_cons] at h
    have hrecord := h.mono fun i (hi : i ∈ record.mentioned) => List.mem_append_left _ hi
    have hlater := h.mono fun i (hi : i ∈ later.flatMap Record.mentioned) =>
      List.mem_append_right _ hi
    rw [evaluateExtras, evaluateExtras, evaluateRecord_of_sameAt hrecord index]
    congr 1
    funext account
    rw [ih (hlater.append [account]) (index + 1)]

/-! ## Calls -/

namespace Call

variable (call : Call) (deriver : Deriver) (accounts : Address → Option Account)

/-- What a call comes to after its configuration is decoded. -/
theorem outcome_plan_of_decode {prefetch : Bool} {account : Account}
    {configuration : Configuration} (ha : accounts call.configuration = some account)
    (hc : Configuration.decode account.data = .ok configuration) :
    let extras := Resolution.outcome deriver accounts
      (evaluateExtras ⟨prefetch, call.gatingProgram, call.data⟩ 0 configuration.records call.base)
    Resolution.outcome deriver accounts (call.plan prefetch) =
      { value := extras.value.map fun metas =>
          { all := call.base ++ metas, baseLength := call.base.length }
        events := .logged (.fetchingConfiguration call.configuration) ::
          .requested call.configuration ::
          .logged (.recordCount configuration.records.length) :: extras.events } := by
  intro extras
  unfold plan
  simp only [evaluateRecords_eq, bind_pure_comp, Resolution.outcome_bind, Resolution.outcome_note,
    Resolution.outcome_fetch, Resolution.andThen, ha, hc, Resolution.outcome_map]
  cases extras.value <;> rfl

variable {call accounts} {base' : List AccountMeta}

/-- The same events happen, and the same accounts come of the records or the same failure. -/
theorem outcome_plan_of_sameAt
    (h : ∀ account configuration, accounts call.configuration = some account →
      Configuration.decode account.data = .ok configuration →
      SameAt configuration.mentioned call.base base') (prefetch : Bool) :
    let outcome := Resolution.outcome deriver accounts (call.plan prefetch)
    let outcome' := Resolution.outcome deriver accounts
      ({ call with base := base' }.plan prefetch)
    outcome.value.map Resolved.extra = outcome'.value.map Resolved.extra ∧
      outcome.events = outcome'.events := by
  intro outcome outcome'
  cases ha : accounts call.configuration with
  | none =>
    -- the base is not looked at before the configuration is
    have hsame : outcome = outcome' := by
      unfold outcome outcome' plan
      simp only [Resolution.outcome_bind, Resolution.outcome_note, Resolution.outcome_fetch,
        Resolution.andThen, ha]
    rw [hsame]
    exact ⟨rfl, rfl⟩
  | some account =>
    cases hc : Configuration.decode account.data with
    | error cause =>
      have hsame : outcome = outcome' := by
        unfold outcome outcome' plan
        simp only [Resolution.outcome_bind, Resolution.outcome_note, Resolution.outcome_fetch,
          Resolution.andThen, ha, hc]
      rw [hsame]
      exact ⟨rfl, rfl⟩
    | ok configuration =>
      have hmentioned := h account configuration ha hc
      unfold outcome outcome'
      rw [outcome_plan_of_decode call deriver accounts ha hc,
        outcome_plan_of_decode { call with base := base' } deriver accounts ha hc]
      dsimp only
      rw [evaluateExtras_of_sameAt hmentioned 0]
      refine ⟨?_, rfl⟩
      cases (Resolution.outcome deriver accounts
        (evaluateExtras _ 0 configuration.records base')).value with
      | error cause => rfl
      | ok metas => simp [Except.map, Resolved.extra]

/-- **What is not mentioned does not matter.** When two bases are of the same length and have the
same addresses wherever the configuration mentions one, whatever their other addresses and their
roles, a call gives the same accounts of records or the same failure, asks for the same addresses
and has the same ones derived. -/
theorem resolve_noninterference
    (h : ∀ account configuration, accounts call.configuration = some account →
      Configuration.decode account.data = .ok configuration →
      SameAt configuration.mentioned call.base base')
    (options : Options) (delivery : Plan.Delivery) :
    let outcome := call.outcome options delivery deriver accounts
    let outcome' := { call with base := base' }.outcome options delivery deriver accounts
    outcome.value.map Resolved.extra = outcome'.value.map Resolved.extra ∧
      outcome.requests = outcome'.requests ∧ outcome.derivations = outcome'.derivations := by
  intro outcome outcome'
  obtain ⟨memo, prefetch⟩ := options
  obtain ⟨hvalue, hevents⟩ := outcome_plan_of_sameAt deriver h prefetch
  unfold outcome outcome'
  cases memo with
  | false =>
    rw [outcome_no_memo, outcome_no_memo]
    exact ⟨hvalue, congrArg (List.filterMap _) hevents, congrArg (List.filterMap _) hevents⟩
  | true =>
    obtain ⟨hv, hd, hr⟩ := outcome_memo call delivery deriver accounts prefetch
    obtain ⟨hv', hd', hr'⟩ :=
      outcome_memo { call with base := base' } delivery deriver accounts prefetch
    rw [hv, hd, hr, hv', hd', hr']
    refine ⟨hvalue, ?_, congrArg (List.filterMap _) hevents⟩
    exact congrArg List.eraseDups (congrArg (List.filterMap _) hevents)

end Call

/-! ## An account that is not mentioned -/

namespace Bystander

def address (n : UInt8) : Address := .padded [n] (by simp)

/-- A pointer into the data of the account at 1, then seeds from that account under the program
that the pointer found; index 2 is not mentioned. -/
def configuration : Configuration where
  tag := .padded [4, 2] (by decide)
  records := [
    .make 2 (.padded [2, 1, 3] (by decide)) false true,
    .make 131 (.padded [3, 0, 4, 1, 0, 3] (by decide)) true true]

def call : Call where
  configuration := address 1
  base := [{ address := address 1, role := .readonly }, { address := address 4, role := .writable },
    { address := address 5, role := .readonlySigner }]
  data := []
  gatingProgram := address 2

/-- Another account at index 2, and other roles throughout. -/
def otherBase : List AccountMeta := [
  { address := address 1, role := .writableSigner }, { address := address 4, role := .readonly },
  { address := address 6, role := .writable }]

/-- A byte of the program, a byte of the first seed and all of the others. -/
def deriver : Deriver := fun program seeds =>
  .ok (.padded
    ((program.toBytes.take 1 ++ (seeds.headD []).take 1 ++ seeds.tail.flatten).take 32)
    (List.length_take_le 32 _))

def accounts : Address → Option Account := fun a =>
  if a = address 1 then some (configuration.toAccount (address 3))
  else if a = address 4 then
    some { data := [21, 22, 23] ++ (address 8).toBytes, owner := address 3 }
  else none

def outcome (call : Call) : Outcome (Except Failure Resolved) :=
  call.outcome {} .batched deriver accounts

def extra : List AccountMeta := [
  { address := address 8, role := .writable },
  { address := .padded [8, 1, 21, 22, 23] (by decide), role := .writableSigner }]

theorem sameAt_mentioned (account : Account) (found : Configuration)
    (ha : accounts call.configuration = some account)
    (hc : Configuration.decode account.data = .ok found) :
    SameAt found.mentioned call.base otherBase := by
  have hstore : accounts call.configuration = some (configuration.toAccount (address 3)) := rfl
  cases hstore.symm.trans ha
  have hfits : Configuration.Fits configuration.records.length := by decide
  cases (Configuration.decode_toAccount hfits (address 3)).symm.trans hc
  exact ⟨rfl, by decide +kernel⟩

theorem resolve_noninterference_bystander :
    (∀ account found, accounts call.configuration = some account →
      Configuration.decode account.data = .ok found →
      SameAt found.mentioned call.base otherBase) ∧
    (outcome call).value.map Resolved.extra = .ok extra ∧
    (outcome { call with base := otherBase }).value.map Resolved.extra = .ok extra ∧
    (outcome { call with base := otherBase }).requests = (outcome call).requests ∧
    (outcome { call with base := otherBase }).derivations = (outcome call).derivations := by
  have hextra : (outcome call).value.map Resolved.extra = .ok extra := by decide +kernel
  obtain ⟨hvalue, hrequests, hderivations⟩ :=
    Call.resolve_noninterference deriver sameAt_mentioned {} .batched
  exact ⟨sameAt_mentioned, hextra, hvalue.symm.trans hextra, hrequests.symm, hderivations.symm⟩

end Bystander

end ExtraAccounts
