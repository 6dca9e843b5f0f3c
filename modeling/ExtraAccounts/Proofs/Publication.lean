import ExtraAccounts.Proofs.Composition
import ExtraAccounts.Proofs.PackedSeeds

/-!
# From the publisher to the client

A publisher describes extra accounts (`ExtraAccount`), packs each into a record and publishes the
encoded configuration. A call that finds it comes to what the descriptions say by themselves
(`Call.resolve_published`): `Call.publishedValue` evaluates them one after the other, from the
address, the seed sources, the pointer and the index that the publisher named, and never looks at a
byte of the configuration. So no such configuration fails for its format (`Failure.isFormat`).
-/

namespace ExtraAccounts

/-- An extra account as its publisher describes it. -/
structure ExtraAccount where
  recipe : Recipe
  signer : Bool
  writable : Bool
deriving DecidableEq

/-- The record of the account; fails iff its recipe does not fit one. -/
def ExtraAccount.toRecord (extra : ExtraAccount) : Except PackError Record :=
  Record.ofRecipe extra.recipe extra.signer extra.writable

/-- Whether the bytes of the configuration are not those of a list of packed recipes. -/
def Failure.isFormat : Failure → Bool
  | badConfiguration _ | badDiscriminator .. | badPointer _ => true
  | badSeed _ (.unknownTag _) | badSeed _ (.missingOperands _) => true
  | _ => false

/-! ## Evaluating descriptions -/

/-- The address that a pointer points at, given all accounts. -/
def Pointer.value (accounts : Address → Option Account) (scope : Scope) :
    Pointer → Except Failure Address
  | .argument offset => addressAt scope.data offset
  | .data index offset =>
    match scope.address? index with
    | none => .error (.noSuchAccount index.toNat scope.accounts.length)
    | some address =>
      match accounts address with
      | none => .error (.noPointerAccount address)
      | some account => addressAt account.data offset

namespace Call

variable (call : Call) (deriver : Deriver) (accounts : Address → Option Account)

/-- The address derived under a program from seed sources. A seed that fails names the cursor of its
source, which is the size of those before it. -/
def sourcesValue (known : List AccountMeta) (program : Address) (sources : List SeedSource) :
    Except Failure Address :=
  let scope : Scope := { accounts := known, data := call.data }
  ((SeedSource.placed 0 sources).mapM (seedValue accounts scope)).bind fun seeds =>
    match deriver program seeds with
    | .ok address => .ok address
    | .error cause => .error (.underivable program cause)

/-- The address that a recipe finds after the accounts known so far. -/
def recipeValue (known : List AccountMeta) : Recipe → Except Failure Address
  | .literal address => .ok address
  | .seeds sources => call.sourcesValue deriver accounts known call.gatingProgram sources
  | .pointer pointer => pointer.value accounts { accounts := known, data := call.data }
  | .namespacedSeeds index sources =>
    match known[index.toNat]? with
    | none => .error (.noSuchAccount index.toNat known.length)
    | some owner => call.sourcesValue deriver accounts known owner.address sources

/-- The known accounts followed by one for each description, each evaluated after those before. -/
def publishedValue : List ExtraAccount → (known : List AccountMeta) →
    Except Failure (List AccountMeta)
  | [], known => .ok known
  | extra :: later, known =>
    (call.recipeValue deriver accounts known extra.recipe).bind fun address =>
      publishedValue later (known ++ [{ address, role := .ofFlags extra.signer extra.writable }])

/-! ## Records of recipes -/

theorem derivedValue_of_pack {known : List AccountMeta} {program : Address}
    {sources : List SeedSource} {spec : AddressConfig} (h : SeedSource.pack sources = .ok spec) :
    call.derivedValue deriver accounts known program spec =
      call.sourcesValue deriver accounts known program sources := by
  have hreading : ∀ scope, readingValue accounts scope (.ofSpec spec.toBytes) =
      (SeedSource.placed 0 sources).mapM (seedValue accounts scope) := by
    intro scope
    rw [SeedReading.ofSpec_pack h, readingValue]
    dsimp only
    cases (SeedSource.placed 0 sources).mapM (seedValue accounts scope) <;> rfl
  rw [derivedValue_eq, hreading]
  rfl

theorem pointerValue_pack (scope : Scope) (pointer : Pointer) :
    pointerValue accounts scope pointer.pack.toBytes = pointer.value accounts scope := by
  rw [pointerValue, Pointer.read_pack]
  cases pointer <;> rfl

theorem role_make (discriminator : UInt8) (config : AddressConfig) (signer writable : Bool) :
    (Record.make discriminator config signer writable).role = .ofFlags signer writable := by
  cases signer <;> cases writable <;> rfl

theorem addressValue_of_namespace {record : Record} {owner : Nat}
    (h : record.discriminator.toNat = 128 + owner) (index : Nat) (known : List AccountMeta) :
    call.addressValue deriver accounts index known record =
      match known[owner]? with
      | none => .error (.noSuchAccount owner known.length)
      | some account => call.derivedValue deriver accounts known account.address record.config := by
  have hindex : record.discriminator.toNat - 128 = owner := by omega
  rw [call.addressValue_of_le deriver accounts (by omega), if_neg (by omega)]
  cases hk : known[owner]? with
  | none => simp only [hindex, hk]
  | some account => simp only [hindex, hk]

/-- **The record of a recipe** gives what the recipe finds, in the role of its flags. -/
theorem recordValue_of_recipe {extra : ExtraAccount} {record : Record}
    (h : extra.toRecord = .ok record) (index : Nat) (known : List AccountMeta) :
    call.recordValue deriver accounts index known record =
      (call.recipeValue deriver accounts known extra.recipe).map fun address =>
        { address, role := .ofFlags extra.signer extra.writable } := by
  obtain ⟨recipe, signer, writable⟩ := extra
  suffices haddress : call.addressValue deriver accounts index known record =
      call.recipeValue deriver accounts known recipe ∧ record.role = .ofFlags signer writable by
    rw [recordValue, haddress.1]
    dsimp only
    rw [← haddress.2]
    rfl
  unfold ExtraAccount.toRecord Record.ofRecipe at h
  cases recipe with
  | literal address =>
    cases h
    exact ⟨rfl, role_make _ _ _ _⟩
  | seeds sources =>
    obtain ⟨spec, hpack, h⟩ := exceptBind_eq_ok.1 h
    cases h
    refine ⟨?_, role_make _ _ _ _⟩
    show call.derivedValue deriver accounts known call.gatingProgram spec = _
    rw [call.derivedValue_of_pack deriver accounts hpack]
    rfl
  | pointer pointer =>
    cases h
    refine ⟨?_, role_make _ _ _ _⟩
    show (Resolution.outcome deriver accounts
      (followPointer { accounts := known, data := call.data } pointer.pack.toBytes)).value = _
    rw [Resolution.outcome_followPointer]
    exact pointerValue_pack accounts _ pointer
  | namespacedSeeds owner sources =>
    dsimp only at h
    split at h
    · cases h
    rename_i hsmall
    obtain ⟨spec, hpack, h⟩ := exceptBind_eq_ok.1 h
    cases h
    refine ⟨?_, role_make _ _ _ _⟩
    -- the flag bit and the index do not overlap
    have hlt : owner.toNat < 128 := by
      simpa [UInt8.le_iff_toNat_le] using hsmall
    have hd : (128 + owner).toNat = 128 + owner.toNat := by
      rw [UInt8.toNat_add]
      simp only [UInt8.reduceToNat]
      omega
    rw [call.addressValue_of_namespace deriver accounts hd, recipeValue]
    cases known[owner.toNat]? with
    | none => rfl
    | some account => exact call.derivedValue_of_pack deriver accounts hpack

theorem recordsValue_of_recipes {extras : List ExtraAccount} {records : List Record}
    (h : extras.mapM ExtraAccount.toRecord = .ok records) (index : Nat)
    (known : List AccountMeta) :
    recordsValue (call.recordValue deriver accounts) index records known =
      call.publishedValue deriver accounts extras known := by
  induction extras generalizing records index known with
  | nil =>
    cases h
    rfl
  | cons extra later ih =>
    obtain ⟨record, rest, hrecord, hrest, rfl⟩ := mapM_cons_eq_ok.1 h
    rw [recordsValue, publishedValue,
      call.recordValue_of_recipe deriver accounts hrecord index known]
    cases call.recipeValue deriver accounts known extra.recipe with
    | error cause => rfl
    | ok address => exact ih hrest (index + 1) _

/-! ## Failures -/

section
variable {call deriver accounts}

theorem isFormat_of_seedValue {scope : Scope} {seed : PlacedSeed} {cause : Failure}
    (h : seedValue accounts scope seed = .error cause) : cause.isFormat = false := by
  rcases seedValue_eq_error accounts h with ⟨address, rfl⟩ | ⟨problem, rfl, hproblem⟩
  · rfl
  · cases problem with
    | unknownTag tag => exact absurd rfl (hproblem tag).1
    | missingOperands tag => exact absurd rfl (hproblem tag).2
    | argumentOutOfBounds offset stop available => rfl
    | noSuchAccount index known => rfl
    | dataOutOfBounds offset stop available => rfl

theorem isFormat_of_sourcesValue {known : List AccountMeta} {program : Address}
    {sources : List SeedSource} {cause : Failure}
    (h : call.sourcesValue deriver accounts known program sources = .error cause) :
    cause.isFormat = false := by
  rcases exceptBind_eq_error.1 h with h | ⟨seeds, -, h⟩
  · obtain ⟨seed, -, hseed⟩ := exists_of_mapM_eq_error h
    exact isFormat_of_seedValue hseed
  · split at h <;> cases h
    rfl

theorem isFormat_of_pointerValue {scope : Scope} {pointer : Pointer} {cause : Failure}
    (h : pointer.value accounts scope = .error cause) : cause.isFormat = false := by
  have hread : ∀ {data : Bytes} {offset : UInt8}, addressAt data offset = .error cause →
      cause.isFormat = false := by
    intro data offset h
    obtain ⟨-, rfl⟩ := addressAt_eq_error_iff.1 h
    rfl
  cases pointer with
  | argument offset => exact hread h
  | data index offset =>
    unfold Pointer.value at h
    dsimp only at h
    split at h
    · cases h
      rfl
    · split at h
      · cases h
        rfl
      · exact hread h

theorem isFormat_of_recipeValue {known : List AccountMeta} {recipe : Recipe} {cause : Failure}
    (h : call.recipeValue deriver accounts known recipe = .error cause) :
    cause.isFormat = false := by
  cases recipe with
  | literal address => cases h
  | seeds sources => exact isFormat_of_sourcesValue h
  | pointer pointer => exact isFormat_of_pointerValue h
  | namespacedSeeds index sources =>
    unfold recipeValue at h
    dsimp only at h
    split at h
    · cases h
      rfl
    · exact isFormat_of_sourcesValue h

theorem isFormat_of_publishedValue {extras : List ExtraAccount} {known : List AccountMeta}
    {cause : Failure} (h : call.publishedValue deriver accounts extras known = .error cause) :
    cause.isFormat = false := by
  induction extras generalizing known with
  | nil => cases h
  | cons extra later ih =>
    rcases exceptBind_eq_error.1 h with h | ⟨address, -, h⟩
    · exact isFormat_of_recipeValue h
    · exact ih h

end

/-! ## Calls -/

/-- **What is published is what is resolved.** A call that finds the packed descriptions comes to
what they say, evaluated one after the other from the base, and never fails for its format. -/
theorem resolve_published (options : Options) (delivery : Plan.Delivery)
    {extras : List ExtraAccount} {records : List Record} {tag : Block 8} {owner : Address}
    (hrecords : extras.mapM ExtraAccount.toRecord = .ok records)
    (hfits : Configuration.Fits extras.length)
    (hstore : accounts call.configuration =
      some (Configuration.toAccount { tag, records } owner)) :
    let value := (call.outcome options delivery deriver accounts).value
    value = (call.publishedValue deriver accounts extras call.base).map
        (fun all => { all, baseLength := call.base.length }) ∧
      ∀ cause, value = .error cause → cause.isFormat = false := by
  intro value
  have hholds : Holds accounts call.configuration records := by
    apply holds_of_toAccount { tag, records } owner hstore
    rw [length_of_mapM_eq_ok hrecords]
    exact hfits
  have hvalue : value = (call.publishedValue deriver accounts extras call.base).map
      (fun all => { all, baseLength := call.base.length }) := by
    rw [← call.recordsValue_of_recipes deriver accounts hrecords 0 call.base]
    exact call.value_of_holds options delivery deriver hholds
  refine ⟨hvalue, fun cause hcause => ?_⟩
  rw [hvalue, exceptMap_eq_error] at hcause
  exact isFormat_of_publishedValue hcause

end Call

/-! ## One of every recipe -/

namespace EveryRecipe

def address (n : UInt8) : Address := .padded [n, n] (by simp)

/-- The second recipe fills its config, the pointer reads in the configuration itself, and the last
recipe has an empty literal and an owner that is the account of the first. -/
def extras : List ExtraAccount := [
  { recipe := .literal (address 7), signer := false, writable := true },
  { recipe := .seeds [.literal (List.replicate 30 5)], signer := false, writable := false },
  { recipe := .pointer (.data 0 17), signer := true, writable := true },
  { recipe := .namespacedSeeds 1 [.literal [], .argument 1 2, .data 0 8 2]
    signer := true, writable := false }]

def configuration : Configuration where
  tag := .padded [6, 6] (by decide)
  records := [
    .make 0 (address 7) false true,
    .make 1 (.padded (1 :: 30 :: List.replicate 30 5) (by decide)) false false,
    .make 2 (.padded [2, 0, 17] (by decide)) true true,
    .make 129 (.padded [1, 0, 2, 1, 2, 4, 0, 8, 2] (by decide)) true false]

def call : Call where
  configuration := address 1
  base := [{ address := address 1, role := .readonly }]
  data := [11, 12, 13]
  gatingProgram := address 2

/-- Two bytes of the program, then the seeds in a row. -/
def deriver : Deriver := fun program seeds =>
  .ok (.padded ((program.toBytes.take 2 ++ seeds.flatten).take 32) (List.length_take_le 32 _))

def accounts : Address → Option Account := fun a =>
  if a = address 1 then some (configuration.toAccount (address 3)) else none

def value (call : Call) : Except Failure Resolved :=
  (call.outcome {} .batched deriver accounts).value

def resolved : Resolved where
  all := [{ address := address 1, role := .readonly },
    { address := address 7, role := .writable },
    { address := ⟨2 :: 2 :: List.replicate 30 5, by decide⟩, role := .readonly },
    { address := address 7, role := .writableSigner },
    { address := .padded [7, 7, 12, 13, 144] (by decide), role := .readonlySigner }]
  baseLength := 1

/-- With no instruction data, the seed after the empty literal fails, at cursor 2. -/
theorem resolve_published_every_recipe :
    extras.mapM ExtraAccount.toRecord = .ok configuration.records ∧
    Configuration.Fits extras.length ∧
    accounts call.configuration = some (configuration.toAccount (address 3)) ∧
    value call = .ok resolved ∧
    value { call with data := [] } = .error (.badSeed 2 (.argumentOutOfBounds 1 3 0)) ∧
    (Failure.badSeed 2 (.argumentOutOfBounds 1 3 0)).isFormat = false := by
  have hrecords : extras.mapM ExtraAccount.toRecord = .ok configuration.records := by
    decide +kernel
  have hfits : Configuration.Fits extras.length := by decide
  have hstore : accounts call.configuration = some (configuration.toAccount (address 3)) := rfl
  have hgiven := Call.resolve_published call deriver accounts {} .batched hrecords hfits hstore
  have hempty := Call.resolve_published { call with data := [] } deriver accounts {} .batched
    hrecords hfits hstore
  have hfails : value { call with data := [] } =
      .error (.badSeed 2 (.argumentOutOfBounds 1 3 0)) :=
    hempty.1.trans (by decide +kernel)
  exact ⟨hrecords, hfits, hstore, hgiven.1.trans (by decide +kernel), hfails, hempty.2 _ hfails⟩

end EveryRecipe

end ExtraAccounts
