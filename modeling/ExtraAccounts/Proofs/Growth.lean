import ExtraAccounts.Proofs.ConfigurationFormat
import ExtraAccounts.Proofs.RecordByRecord

/-!
# When data grows

A call that succeeds goes on to succeed, with the same accounts, when data is appended to its
instruction data or to any account, its configuration included, and when accounts are added
(`resolve_of_grows`). Every read of a resolution takes a window that lies inside the data, and a
window stays where it is when data is appended (`slice?_of_isPrefix`, `block?_of_isPrefix`). From
there a success is carried along the evaluation: `seedValue_of_grows`, `readingValue_of_grows`,
`pointerValue_of_grows`, `recordValue_of_grows`, `recordsValue_of_ok`.
-/

namespace ExtraAccounts

/-! ## Windows -/

namespace Bytes

variable {data data' : Bytes}

theorem slice?_of_isPrefix (hd : data <+: data') {offset len : Nat} {window : Bytes}
    (h : data.slice? offset len = some window) : data'.slice? offset len = some window := by
  obtain ⟨hle, hw⟩ := slice?_eq_some_iff.1 h
  have := hd.length_le
  exact slice?_eq_some_iff.2 ⟨by omega, (take_drop_of_isPrefix hd hle).trans hw⟩

theorem block?_of_isPrefix (hd : data <+: data') {n offset : Nat} {block : Block n}
    (h : data.block? n offset = some block) : data'.block? n offset = some block := by
  obtain ⟨hle, hb⟩ := block?_eq_some_iff.1 h
  have := hd.length_le
  exact block?_eq_some_iff.2 ⟨by omega, (take_drop_of_isPrefix hd hle).trans hb⟩

end Bytes

/-! ## Seeds -/

/-- `later` has every account of `earlier`, with its data or more. -/
def Grows (earlier later : Address → Option Account) : Prop :=
  ∀ address account, earlier address = some account →
    ∃ grown, later address = some grown ∧ account.data <+: grown.data

theorem mapM_of_ok {α β : Type} {f g : α → Except Failure β} {xs : List α} {ys : List β}
    (hfg : ∀ x y, f x = .ok y → g x = .ok y) (h : xs.mapM f = .ok ys) : xs.mapM g = .ok ys := by
  induction xs generalizing ys with
  | nil => exact h
  | cons x xs ih =>
    obtain ⟨y, later, hy, hlater, rfl⟩ := mapM_cons_eq_ok.1 h
    exact mapM_cons_eq_ok.2 ⟨y, later, hfg x y hy, ih hlater, rfl⟩

section
variable {accounts accounts' : Address → Option Account} {data data' : Bytes}
  {known : List AccountMeta}

theorem seedWindow_of_isPrefix (hd : data <+: data') {cursor : Nat} {offset len : UInt8}
    {problem : Nat → Nat → Nat → SeedProblem} {window : Bytes}
    (h : seedWindow data cursor offset len problem = .ok window) :
    seedWindow data' cursor offset len problem = .ok window :=
  seedWindow_eq_ok_iff.2 (Bytes.slice?_of_isPrefix hd (seedWindow_eq_ok_iff.1 h))

theorem seedValue_of_grows (ha : Grows accounts accounts') (hd : data <+: data')
    (seed : PlacedSeed) (bytes : Bytes)
    (h : seedValue accounts { accounts := known, data } seed = .ok bytes) :
    seedValue accounts' { accounts := known, data := data' } seed = .ok bytes := by
  obtain ⟨cursor, source⟩ := seed
  cases source with
  | literal literal => exact h
  | argument offset len => exact seedWindow_of_isPrefix hd h
  | key index => exact h
  | data index offset len =>
    obtain ⟨address, hi, h⟩ := exceptBind_eq_ok.1 h
    refine exceptBind_eq_ok.2 ⟨address, hi, ?_⟩
    cases hs : accounts address with
    | none => rw [hs] at h; cases h
    | some account =>
      rw [hs] at h
      obtain ⟨grown, hg, hpre⟩ := ha address account hs
      rw [hg]
      exact seedWindow_of_isPrefix hpre h

theorem readingValue_of_grows (ha : Grows accounts accounts') (hd : data <+: data')
    {reading : SeedReading} {seeds : List Bytes}
    (h : readingValue accounts { accounts := known, data } reading = .ok seeds) :
    readingValue accounts' { accounts := known, data := data' } reading = .ok seeds := by
  obtain ⟨values, hv, h⟩ := exceptBind_eq_ok.1 h
  exact exceptBind_eq_ok.2 ⟨values, mapM_of_ok (seedValue_of_grows ha hd) hv, h⟩

/-! ## Pointers -/

theorem addressAt_of_isPrefix (hd : data <+: data') {offset : UInt8} {address : Address}
    (h : addressAt data offset = .ok address) : addressAt data' offset = .ok address :=
  addressAt_eq_ok_iff.2 (Bytes.block?_of_isPrefix hd (addressAt_eq_ok_iff.1 h))

theorem pointerValue_of_grows (ha : Grows accounts accounts') (hd : data <+: data') {spec : Bytes}
    {address : Address}
    (h : pointerValue accounts { accounts := known, data } spec = .ok address) :
    pointerValue accounts' { accounts := known, data := data' } spec = .ok address := by
  unfold pointerValue at h ⊢
  split at h
  · cases h
  · exact addressAt_of_isPrefix hd h
  · split at h
    · cases h
    · rename_i owner ho
      have ho' : Scope.address? { accounts := known, data := data' } _ = some owner := ho
      rw [ho']
      cases hs : accounts owner with
      | none => rw [hs] at h; cases h
      | some account =>
        rw [hs] at h
        obtain ⟨grown, hg, hpre⟩ := ha owner account hs
        dsimp only
        rw [hg]
        exact addressAt_of_isPrefix hpre h

end

/-! ## Records -/

theorem recordsValue_of_ok {evaluate evaluate' : Nat → List AccountMeta → Record →
      Except Failure AccountMeta}
    (he : ∀ index known record account, evaluate index known record = .ok account →
      evaluate' index known record = .ok account)
    {index : Nat} {records : List Record} {known all : List AccountMeta}
    (h : recordsValue evaluate index records known = .ok all) :
    recordsValue evaluate' index records known = .ok all := by
  induction records generalizing index known with
  | nil => exact h
  | cons record later ih =>
    obtain ⟨account, hr, h⟩ := exceptBind_eq_ok.1 h
    exact exceptBind_eq_ok.2 ⟨account, he _ _ _ _ hr, ih h⟩

namespace Call

variable {call : Call} {deriver : Deriver} {accounts accounts' : Address → Option Account}
  {data' : Bytes}

theorem derivedValue_of_grows (ha : Grows accounts accounts') (hd : call.data <+: data')
    {known : List AccountMeta} {program address : Address} {spec : AddressConfig}
    (h : call.derivedValue deriver accounts known program spec = .ok address) :
    { call with data := data' }.derivedValue deriver accounts' known program spec =
      .ok address := by
  rw [derivedValue_eq] at h ⊢
  obtain ⟨seeds, hs, h⟩ := exceptBind_eq_ok.1 h
  exact exceptBind_eq_ok.2 ⟨seeds, readingValue_of_grows ha hd hs, h⟩

theorem addressValue_of_grows (ha : Grows accounts accounts') (hd : call.data <+: data')
    {index : Nat} {known : List AccountMeta} {record : Record} {address : Address}
    (h : call.addressValue deriver accounts index known record = .ok address) :
    { call with data := data' }.addressValue deriver accounts' index known record =
      .ok address := by
  unfold addressValue at h ⊢
  dsimp only at h ⊢
  split at h
  · exact h
  · exact derivedValue_of_grows ha hd h
  · rw [Resolution.outcome_followPointer] at h ⊢
    exact pointerValue_of_grows ha hd h
  · split at h
    · cases h
    · rename_i hlarge
      rw [if_neg hlarge]
      split at h
      · cases h
      · rename_i owner ho
        exact derivedValue_of_grows ha hd h

theorem recordValue_of_grows (ha : Grows accounts accounts') (hd : call.data <+: data')
    (index : Nat) (known : List AccountMeta) (record : Record) (account : AccountMeta)
    (h : call.recordValue deriver accounts index known record = .ok account) :
    { call with data := data' }.recordValue deriver accounts' index known record =
      .ok account := by
  obtain ⟨address, hv, rfl⟩ := exceptMap_eq_ok.1 h
  exact exceptMap_eq_ok.2 ⟨address, addressValue_of_grows ha hd hv, rfl⟩

/-! ## Calls -/

theorem value_plan_eq_ok_iff (call : Call) (deriver : Deriver)
    (accounts : Address → Option Account) (resolved : Resolved) :
    (Resolution.outcome deriver accounts (call.plan false)).value = .ok resolved ↔
      ∃ account configuration all, accounts call.configuration = some account ∧
        Configuration.decode account.data = .ok configuration ∧
        recordsValue (call.recordValue deriver accounts) 0 configuration.records call.base =
          .ok all ∧
        resolved = { all, baseLength := call.base.length } := by
  cases ha : accounts call.configuration with
  | none => simp [call.value_plan_of_none deriver accounts ha]
  | some account =>
    cases hc : Configuration.decode account.data with
    | error cause => simp [call.value_plan_of_error deriver accounts ha hc, hc]
    | ok configuration =>
      rw [call.value_plan deriver accounts ha hc, exceptMap_eq_ok]
      simp [hc, eq_comm]

/-- **A success stays when data grows.** -/
theorem resolve_of_grows {resolved : Resolved} {options : Options} {delivery : Plan.Delivery}
    (ha : Grows accounts accounts') (hd : call.data <+: data')
    (h : (call.outcome options delivery deriver accounts).value = .ok resolved)
    (options' : Options) (delivery' : Plan.Delivery) :
    ({ call with data := data' }.outcome options' delivery' deriver accounts').value =
      .ok resolved := by
  rw [(outcome_eq_plan _ _ _ _ _).1] at h ⊢
  obtain ⟨account, configuration, all, hs, hc, hr, rfl⟩ :=
    (call.value_plan_eq_ok_iff deriver accounts _).1 h
  -- the configuration account may have grown too, and still holds the same records
  obtain ⟨grown, hg, hpre⟩ := ha call.configuration account hs
  exact (value_plan_eq_ok_iff _ deriver accounts' _).2
    ⟨grown, configuration, all, hg, Configuration.decode_of_isPrefix hc hpre,
      recordsValue_of_ok (recordValue_of_grows ha hd) hr, rfl⟩

end Call

/-! ## A configuration that is read as data -/

namespace SelfReading

/-- A pointer into the instruction data, then seeds from the configuration account itself. -/
def configuration : Configuration where
  records := [
    .make 2 (Pointer.argument 0).pack false true,
    .make 128 (.padded [4, 0, 8, 2, 2, 0, 3] (by decide)) true false]

def call : Call where
  configuration := .zero 32
  base := [{ address := .zero 32, role := .readonly }]
  data := List.replicate 32 7
  gatingProgram := .zero 32

/-- The seeds in a row, padded with zeros. -/
def concatenate : Deriver := fun _ seeds =>
  if h : seeds.flatten.length ≤ 32 then .ok (.padded seeds.flatten h) else .error .noBump

def accounts : Address → Option Account := fun address =>
  if address = .zero 32 then some (configuration.toAccount (.zero 32)) else none

/-- One byte more in the configuration account, and an empty account everywhere else. -/
def grown : Address → Option Account := fun address =>
  if address = .zero 32 then
    some { data := configuration.encode ++ [1], owner := .padded [9, 9] (by decide) }
  else some { data := [], owner := .zero 32 }

def resolved : Resolved where
  all := [{ address := .zero 32, role := .readonly },
    { address := ⟨List.replicate 32 7, by decide⟩, role := .writable },
    { address := .padded [74, 0, 7, 7, 7] (by decide), role := .readonlySigner }]
  baseLength := 1

theorem grows_accounts : Grows accounts grown := by
  intro address account h
  unfold accounts at h
  unfold grown
  split at h
  · rename_i hzero
    cases h
    exact ⟨_, if_pos hzero, List.prefix_append _ _⟩
  · cases h

theorem resolve_of_grows_self_reading :
    Grows accounts grown ∧ call.data <+: call.data ++ [9] ∧
      (call.outcome {} .batched concatenate accounts).value = .ok resolved ∧
      ({ call with data := call.data ++ [9] }.outcome .plain .immediate concatenate grown).value =
        .ok resolved := by
  have hdata : call.data <+: call.data ++ [9] := List.prefix_append _ _
  have hvalue : (call.outcome {} .batched concatenate accounts).value = .ok resolved := by
    decide +kernel
  exact ⟨grows_accounts, hdata, hvalue,
    Call.resolve_of_grows grows_accounts hdata hvalue .plain .immediate⟩

end SelfReading

end ExtraAccounts
