import ExtraAccounts.Proofs.Settings

/-!
# Absent accounts

Without prefetching, a resolution asks for one account at a time. If it is absent the resolution
ends there, with a failure that misses it; and there is no other way to miss an account
(`Plan.StopsAtAbsence`, `stopsAtAbsence_plan`). So

* a failure that misses an account names one that is absent (`StopsAtAbsence.absent`);
* a run that ends otherwise met no absent account, and is the same run when accounts are added
  (`StopsAtAbsence.run_of_adds`).

As the settings do not show in the value, both hold of every call (`failure_by_kind`): creating
accounts cures nothing but the absence of the account that a failure names.
-/

namespace ExtraAccounts

/-- `later` has the accounts of `earlier`, unchanged. -/
def Adds (earlier later : Address → Option Account) : Prop :=
  ∀ address account, earlier address = some account → later address = some account

namespace Plan

variable {α β : Type}

/-- The plan asks for nothing and ends with the failure. -/
def Fails (cause : Failure) : Plan (Except Failure α) → Prop
  | done result => result = .error cause
  | log _ next => next.Fails cause
  | request .. | derivation .. => False

/-- The plan asks for one account at a time and fails at once if it is absent, as missing it. It
misses no other. -/
def StopsAtAbsence : Plan (Except Failure α) → Prop
  | done result => ∀ cause, result = .error cause → cause.missing? = none
  | request addresses next =>
    (∃ address cause, addresses = [address] ∧ cause.missing? = some address ∧
      (next [none]).Fails cause) ∧ ∀ account, (next [some account]).StopsAtAbsence
  | derivation _ _ next => ∀ answer, (next answer).StopsAtAbsence
  | log _ next => next.StopsAtAbsence

/-! ## Runs -/

section
variable {deriver : Deriver} {accounts accounts' : Address → Option Account}
  {plan : Plan (Except Failure α)}

theorem Fails.value_run {cause : Failure} (h : plan.Fails cause) (asked : List Address) :
    (plan.run deriver (.fixed accounts) asked).value = .error cause := by
  induction plan with
  | done result => exact h
  | request addresses next => exact h.elim
  | derivation program seeds next => exact h.elim
  | log entry next ih => exact ih h

theorem StopsAtAbsence.absent (h : plan.StopsAtAbsence) {asked : List Address} {cause : Failure}
    {a : Address} (hv : (plan.run deriver (.fixed accounts) asked).value = .error cause)
    (hm : cause.missing? = some a) : accounts a = none := by
  induction plan generalizing asked with
  | done result =>
    rw [h cause hv] at hm
    cases hm
  | request addresses next ih =>
    obtain ⟨⟨address, missed, rfl, hmissed, hfails⟩, hnext⟩ := h
    simp only [run, Source.answer_fixed, List.map_cons, List.map_nil] at hv
    cases ha : accounts address with
    | none =>
      rw [ha] at hv
      have := hv.symm.trans (hfails.value_run _)
      cases this
      rwa [← Option.some.inj (hmissed.symm.trans hm)]
    | some account =>
      rw [ha] at hv
      exact ih _ (hnext account) hv
  | derivation program seeds next ih => exact ih _ (h _) hv
  | log entry next ih => exact ih h hv

theorem StopsAtAbsence.run_of_adds (h : plan.StopsAtAbsence) (ha : Adds accounts accounts')
    {asked : List Address}
    (hv : ∀ cause, (plan.run deriver (.fixed accounts) asked).value = .error cause →
      cause.missing? = none) :
    plan.run deriver (.fixed accounts') asked = plan.run deriver (.fixed accounts) asked := by
  induction plan generalizing asked with
  | done result => rfl
  | request addresses next ih =>
    obtain ⟨⟨address, missed, rfl, hmissed, hfails⟩, hnext⟩ := h
    simp only [run, Source.answer_fixed, List.map_cons, List.map_nil] at hv ⊢
    cases hs : accounts address with
    | none =>
      -- the run would have failed as missing this account
      rw [hs] at hv
      have := hv missed (hfails.value_run _)
      rw [hmissed] at this
      cases this
    | some account =>
      rw [hs] at hv
      rw [ha address account hs, ih _ (hnext account) hv]
  | derivation program seeds next ih =>
    simp only [run]
    rw [ih _ (h _) hv]
  | log entry next ih =>
    simp only [run]
    rw [ih h hv]

end

/-! ## The parts of a resolution -/

theorem Fails.bind {plan : Plan (Except Failure α)} {f : Except Failure α → Plan (Except Failure β)}
    {cause : Failure} (h : plan.Fails cause) (hf : (f (.error cause)).Fails cause) :
    (plan.bind f).Fails cause := by
  induction plan with
  | done result =>
    cases h
    exact hf
  | request addresses next => exact h.elim
  | derivation program seeds next => exact h.elim
  | log entry next ih => exact ih h

theorem Fails.stopsAtAbsence {plan : Plan (Except Failure α)} {cause : Failure}
    (h : plan.Fails cause) (hm : cause.missing? = none) : plan.StopsAtAbsence := by
  induction plan with
  | done result =>
    intro cause' hc
    cases h.symm.trans hc
    exact hm
  | request addresses next => exact h.elim
  | derivation program seeds next => exact h.elim
  | log entry next ih => exact ih h

/-- What comes after a plan keeps this up, if it passes failures on. -/
theorem StopsAtAbsence.bind {plan : Plan (Except Failure α)}
    {f : Except Failure α → Plan (Except Failure β)} (h : plan.StopsAtAbsence)
    (hok : ∀ value, (f (.ok value)).StopsAtAbsence)
    (herror : ∀ cause, (f (.error cause)).Fails cause) : (plan.bind f).StopsAtAbsence := by
  induction plan with
  | done result =>
    cases result with
    | ok value => exact hok value
    | error cause => exact (herror cause).stopsAtAbsence (h cause rfl)
  | request addresses next ih =>
    obtain ⟨⟨address, cause, rfl, hm, hfails⟩, hnext⟩ := h
    exact ⟨⟨address, cause, rfl, hm, hfails.bind (herror cause)⟩,
      fun account => ih _ (hnext account)⟩
  | derivation program seeds next ih => exact fun answer => ih answer (h answer)
  | log entry next ih => exact ih h

theorem stopsAtAbsence_bind {resolution : Resolution α} {f : α → Resolution β}
    (h : resolution.run.StopsAtAbsence) (hf : ∀ value, (f value).run.StopsAtAbsence) :
    (resolution >>= f).run.StopsAtAbsence := by
  rw [ExceptT.run_bind, bind_eq]
  exact h.bind hf fun cause => rfl

/-- A failure is logged on the way out. -/
theorem stopsAtAbsence_tryCatch_note {resolution : Resolution α} (entry : Failure → LogEntry)
    (h : resolution.run.StopsAtAbsence) :
    (tryCatch resolution fun cause => do
        Plan.note (entry cause)
        throw cause).run.StopsAtAbsence := by
  rw [ExceptT.run_tryCatch, bind_eq]
  refine h.bind (fun value => ?_) fun cause => rfl
  intro cause hc
  cases hc

theorem stopsAtAbsence_throw {cause : Failure} (h : cause.missing? = none) :
    (throw cause : Resolution α).run.StopsAtAbsence := by
  intro cause' hc
  cases hc
  exact h

theorem stopsAtAbsence_pure (value : α) : (pure value : Resolution α).run.StopsAtAbsence := by
  intro cause hc
  cases hc

theorem stopsAtAbsence_ofExcept {result : Except Failure α}
    (h : ∀ cause, result = .error cause → cause.missing? = none) :
    (ofExcept result : Resolution α).run.StopsAtAbsence := by
  cases result with
  | ok value => exact stopsAtAbsence_pure value
  | error cause => exact stopsAtAbsence_throw (h cause rfl)

theorem stopsAtAbsence_note (entry : LogEntry) :
    (liftM (note entry) : Resolution Unit).run.StopsAtAbsence :=
  stopsAtAbsence_pure ()

theorem stopsAtAbsence_derive (program : Address) (seeds : List Bytes) :
    (liftM (derive program seeds) : Resolution (Except DerivationError Address)).run.StopsAtAbsence :=
  fun answer => stopsAtAbsence_pure answer

/-- An account is fetched: if it is absent, what follows fails as missing it. -/
theorem stopsAtAbsence_fetch {address : Address} {f : Option Account → Resolution α}
    {cause : Failure} (hm : cause.missing? = some address) (hnone : (f none).run.Fails cause)
    (hsome : ∀ account, (f (some account)).run.StopsAtAbsence) :
    (liftM (fetch address) >>= f).run.StopsAtAbsence :=
  ⟨⟨address, cause, rfl, hm, hnone⟩, hsome⟩

end Plan

open Plan

/-! ## Resolutions without prefetching -/

/-- A read of data that is there, or of the accounts in scope, misses no account. -/
theorem missing?_of_seedWindow {data : Bytes} {cursor : Nat} {offset len : UInt8}
    {problem : Nat → Nat → Nat → SeedProblem} {cause : Failure}
    (h : seedWindow data cursor offset len problem = .error cause) : cause.missing? = none := by
  obtain ⟨-, rfl⟩ := seedWindow_eq_error_iff.1 h
  rfl

theorem missing?_of_seedAddress {scope : Scope} {cursor : Nat} {index : UInt8} {cause : Failure}
    (h : seedAddress scope cursor index = .error cause) : cause.missing? = none := by
  obtain ⟨-, rfl⟩ := seedAddress_eq_error_iff.1 h
  rfl

theorem missing?_of_addressAt {data : Bytes} {offset : UInt8} {cause : Failure}
    (h : addressAt data offset = .error cause) : cause.missing? = none := by
  obtain ⟨-, rfl⟩ := addressAt_eq_error_iff.1 h
  rfl

theorem stopsAtAbsence_evaluateSeed (scope : Scope) (seed : PlacedSeed) :
    (evaluateSeed scope [] seed).run.StopsAtAbsence := by
  unfold evaluateSeed
  split
  · exact stopsAtAbsence_pure _
  · exact stopsAtAbsence_ofExcept fun _ => missing?_of_seedWindow
  · exact stopsAtAbsence_bind (stopsAtAbsence_ofExcept fun _ => missing?_of_seedAddress)
      fun address => stopsAtAbsence_pure _
  · exact stopsAtAbsence_bind (stopsAtAbsence_ofExcept fun _ => missing?_of_seedAddress)
      fun address => stopsAtAbsence_fetch rfl rfl
        fun account => stopsAtAbsence_ofExcept fun _ => missing?_of_seedWindow

theorem stopsAtAbsence_mapM (scope : Scope) (seeds : List PlacedSeed) :
    (seeds.mapM (evaluateSeed scope [])).run.StopsAtAbsence := by
  induction seeds with
  | nil => exact stopsAtAbsence_pure []
  | cons seed later ih =>
    rw [List.mapM_cons]
    exact stopsAtAbsence_bind (stopsAtAbsence_evaluateSeed scope seed) fun bytes =>
      stopsAtAbsence_bind ih fun seeds => stopsAtAbsence_pure _

theorem stopsAtAbsence_evaluateSpec (scope : Scope) (spec : Bytes) :
    (evaluateSpec false scope spec).run.StopsAtAbsence := by
  change (evaluateReading scope [] (.ofSpec spec)).run.StopsAtAbsence
  refine stopsAtAbsence_bind (stopsAtAbsence_mapM scope _) fun seeds => ?_
  split
  · exact stopsAtAbsence_pure seeds
  · rename_i fault _
    exact stopsAtAbsence_throw (by cases fault <;> rfl)

theorem stopsAtAbsence_followPointer (scope : Scope) (spec : Bytes) :
    (followPointer scope spec).run.StopsAtAbsence := by
  unfold followPointer
  split
  · exact stopsAtAbsence_throw rfl
  · exact stopsAtAbsence_ofExcept fun _ => missing?_of_addressAt
  · split
    · exact stopsAtAbsence_throw rfl
    · exact stopsAtAbsence_fetch rfl rfl
        fun account => stopsAtAbsence_ofExcept fun _ => missing?_of_addressAt

section
variable {ctx : RecordContext} (hctx : ctx.prefetch = false) (known : List AccountMeta)
include hctx

theorem stopsAtAbsence_deriveUnder (program : Address) (spec : AddressConfig) :
    (deriveUnder ctx known program spec).run.StopsAtAbsence := by
  unfold deriveUnder
  rw [hctx]
  refine stopsAtAbsence_bind (stopsAtAbsence_evaluateSpec _ _) fun seeds =>
    stopsAtAbsence_bind (stopsAtAbsence_derive program seeds) fun derived => ?_
  cases derived with
  | ok address => exact stopsAtAbsence_pure address
  | error cause => exact stopsAtAbsence_throw rfl

theorem stopsAtAbsence_evaluateRecord (index : Nat) (record : Record) :
    (evaluateRecord ctx known index record).run.StopsAtAbsence := by
  unfold evaluateRecord
  split
  · exact stopsAtAbsence_throw rfl
  · refine stopsAtAbsence_bind ?_ fun address => stopsAtAbsence_pure _
    unfold evaluateStrategy
    split
    · exact stopsAtAbsence_pure _
    · exact stopsAtAbsence_deriveUnder hctx known _ _
    · exact stopsAtAbsence_followPointer _ _
    · split
      · exact stopsAtAbsence_throw rfl
      · exact stopsAtAbsence_deriveUnder hctx known _ _

theorem stopsAtAbsence_evaluateRecords (index : Nat) (records : List Record) :
    (evaluateRecords ctx index records known).run.StopsAtAbsence := by
  induction records generalizing index known with
  | nil => exact stopsAtAbsence_pure known
  | cons record later ih =>
    unfold evaluateRecords
    exact stopsAtAbsence_bind
      (stopsAtAbsence_tryCatch_note _ (stopsAtAbsence_evaluateRecord hctx known index record))
      fun account => ih (known ++ [account]) (index + 1)

end

/-- **Without prefetching, a resolution ends at the first absent account it asks for.** -/
theorem stopsAtAbsence_plan (call : Call) : (call.plan false).run.StopsAtAbsence := by
  unfold Call.plan
  refine stopsAtAbsence_bind (stopsAtAbsence_note _) fun _ =>
    stopsAtAbsence_fetch rfl rfl fun account => ?_
  dsimp only
  split
  · exact stopsAtAbsence_bind (stopsAtAbsence_note _) fun _ => stopsAtAbsence_throw rfl
  · exact stopsAtAbsence_bind (stopsAtAbsence_note _) fun _ =>
      stopsAtAbsence_bind (stopsAtAbsence_evaluateRecords rfl _ 0 _) fun all =>
        stopsAtAbsence_pure _

/-! ## Failures of a call -/

theorem missing?_of_not_isTransient {cause : Failure} (h : cause.isTransient = false) :
    cause.missing? = none := by
  cases hm : cause.missing? with
  | none => rfl
  | some a =>
    rw [cause.isTransient_iff.2 ⟨a, hm⟩] at h
    cases h

/-- **What creating accounts can cure.** A failure that is not transient stays the same whatever
accounts are added. A transient one names an absent account, and no call fails as missing an
account that exists. -/
theorem Call.failure_by_kind {call : Call} {options : Options} {delivery : Plan.Delivery}
    {deriver : Deriver} {accounts : Address → Option Account} {cause : Failure}
    (h : (call.outcome options delivery deriver accounts).value = .error cause) :
    (cause.isTransient = false → ∀ accounts', Adds accounts accounts' →
      (call.outcome options delivery deriver accounts').value = .error cause) ∧
    (cause.isTransient = true → ∃ a, cause.missing? = some a ∧ accounts a = none ∧
      ∀ accounts' account cause', accounts' a = some account →
        (call.outcome options delivery deriver accounts').value = .error cause' →
          cause'.missing? ≠ some a) ∧
    (cause.kind = .malformed ∨ cause.kind = .underivable → ∀ accounts', Adds accounts accounts' →
      ∀ resolved, (call.outcome options delivery deriver accounts').value ≠ .ok resolved) := by
  -- the value is that of the plan without prefetching, whatever the store
  have hplan := fun accounts' => (call.outcome_eq_plan delivery deriver accounts' options).1
  have hstops := stopsAtAbsence_plan call
  rw [hplan] at h
  have hkept : cause.isTransient = false → ∀ accounts', Adds accounts accounts' →
      (call.outcome options delivery deriver accounts').value = .error cause := by
    intro ht accounts' ha
    rw [hplan, Resolution.outcome, hstops.run_of_adds ha fun cause' hc => ?_]
    · exact h
    · cases h.symm.trans hc
      exact missing?_of_not_isTransient ht
  refine ⟨hkept, fun ht => ?_, fun hk accounts' ha resolved hr => ?_⟩
  · obtain ⟨a, hm⟩ := cause.isTransient_iff.1 ht
    refine ⟨a, hm, hstops.absent h hm, fun accounts' account cause' hs hc hm' => ?_⟩
    rw [hplan] at hc
    rw [hstops.absent hc hm'] at hs
    cases hs
  · have ht : cause.isTransient = false := by
      rcases hk with hk | hk <;> rw [Failure.isTransient, hk] <;> rfl
    rw [hkept ht accounts' ha] at hr
    cases hr

/-! ## One failure that is cured and one that is not -/

namespace Uncured

def payer : Address := .padded [1] (by decide)

/-- A seed in the data of the payer, then a record whose discriminator selects nothing. -/
def configuration : Configuration where
  records := [
    .make 1 (.padded [4, 1, 0, 1] (by decide)) false false,
    .make 5 (.zero 32) false false]

def call : Call where
  configuration := .zero 32
  base := [{ address := .zero 32, role := .readonly }, { address := payer, role := .writable }]
  data := []
  gatingProgram := .zero 32

def accounts : Address → Option Account := fun address =>
  if address = .zero 32 then some (configuration.toAccount (.zero 32)) else none

def funded : Address → Option Account := fun address =>
  if address = payer then some { data := [9], owner := .zero 32 } else accounts address

def value (accounts : Address → Option Account) : Except Failure Resolved :=
  (call.outcome {} .batched (fun program _ => .ok program) accounts).value

/-- Without the payer the call misses it; with the payer it fails for good. -/
theorem failure_by_kind_uncured :
    value accounts = .error (.noSeedAccount payer) ∧
    (∃ a, (Failure.noSeedAccount payer).missing? = some a ∧ accounts a = none ∧
      ∀ accounts' account cause, accounts' a = some account → value accounts' = .error cause →
        cause.missing? ≠ some a) ∧
    value funded = .error (.badDiscriminator 1 5) ∧
    ∀ accounts', Adds funded accounts' → value accounts' = .error (.badDiscriminator 1 5) := by
  have hmissing : value accounts = .error (.noSeedAccount payer) := by decide +kernel
  have hbad : value funded = .error (.badDiscriminator 1 5) := by decide +kernel
  exact ⟨hmissing, (Call.failure_by_kind hmissing).2.1 rfl, hbad, (Call.failure_by_kind hbad).1 rfl⟩

end Uncured

end ExtraAccounts
