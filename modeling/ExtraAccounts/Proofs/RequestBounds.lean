import ExtraAccounts.Proofs.SeedLimits

/-!
# How much is asked for

How many accounts a plan asks for at most, whatever it is answered (`Plan.AsksAtMost`): the bounds of
a sequence add up. Without prefetching, a source asks for one account if it reads data, and such a
source takes four bytes of its config, so a seed spec asks for at most eight accounts
(`asksAtMost_evaluateSpec`). A pointer asks for one. So a run of records asks for at most
`Record.mostReads` each (`asksAtMost_evaluateRecords`), and so does a call after the request for its
configuration (`Call.run_plan_eq`, `Call.asksAtMost_resolveFrom`).
-/

namespace ExtraAccounts

/-! ## Plans -/

namespace Plan

variable {α β : Type} {plan : Plan α} {m n : Nat}

/-- Whatever the plan is answered, it asks for at most so many accounts. -/
def AsksAtMost : Plan α → Nat → Prop
  | done _, _ => True
  | request addresses next, n =>
    addresses.length ≤ n ∧ ∀ answers, (next answers).AsksAtMost (n - addresses.length)
  | derivation _ _ next, n => ∀ answer, (next answer).AsksAtMost n
  | log _ next, n => next.AsksAtMost n

theorem AsksAtMost.mono (h : plan.AsksAtMost m) (hle : m ≤ n) : plan.AsksAtMost n := by
  induction plan generalizing m n with
  | done value => exact trivial
  | request addresses next ih =>
    exact ⟨Nat.le_trans h.1 hle, fun answers => ih answers (h.2 answers) (Nat.sub_le_sub_right hle _)⟩
  | derivation program seeds next ih => exact fun answer => ih answer (h answer) hle
  | log entry next ih => exact ih h hle

/-- **The bounds of a sequence** add up. -/
theorem AsksAtMost.bind {f : α → Plan β} (h : plan.AsksAtMost m)
    (hf : ∀ value, (f value).AsksAtMost n) : (plan.bind f).AsksAtMost (m + n) := by
  induction plan generalizing m with
  | done value => exact (hf value).mono (Nat.le_add_left n m)
  | request addresses next ih =>
    refine ⟨Nat.le_add_right_of_le h.1, fun answers => ?_⟩
    rw [Nat.sub_add_comm h.1]
    exact ih answers (h.2 answers)
  | derivation program seeds next ih => exact fun answer => ih answer (h answer)
  | log entry next ih => exact ih h

end Plan

/-! ## Resolutions -/

section
variable {α β : Type} {m n : Nat}

theorem asksAtMost_run_bind {resolution : Resolution α} {f : α → Resolution β}
    (h : resolution.run.AsksAtMost m) (hf : ∀ value, (f value).run.AsksAtMost n) :
    (resolution >>= f).run.AsksAtMost (m + n) := by
  rw [ExceptT.run_bind, Plan.bind_eq]
  refine h.bind fun result => ?_
  cases result with
  | ok value => exact hf value
  | error cause => exact trivial

theorem asksAtMost_run_ofExcept (result : Except Failure α) :
    (ofExcept result : Resolution α).run.AsksAtMost 0 := by
  cases result <;> exact trivial

theorem asksAtMost_run_note (entry : LogEntry) :
    (liftM (Plan.note entry) : Resolution Unit).run.AsksAtMost 0 := trivial

theorem asksAtMost_run_fetch (address : Address) :
    (liftM (Plan.fetch address) : Resolution (Option Account)).run.AsksAtMost 1 :=
  ⟨Nat.le_refl 1, fun _ => trivial⟩

end

/-! ## Seeds -/

/-- How many accounts the source reads data of. -/
def SeedSource.reads : SeedSource → Nat
  | data .. => 1
  | literal _ | argument .. | key _ => 0

/-- How many of the sources read the data of an account. -/
def seedReads : List PlacedSeed → Nat
  | [] => 0
  | seed :: later => seed.source.reads + seedReads later

theorem four_mul_reads_le (source : SeedSource) : 4 * source.reads ≤ source.size := by
  cases source <;> simp [SeedSource.reads, SeedSource.size]

theorem four_mul_seedReads_le (seeds : List PlacedSeed) :
    4 * seedReads seeds ≤ SeedReading.packedSize seeds := by
  induction seeds with
  | nil => exact Nat.le_refl 0
  | cons seed later ih =>
    have hfirst := four_mul_reads_le seed.source
    rw [seedReads, SeedReading.packedSize]
    omega

theorem seedReads_ofSpec_le (spec : Bytes) : seedReads (SeedReading.ofSpec spec).sources ≤ 8 := by
  have hreads := four_mul_seedReads_le (SeedReading.ofSpec spec).sources
  have hsize := SeedReading.packedSize_ofSpec_le spec
  omega

theorem asksAtMost_evaluateSeed (scope : Scope) (seed : PlacedSeed) :
    (evaluateSeed scope [] seed).run.AsksAtMost seed.source.reads := by
  obtain ⟨cursor, source⟩ := seed
  unfold evaluateSeed
  cases source with
  | literal bytes => exact trivial
  | argument offset len => exact asksAtMost_run_ofExcept _
  | key index =>
    exact asksAtMost_run_bind (n := 0) (asksAtMost_run_ofExcept _) fun address => trivial
  | data index offset len =>
    refine asksAtMost_run_bind (n := 1) (asksAtMost_run_ofExcept _) fun address => ?_
    refine asksAtMost_run_bind (n := 0) (asksAtMost_run_fetch address) fun found => ?_
    cases found with
    | none => exact trivial
    | some account => exact asksAtMost_run_ofExcept _

theorem asksAtMost_mapM (scope : Scope) (seeds : List PlacedSeed) :
    (seeds.mapM (evaluateSeed scope [])).run.AsksAtMost (seedReads seeds) := by
  induction seeds with
  | nil => exact trivial
  | cons seed later ih =>
    rw [List.mapM_cons]
    exact asksAtMost_run_bind (asksAtMost_evaluateSeed scope seed) fun bytes =>
      asksAtMost_run_bind (n := 0) ih fun seeds => trivial

/-- **A seed spec** asks for at most eight accounts. -/
theorem asksAtMost_evaluateSpec (scope : Scope) (spec : Bytes) :
    (evaluateSpec false scope spec).run.AsksAtMost 8 := by
  change (evaluateReading scope [] (.ofSpec spec)).run.AsksAtMost 8
  refine (asksAtMost_run_bind (n := 0) (asksAtMost_mapM scope _) fun seeds => ?_).mono
    (seedReads_ofSpec_le spec)
  split <;> exact trivial

theorem asksAtMost_followPointer (scope : Scope) (spec : Bytes) :
    (followPointer scope spec).run.AsksAtMost 1 := by
  unfold followPointer
  split
  · exact trivial
  · exact (asksAtMost_run_ofExcept _).mono (Nat.zero_le 1)
  · split
    · exact trivial
    · refine asksAtMost_run_bind (n := 0) (asksAtMost_run_fetch _) fun found => ?_
      cases found with
      | none => exact trivial
      | some account => exact asksAtMost_run_ofExcept _

/-! ## Records -/

/-- How many accounts the record reads at most: one for a pointer, eight for seeds. -/
def Record.mostReads (record : Record) : Nat :=
  match record.strategy with
  | .ok (.literal _) => 0
  | .ok (.seeds _) => 8
  | .ok (.pointer _) => 1
  | .ok (.namespacedSeeds ..) => 8
  | .error _ => 0

/-- How many accounts the records read at most, all together. -/
def mostReads : List Record → Nat
  | [] => 0
  | record :: later => record.mostReads + mostReads later

theorem Record.mostReads_le (record : Record) : record.mostReads ≤ 8 := by
  unfold mostReads
  split <;> decide

theorem mostReads_le (records : List Record) : mostReads records ≤ 8 * records.length := by
  induction records with
  | nil => exact Nat.le_refl 0
  | cons record later ih =>
    have hfirst := record.mostReads_le
    rw [mostReads, List.length_cons]
    omega

section
variable {ctx : RecordContext} (hctx : ctx.prefetch = false) (known : List AccountMeta)
include hctx

theorem asksAtMost_deriveUnder (program : Address) (spec : AddressConfig) :
    (deriveUnder ctx known program spec).run.AsksAtMost 8 := by
  unfold deriveUnder
  rw [hctx]
  refine asksAtMost_run_bind (n := 0) (asksAtMost_evaluateSpec _ _) fun seeds => ?_
  intro derived
  cases derived <;> exact trivial

theorem asksAtMost_evaluateRecord (index : Nat) (record : Record) :
    (evaluateRecord ctx known index record).run.AsksAtMost record.mostReads := by
  unfold evaluateRecord Record.mostReads
  cases record.strategy with
  | error invalid => exact trivial
  | ok strategy =>
    cases strategy with
    | literal address => exact trivial
    | seeds spec =>
      exact asksAtMost_run_bind (n := 0) (asksAtMost_deriveUnder hctx known _ spec)
        fun address => trivial
    | pointer spec =>
      exact asksAtMost_run_bind (n := 0) (asksAtMost_followPointer _ _) fun address => trivial
    | namespacedSeeds index spec =>
      refine asksAtMost_run_bind (n := 0) ?_ fun address => trivial
      unfold evaluateStrategy
      dsimp only
      split
      · exact trivial
      · exact asksAtMost_deriveUnder hctx known _ spec

/-- **Records** ask for at most as much as each of them does, all together. -/
theorem asksAtMost_evaluateRecords (index : Nat) (records : List Record) :
    (evaluateRecords ctx index records known).run.AsksAtMost (mostReads records) := by
  induction records generalizing index known with
  | nil => exact trivial
  | cons record later ih =>
    unfold evaluateRecords
    refine asksAtMost_run_bind ?_ fun account => ih (known ++ [account]) (index + 1)
    rw [ExceptT.run_tryCatch, Plan.bind_eq]
    refine (asksAtMost_evaluateRecord hctx known index record).bind (n := 0) fun result => ?_
    cases result <;> exact trivial

end

/-! ## Calls -/

/-- The records of the configuration in the account; none if it holds no configuration. -/
def Account.records (account : Account) : List Record :=
  match Configuration.decode account.data with
  | .ok configuration => configuration.records
  | .error _ => []

namespace Call

variable (call : Call)

/-- What a call does once it has the account of its configuration. -/
def resolveFrom (prefetch : Bool) (account : Account) : Resolution Resolved :=
  match Configuration.decode account.data with
  | .error cause => do
    Plan.note (.decodeFailed cause)
    throw (.badConfiguration cause)
  | .ok configuration => do
    Plan.note (.recordCount configuration.records.length)
    let ctx := { prefetch, gatingProgram := call.gatingProgram, data := call.data }
    let all ← evaluateRecords ctx 0 configuration.records call.base
    return { all, baseLength := call.base.length }

/-- **A call** asks for its configuration first. -/
theorem run_plan_eq (prefetch : Bool) :
    ∃ next, (call.plan prefetch).run =
        .log (.fetchingConfiguration call.configuration) (.request [call.configuration] next) ∧
      next [none] = .done (.error (.noConfiguration call.configuration)) ∧
      ∀ account, next [some account] = (call.resolveFrom prefetch account).run :=
  ⟨_, rfl, rfl, fun _ => rfl⟩

/-- **After that** it asks for at most what its records read. -/
theorem asksAtMost_resolveFrom (account : Account) :
    (call.resolveFrom false account).run.AsksAtMost (mostReads account.records) := by
  unfold resolveFrom Account.records
  cases Configuration.decode account.data with
  | error cause => exact trivial
  | ok configuration =>
    refine (asksAtMost_run_bind (asksAtMost_run_note _) fun _ => ?_).mono
      (Nat.le_of_eq (Nat.zero_add _))
    exact asksAtMost_run_bind (n := 0) (asksAtMost_evaluateRecords (by rfl) _ 0 _) fun all => trivial

end Call

end ExtraAccounts
