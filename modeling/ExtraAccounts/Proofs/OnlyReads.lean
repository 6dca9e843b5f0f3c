import ExtraAccounts.Proofs.SeedLengths

/-!
# What reading does

Evaluating seeds and following a pointer only read (`Resolution.OnlyReads`): whatever they are
answered, they ask for accounts and may log that they fetch ahead, and a failure of theirs is never
one of derivation. It is said of every answer, as in `ExtraAccounts.Proofs.SeedLengths`, and each
construct of a resolution keeps it. So in a run of a record, only the address that its strategy
derives is ever derived, and only that derivation can be refused.
-/

namespace ExtraAccounts

/-! ## The events of a plan -/

namespace Plan

variable {α β : Type} {allowed allowed' : Event → Prop} {plan : Plan α}

/-- Whatever the plan is answered, each of its events is allowed. -/
def Uses (allowed : Event → Prop) : Plan α → Prop
  | done _ => True
  | request addresses next =>
    (∀ a ∈ addresses, allowed (.requested a)) ∧ ∀ answers, (next answers).Uses allowed
  | derivation program seeds next =>
    allowed (.derived program seeds) ∧ ∀ answer, (next answer).Uses allowed
  | log entry next => allowed (.logged entry) ∧ next.Uses allowed

theorem Uses.bind {f : α → Plan β} (h : plan.Uses allowed) (hf : ∀ value, (f value).Uses allowed) :
    (plan.bind f).Uses allowed := by
  induction plan with
  | done value => exact hf value
  | request addresses next ih => exact ⟨h.1, fun answers => ih answers (h.2 answers)⟩
  | derivation program seeds next ih => exact ⟨h.1, fun answer => ih answer (h.2 answer)⟩
  | log entry next ih => exact ⟨h.1, ih h.2⟩

theorem Uses.run_bind {resolution : Resolution α} {f : α → Resolution β}
    (h : resolution.run.Uses allowed) (hf : ∀ value, (f value).run.Uses allowed) :
    (resolution >>= f).run.Uses allowed := by
  rw [ExceptT.run_bind, bind_eq]
  refine h.bind fun result => ?_
  cases result with
  | ok value => exact hf value
  | error cause => exact trivial

theorem Uses.mono (h : plan.Uses allowed) (hle : ∀ event, allowed event → allowed' event) :
    plan.Uses allowed' := by
  induction plan with
  | done value => exact trivial
  | request addresses next ih =>
    exact ⟨fun a ha => hle _ (h.1 a ha), fun answers => ih answers (h.2 answers)⟩
  | derivation program seeds next ih => exact ⟨hle _ h.1, fun answer => ih answer (h.2 answer)⟩
  | log entry next ih => exact ⟨hle _ h.1, ih h.2⟩

/-- **In a run of the plan**, each event is allowed. -/
theorem Uses.events_run (h : plan.Uses allowed) (deriver : Deriver) (source : Source)
    (asked : List Address) : ∀ event ∈ (plan.run deriver source asked).events, allowed event := by
  induction plan generalizing asked with
  | done value => exact nofun
  | request addresses next ih =>
    intro event hevent
    rcases List.mem_append.1 hevent with hevent | hevent
    · obtain ⟨a, ha, rfl⟩ := List.mem_map.1 hevent
      exact h.1 a ha
    · exact ih _ (h.2 _) _ event hevent
  | derivation program seeds next ih =>
    intro event hevent
    rcases List.mem_cons.1 hevent with rfl | hevent
    · exact h.1
    · exact ih _ (h.2 _) asked event hevent
  | log entry next ih =>
    intro event hevent
    rcases List.mem_cons.1 hevent with rfl | hevent
    · exact h.1
    · exact ih h.2 asked event hevent

end Plan

/-! ## Reading -/

/-- The events of reading: an account is asked for, or it is logged that some are fetched ahead. -/
def Event.IsRead : Event → Prop
  | .requested _ | .logged (.prefetching _) => True
  | .logged _ | .derived .. => False

namespace Resolution

variable {α β : Type} {resolution : Resolution α}

/-- Whatever the resolution is answered, it does nothing but read, and no derivation of its is
refused. -/
structure OnlyReads (resolution : Resolution α) : Prop where
  uses : resolution.run.Uses Event.IsRead
  fails : resolution.run.Ensures fun result =>
    ∀ cause, result = .error cause → cause.kind ≠ .underivable

theorem onlyReads_pure (value : α) : OnlyReads (pure value) where
  uses := trivial
  fails := nofun

theorem onlyReads_throw {cause : Failure} (h : cause.kind ≠ .underivable) :
    OnlyReads (throw cause : Resolution α) where
  uses := trivial
  fails := by
    intro cause' hcause
    cases hcause
    exact h

theorem onlyReads_ofExcept {result : Except Failure α}
    (h : ∀ cause, result = .error cause → cause.kind ≠ .underivable) :
    OnlyReads (ofExcept result) := by
  cases result with
  | ok value => exact onlyReads_pure value
  | error cause => exact onlyReads_throw (h cause rfl)

theorem onlyReads_lift {plan : Plan α} (h : plan.Uses Event.IsRead) :
    OnlyReads (liftM plan : Resolution α) := by
  constructor
  · rw [ExceptT.run_liftM, map_eq_pure_bind]
    exact h.bind fun _ => trivial
  · rw [ExceptT.run_liftM, map_eq_pure_bind]
    exact (plan.ensures_true).bind fun value _ => nofun

theorem OnlyReads.bind {f : α → Resolution β} (h : resolution.OnlyReads)
    (hf : ∀ value, (f value).OnlyReads) : OnlyReads (resolution >>= f) := by
  constructor
  · exact h.uses.run_bind fun value => (hf value).uses
  · rw [ExceptT.run_bind, Plan.bind_eq]
    refine h.fails.bind fun result hresult => ?_
    cases result with
    | ok value => exact (hf value).fails
    | error cause => exact (onlyReads_throw (hresult cause rfl) : OnlyReads (throw cause)).fails

section
variable (deriver : Deriver) (source : Source) (asked : List Address)

/-- A run that only reads derives nothing. -/
theorem OnlyReads.derivations_run (h : resolution.OnlyReads) :
    (resolution.run.run deriver source asked).derivations = [] := by
  apply List.filterMap_eq_nil_iff.2
  intro event hevent
  have hread := h.uses.events_run deriver source asked event hevent
  cases event with
  | requested address => rfl
  | logged entry => rfl
  | derived program seeds => exact hread.elim

/-- A run that only reads is not refused a derivation. -/
theorem OnlyReads.value_run_ne (h : resolution.OnlyReads) (program : Address)
    (cause : DerivationError) :
    (resolution.run.run deriver source asked).value ≠ .error (.underivable program cause) := by
  intro hvalue
  exact h.fails.value_run deriver source asked _ hvalue rfl

end

end Resolution

/-! ## Seeds and pointers -/

open Resolution

theorem uses_fetch (address : Address) : (Plan.fetch address).Uses Event.IsRead :=
  ⟨fun _ _ => trivial, fun _ => trivial⟩

theorem kind_of_seedAddress {scope : Scope} {cursor : Nat} {index : UInt8} :
    ∀ cause, seedAddress scope cursor index = .error cause → cause.kind ≠ .underivable := by
  intro cause h
  obtain ⟨-, rfl⟩ := seedAddress_eq_error_iff.1 h
  exact nofun

theorem kind_of_seedWindow {data : Bytes} {cursor : Nat} {offset len : UInt8}
    {problem : Nat → Nat → Nat → SeedProblem} :
    ∀ cause, seedWindow data cursor offset len problem = .error cause →
      cause.kind ≠ .underivable := by
  intro cause h
  obtain ⟨-, rfl⟩ := seedWindow_eq_error_iff.1 h
  exact nofun

theorem kind_of_addressAt {data : Bytes} {offset : UInt8} :
    ∀ cause, addressAt data offset = .error cause → cause.kind ≠ .underivable := by
  intro cause h
  obtain ⟨-, rfl⟩ := addressAt_eq_error_iff.1 h
  exact nofun

theorem onlyReads_evaluateSeed (scope : Scope) (held : Held) (seed : PlacedSeed) :
    OnlyReads (evaluateSeed scope held seed) := by
  unfold evaluateSeed
  split
  · exact onlyReads_pure _
  · exact onlyReads_ofExcept kind_of_seedWindow
  · exact (onlyReads_ofExcept kind_of_seedAddress).bind fun address => onlyReads_pure _
  · refine (onlyReads_ofExcept kind_of_seedAddress).bind fun address => ?_
    refine (onlyReads_lift ?_).bind fun found => ?_
    · unfold heldOrFetch
      split
      · exact trivial
      · exact uses_fetch address
    · cases found with
      | none => exact onlyReads_throw nofun
      | some account => exact onlyReads_ofExcept kind_of_seedWindow

theorem onlyReads_mapM (scope : Scope) (held : Held) (seeds : List PlacedSeed) :
    OnlyReads (seeds.mapM (evaluateSeed scope held)) := by
  induction seeds with
  | nil => exact onlyReads_pure _
  | cons seed later ih =>
    rw [List.mapM_cons]
    exact (onlyReads_evaluateSeed scope held seed).bind fun bytes =>
      ih.bind fun seeds => onlyReads_pure _

theorem onlyReads_evaluateReading (scope : Scope) (held : Held) (reading : SeedReading) :
    OnlyReads (evaluateReading scope held reading) := by
  refine (onlyReads_mapM scope held _).bind fun seeds => ?_
  split
  · exact onlyReads_pure seeds
  · rename_i fault _
    cases fault <;> exact onlyReads_throw nofun

theorem uses_prefetchSeeds (scope : Scope) (seeds : List PlacedSeed) :
    (prefetchSeeds scope seeds).Uses Event.IsRead := by
  unfold prefetchSeeds
  dsimp only
  split
  · exact trivial
  · exact ⟨trivial, fun _ _ => trivial, fun _ => trivial⟩

/-- **Evaluating a seed spec** only reads. -/
theorem onlyReads_evaluateSpec (prefetch : Bool) (scope : Scope) (spec : Bytes) :
    OnlyReads (evaluateSpec prefetch scope spec) := by
  cases prefetch with
  | false => exact onlyReads_evaluateReading scope [] _
  | true =>
    exact (onlyReads_lift (uses_prefetchSeeds scope _)).bind fun held =>
      onlyReads_evaluateReading scope held _

/-- **Following a pointer** only reads. -/
theorem onlyReads_followPointer (scope : Scope) (spec : Bytes) :
    OnlyReads (followPointer scope spec) := by
  unfold followPointer
  split
  · exact onlyReads_throw nofun
  · exact onlyReads_ofExcept kind_of_addressAt
  · split
    · exact onlyReads_throw nofun
    · refine (onlyReads_lift (uses_fetch _)).bind fun found => ?_
      cases found with
      | none => exact onlyReads_throw nofun
      | some account => exact onlyReads_ofExcept kind_of_addressAt

end ExtraAccounts
