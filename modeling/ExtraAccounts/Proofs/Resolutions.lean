import ExtraAccounts.Proofs.Memo
import ExtraAccounts.Resolution.Call

/-!
# Resolutions step by step

`Resolution.outcome` is what a resolution comes to against a store that does not change. It is
computed along the text of the resolution: a sequence has the events of its first part, then, iff
that gives a value, those of the second (`outcome_bind`).

`distinctBatches_plan`: whatever a configuration holds, no batch names an address twice.
-/

namespace ExtraAccounts

/-! ## Results -/

section
variable {α β ε : Type} {result : Except ε α}

theorem exceptBind_eq_ok {f : α → Except ε β} {value : β} :
    result.bind f = .ok value ↔ ∃ first, result = .ok first ∧ f first = .ok value := by
  cases result <;> simp [Except.bind]

theorem exceptBind_eq_error {f : α → Except ε β} {cause : ε} :
    result.bind f = .error cause ↔
      result = .error cause ∨ ∃ first, result = .ok first ∧ f first = .error cause := by
  cases result <;> simp [Except.bind]

theorem exceptMap_eq_ok {f : α → β} {value : β} :
    result.map f = .ok value ↔ ∃ first, result = .ok first ∧ f first = value := by
  cases result <;> simp [Except.map]

theorem exceptMap_eq_error {f : α → β} {cause : ε} :
    result.map f = .error cause ↔ result = .error cause := by
  cases result <;> simp [Except.map]

theorem mapM_cons_eq_ok {f : α → Except ε β} {x : α} {xs : List α} {ys : List β} :
    (x :: xs).mapM f = .ok ys ↔
      ∃ y later, f x = .ok y ∧ xs.mapM f = .ok later ∧ ys = y :: later := by
  rw [List.mapM_cons]
  constructor
  · intro h
    obtain ⟨y, hy, h⟩ := exceptBind_eq_ok.1 h
    obtain ⟨later, hlater, h⟩ := exceptBind_eq_ok.1 h
    cases h
    exact ⟨y, later, hy, hlater, rfl⟩
  · rintro ⟨y, later, hy, hlater, rfl⟩
    exact exceptBind_eq_ok.2 ⟨y, hy, exceptBind_eq_ok.2 ⟨later, hlater, rfl⟩⟩

theorem length_of_mapM_eq_ok {f : α → Except ε β} {xs : List α} {ys : List β}
    (h : xs.mapM f = .ok ys) : ys.length = xs.length := by
  induction xs generalizing ys with
  | nil =>
    cases h
    rfl
  | cons x xs ih =>
    obtain ⟨y, later, -, hlater, rfl⟩ := mapM_cons_eq_ok.1 h
    rw [List.length_cons, List.length_cons, ih hlater]

theorem mapM_eq_ok_iff {f : α → Except ε β} {xs : List α} {ys : List β} :
    xs.mapM f = .ok ys ↔ List.Forall₂ (fun x y => f x = .ok y) xs ys := by
  induction xs generalizing ys with
  | nil =>
    rw [List.forall₂_nil_left_iff, List.mapM_nil]
    exact ⟨fun h => (Except.ok.inj h).symm, fun h => by rw [h]; rfl⟩
  | cons x later ih =>
    rw [mapM_cons_eq_ok, List.forall₂_cons_left_iff]
    constructor
    · rintro ⟨y, rest, hy, hrest, rfl⟩
      exact ⟨y, rest, hy, ih.1 hrest, rfl⟩
    · rintro ⟨y, rest, hy, hrest, rfl⟩
      exact ⟨y, rest, hy, ih.2 hrest, rfl⟩

/-- A list fails as its first element that fails does. -/
theorem mapM_eq_error_iff {f : α → Except ε β} {xs : List α} {cause : ε} :
    xs.mapM f = .error cause ↔
      ∃ before x later, xs = before ++ x :: later ∧ f x = .error cause ∧
        ∀ earlier ∈ before, ∃ y, f earlier = .ok y := by
  constructor
  · intro h
    induction xs with
    | nil => cases h
    | cons x later ih =>
      rw [List.mapM_cons] at h
      rcases exceptBind_eq_error.1 h with h | ⟨y, hy, h⟩
      · exact ⟨[], x, later, rfl, h, nofun⟩
      · rcases exceptBind_eq_error.1 h with h | ⟨ys, -, h⟩
        · obtain ⟨before, failing, rest, rfl, hfails, hbefore⟩ := ih h
          exact ⟨x :: before, failing, rest, rfl, hfails,
            List.forall_mem_cons.2 ⟨⟨y, hy⟩, hbefore⟩⟩
        · cases h
  · rintro ⟨before, x, later, rfl, hfails, hbefore⟩
    induction before with
    | nil =>
      rw [List.nil_append, List.mapM_cons]
      exact exceptBind_eq_error.2 (.inl hfails)
    | cons earlier before ih =>
      obtain ⟨⟨y, hy⟩, hbefore⟩ := List.forall_mem_cons.1 hbefore
      rw [List.cons_append, List.mapM_cons]
      exact exceptBind_eq_error.2
        (.inr ⟨y, hy, exceptBind_eq_error.2 (.inl (ih hbefore))⟩)

/-- A list fails as one of its elements does. -/
theorem exists_of_mapM_eq_error {f : α → Except ε β} {xs : List α} {cause : ε}
    (h : xs.mapM f = .error cause) : ∃ x ∈ xs, f x = .error cause := by
  obtain ⟨before, x, later, rfl, hfails, -⟩ := mapM_eq_error_iff.1 h
  exact ⟨x, List.mem_append_right before List.mem_cons_self, hfails⟩

end

/-! ## Reads -/

section
variable {scope : Scope} {data : Bytes} {cursor : Nat} {index offset len : UInt8}
  {problem : Nat → Nat → Nat → SeedProblem} {cause : Failure}

theorem seedAddress_eq_error_iff :
    seedAddress scope cursor index = .error cause ↔ scope.address? index = none ∧
      cause = .badSeed cursor (.noSuchAccount index.toNat scope.accounts.length) := by
  unfold seedAddress
  cases scope.address? index <;> simp [eq_comm]

theorem seedWindow_eq_ok_iff {window : Bytes} :
    seedWindow data cursor offset len problem = .ok window ↔
      data.slice? offset.toNat len.toNat = some window := by
  unfold seedWindow
  cases data.slice? offset.toNat len.toNat <;> simp

theorem seedWindow_eq_error_iff :
    seedWindow data cursor offset len problem = .error cause ↔
      data.length < offset.toNat + len.toNat ∧
      cause = .badSeed cursor (problem offset.toNat (offset.toNat + len.toNat) data.length) := by
  rw [← Bytes.slice?_eq_none_iff, seedWindow]
  cases data.slice? offset.toNat len.toNat <;> simp [eq_comm]

theorem addressAt_eq_ok_iff {address : Address} :
    addressAt data offset = .ok address ↔ data.block? 32 offset.toNat = some address := by
  unfold addressAt
  cases data.block? 32 offset.toNat <;> simp

theorem addressAt_eq_error_iff :
    addressAt data offset = .error cause ↔ data.length < offset.toNat + 32 ∧
      cause = .pointerOutOfBounds offset.toNat data.length := by
  rw [← Bytes.block?_eq_none_iff, addressAt]
  cases data.block? 32 offset.toNat <;> simp [eq_comm]

end

namespace Resolution

variable {α β : Type} (deriver : Deriver) (accounts : Address → Option Account)

/-- What a resolution comes to against a store that does not change. -/
def outcome (resolution : Resolution α) : Outcome (Except Failure α) :=
  Plan.run deriver (.fixed accounts) [] resolution.run

/-! ## Outcomes -/

@[simp] theorem outcome_pure (value : α) :
    outcome deriver accounts (pure value) = { value := .ok value, events := [] } := rfl

@[simp] theorem outcome_throw (cause : Failure) :
    outcome deriver accounts (throw cause : Resolution α) =
      { value := .error cause, events := [] } := rfl

@[simp] theorem outcome_ofExcept (result : Except Failure α) :
    outcome deriver accounts (ofExcept result) = { value := result, events := [] } := by
  cases result <;> rfl

theorem outcome_lift (plan : Plan α) :
    outcome deriver accounts (liftM plan) =
      { value := .ok (plan.run deriver (.fixed accounts) []).value
        events := (plan.run deriver (.fixed accounts) []).events } := by
  rw [outcome, ExceptT.run_liftM, Plan.run_map]

/-- The outcome of a sequence, from that of its first part. -/
def andThen (first : Outcome (Except Failure α)) (f : α → Outcome (Except Failure β)) :
    Outcome (Except Failure β) :=
  match first.value with
  | .ok value => (f value).after first.events
  | .error cause => { value := .error cause, events := first.events }

theorem outcome_bind (resolution : Resolution α) (f : α → Resolution β) :
    outcome deriver accounts (resolution >>= f) =
      andThen (outcome deriver accounts resolution) fun value => outcome deriver accounts (f value) := by
  simp only [outcome, ExceptT.run_bind, Plan.bind_eq, Plan.run_fixed_bind, andThen]
  split <;> rename_i h <;> simp [h, Plan.run, Outcome.after]

@[simp] theorem value_andThen (first : Outcome (Except Failure α))
    (f : α → Outcome (Except Failure β)) :
    (andThen first f).value = first.value.bind fun value => (f value).value := by
  unfold andThen
  split <;> rename_i h <;> simp [h, Except.bind]

theorem outcome_map (resolution : Resolution α) (f : α → β) :
    outcome deriver accounts (f <$> resolution) =
      { value := (outcome deriver accounts resolution).value.map f
        events := (outcome deriver accounts resolution).events } := by
  rw [map_eq_pure_bind, outcome_bind, andThen]
  split <;> rename_i h <;> simp [h, Outcome.after, Except.map]

@[simp] theorem outcome_note (entry : LogEntry) :
    outcome deriver accounts (liftM (Plan.note entry)) =
      { value := .ok (), events := [.logged entry] } := rfl

@[simp] theorem outcome_fetch (address : Address) :
    outcome deriver accounts (liftM (Plan.fetch address)) =
      { value := .ok (accounts address), events := [.requested address] } := by
  rw [outcome_lift]
  simp [Plan.fetch, Plan.run, Outcome.after]

@[simp] theorem outcome_derive (program : Address) (seeds : List Bytes) :
    outcome deriver accounts (liftM (Plan.derive program seeds)) =
      { value := .ok (deriver program seeds), events := [.derived program seeds] } := rfl

/-- A failure that is logged on the way out. -/
theorem outcome_tryCatch_note (resolution : Resolution α) (entry : Failure → LogEntry) :
    outcome deriver accounts (tryCatch resolution fun cause => do
        Plan.note (entry cause)
        throw cause) =
      match (outcome deriver accounts resolution).value with
      | .ok _ => outcome deriver accounts resolution
      | .error cause =>
        { value := .error cause
          events := (outcome deriver accounts resolution).events ++ [.logged (entry cause)] } := by
  simp only [outcome, ExceptT.run_tryCatch, Plan.bind_eq, Plan.run_fixed_bind]
  generalize Plan.run deriver (.fixed accounts) [] resolution.run = first
  obtain ⟨value, events⟩ := first
  cases value with
  | ok value => simp [Plan.run, Outcome.after]
  | error cause => rfl

end Resolution

/-! ## Pointers -/

/-- The account whose data a pointer spec points into, unless its index is out of range. -/
def pointerAccount? (scope : Scope) (spec : Bytes) : Option Address :=
  match Pointer.read spec with
  | .ok (.data index _) => scope.address? index
  | _ => none

/-- The address that a pointer spec points at, given all accounts. -/
def pointerValue (accounts : Address → Option Account) (scope : Scope) (spec : Bytes) :
    Except Failure Address :=
  match Pointer.read spec with
  | .error cause => .error (.badPointer cause)
  | .ok (.argument offset) => addressAt scope.data offset
  | .ok (.data index offset) =>
    match scope.address? index with
    | none => .error (.noSuchAccount index.toNat scope.accounts.length)
    | some address =>
      match accounts address with
      | none => .error (.noPointerAccount address)
      | some account => addressAt account.data offset

theorem Resolution.outcome_followPointer (deriver : Deriver) (accounts : Address → Option Account)
    (scope : Scope) (spec : Bytes) :
    outcome deriver accounts (followPointer scope spec) =
      { value := pointerValue accounts scope spec
        events := (pointerAccount? scope spec).toList.map .requested } := by
  unfold followPointer pointerValue pointerAccount?
  cases Pointer.read spec with
  | error cause => rfl
  | ok pointer =>
    cases pointer with
    | argument offset => exact outcome_ofExcept deriver accounts _
    | data index offset =>
      dsimp only
      cases scope.address? index with
      | none => rfl
      | some address =>
        dsimp only
        rw [outcome_bind, outcome_fetch]
        cases accounts address with
        | none => rfl
        | some account =>
          dsimp only [andThen]
          rw [outcome_ofExcept]
          rfl

/-! ## Batches -/

namespace Plan

variable {α β : Type}

theorem distinctBatches_run_bind {resolution : Resolution α} {f : α → Resolution β}
    (h : resolution.run.DistinctBatches) (hf : ∀ value, (f value).run.DistinctBatches) :
    (resolution >>= f).run.DistinctBatches := by
  rw [ExceptT.run_bind, bind_eq]
  refine h.bind fun value => ?_
  cases value with
  | ok value => exact hf value
  | error cause => exact trivial

theorem distinctBatches_run_lift {plan : Plan α} (h : plan.DistinctBatches) :
    (liftM plan : Resolution α).run.DistinctBatches := by
  rw [ExceptT.run_liftM, map_eq_pure_bind]
  exact h.bind fun _ => trivial

theorem distinctBatches_run_ofExcept (result : Except Failure α) :
    (ofExcept result : Resolution α).run.DistinctBatches := by
  cases result <;> exact trivial

theorem distinctBatches_fetch (address : Address) : (fetch address).DistinctBatches :=
  ⟨List.nodup_singleton address, fun _ => trivial⟩

theorem distinctBatches_note (entry : LogEntry) : (note entry).DistinctBatches := trivial

end Plan

open Plan

theorem distinctBatches_evaluateSeed (scope : Scope) (held : Held) (seed : PlacedSeed) :
    (evaluateSeed scope held seed).run.DistinctBatches := by
  unfold evaluateSeed
  split
  · exact trivial
  · exact distinctBatches_run_ofExcept _
  · exact distinctBatches_run_bind (distinctBatches_run_ofExcept _) fun _ => trivial
  · refine distinctBatches_run_bind (distinctBatches_run_ofExcept _) fun address =>
      distinctBatches_run_bind (distinctBatches_run_lift ?_) fun found => ?_
    · unfold heldOrFetch
      split
      · exact trivial
      · exact distinctBatches_fetch address
    · cases found with
      | none => exact trivial
      | some account => exact distinctBatches_run_ofExcept _

theorem distinctBatches_mapM (scope : Scope) (held : Held) (seeds : List PlacedSeed) :
    (seeds.mapM (evaluateSeed scope held)).run.DistinctBatches := by
  induction seeds with
  | nil => exact trivial
  | cons seed later ih =>
    rw [List.mapM_cons]
    exact distinctBatches_run_bind (distinctBatches_evaluateSeed scope held seed) fun _ =>
      distinctBatches_run_bind ih fun _ => trivial

theorem nodup_dataAccounts (scope : Scope) (seeds : List PlacedSeed) :
    (dataAccounts scope seeds).Nodup := nodup_eraseDups _

theorem distinctBatches_prefetchSeeds (scope : Scope) (seeds : List PlacedSeed) :
    (prefetchSeeds scope seeds).DistinctBatches := by
  unfold prefetchSeeds
  dsimp only
  split
  · exact trivial
  · exact ⟨nodup_dataAccounts scope seeds, fun _ => trivial⟩

theorem distinctBatches_evaluateReading (scope : Scope) (held : Held) (reading : SeedReading) :
    (evaluateReading scope held reading).run.DistinctBatches := by
  refine distinctBatches_run_bind (distinctBatches_mapM scope held _) fun seeds => ?_
  split <;> exact trivial

theorem distinctBatches_evaluateSpec (prefetch : Bool) (scope : Scope) (spec : Bytes) :
    (evaluateSpec prefetch scope spec).run.DistinctBatches := by
  cases prefetch with
  | false => exact distinctBatches_evaluateReading scope [] _
  | true =>
    exact distinctBatches_run_bind
      (distinctBatches_run_lift (distinctBatches_prefetchSeeds scope _)) fun held =>
        distinctBatches_evaluateReading scope held _

theorem distinctBatches_followPointer (scope : Scope) (spec : Bytes) :
    (followPointer scope spec).run.DistinctBatches := by
  unfold followPointer
  split
  · exact trivial
  · exact distinctBatches_run_ofExcept _
  · split
    · exact trivial
    · refine distinctBatches_run_bind (distinctBatches_run_lift (distinctBatches_fetch _))
        fun found => ?_
      cases found with
      | none => exact trivial
      | some account => exact distinctBatches_run_ofExcept _

theorem distinctBatches_deriveUnder (ctx : RecordContext) (known : List AccountMeta)
    (program : Address) (spec : AddressConfig) :
    (deriveUnder ctx known program spec).run.DistinctBatches := by
  unfold deriveUnder
  refine distinctBatches_run_bind (distinctBatches_evaluateSpec _ _ _) fun seeds =>
    distinctBatches_run_bind (distinctBatches_run_lift fun _ => trivial) fun derived => ?_
  cases derived <;> exact trivial

theorem distinctBatches_evaluateRecord (ctx : RecordContext) (known : List AccountMeta)
    (index : Nat) (record : Record) :
    (evaluateRecord ctx known index record).run.DistinctBatches := by
  unfold evaluateRecord
  split
  · exact trivial
  · refine distinctBatches_run_bind ?_ fun address => trivial
    unfold evaluateStrategy
    split
    · exact trivial
    · exact distinctBatches_deriveUnder ctx known _ _
    · exact distinctBatches_followPointer _ _
    · split
      · exact trivial
      · exact distinctBatches_deriveUnder ctx known _ _

theorem distinctBatches_evaluateRecords (ctx : RecordContext) (index : Nat) (records : List Record)
    (known : List AccountMeta) : (evaluateRecords ctx index records known).run.DistinctBatches := by
  induction records generalizing index known with
  | nil => exact trivial
  | cons record later ih =>
    unfold evaluateRecords
    refine distinctBatches_run_bind ?_ fun account => ih (index + 1) (known ++ [account])
    rw [ExceptT.run_tryCatch, bind_eq]
    refine (distinctBatches_evaluateRecord ctx known index record).bind fun result => ?_
    cases result <;> exact trivial

/-- **No batch of a resolution names an address twice.** -/
theorem distinctBatches_plan (call : Call) (prefetch : Bool) :
    (call.plan prefetch).run.DistinctBatches := by
  unfold Call.plan
  refine distinctBatches_run_bind (distinctBatches_run_lift (distinctBatches_note _)) fun _ =>
    distinctBatches_run_bind (distinctBatches_run_lift (distinctBatches_fetch _)) fun found => ?_
  cases found with
  | none => exact trivial
  | some account =>
    dsimp only
    split
    · exact trivial
    · exact distinctBatches_run_bind (distinctBatches_run_lift (distinctBatches_note _)) fun _ =>
        distinctBatches_run_bind (distinctBatches_evaluateRecords _ 0 _ _) fun _ => trivial

end ExtraAccounts
