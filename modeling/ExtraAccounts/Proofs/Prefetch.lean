import ExtraAccounts.Proofs.Resolutions

/-!
# What prefetching changes

Accounts that are held ahead change neither the seeds nor the failure of a spec, as long as they
are those of the store (`Held.Agrees`); they only stand in for requests
(`outcome_evaluateReading`). So a resolution that prefetches is the plain one but for the order and
the number of its requests (`Outcome.Ahead`, `ahead_plan`):

* the value and the derivations are the same;
* without repeats, the requests of the plain resolution are the first ones of the other;
* unless the seeds of a record fail, there are no others.
-/

namespace ExtraAccounts

/-- Whether a seed could not be read or evaluated. -/
def Failure.isSeedFailure : Failure → Bool
  | .badSeed .. | .noSeedAccount _ => true
  | _ => false

/-! ## Outcomes side by side -/

/-- `ahead` comes of a resolution that fetches seed accounts ahead, `plain` of the same one that
does not. -/
structure Outcome.Ahead {α : Type} (ahead plain : Outcome (Except Failure α)) : Prop where
  value : ahead.value = plain.value
  derivations : ahead.derivations = plain.derivations
  first : plain.requests.eraseDups <+: ahead.requests.eraseDups
  same : (∀ cause, plain.value = .error cause → cause.isSeedFailure = false) →
    plain.requests.eraseDups = ahead.requests.eraseDups

namespace Outcome.Ahead

variable {α β : Type}

theorem refl (outcome : Outcome (Except Failure α)) : outcome.Ahead outcome :=
  ⟨rfl, rfl, List.prefix_rfl, fun _ => rfl⟩

/-- A sequence, when its parts are side by side. -/
theorem andThen {first first' : Outcome (Except Failure α)}
    {f f' : α → Outcome (Except Failure β)} (h : first.Ahead first')
    (hf : ∀ value, (f value).Ahead (f' value)) :
    (Resolution.andThen first f).Ahead (Resolution.andThen first' f') := by
  unfold Resolution.andThen
  rw [h.value]
  cases hv : first'.value with
  | error cause =>
    refine ⟨rfl, h.derivations, h.first, fun hc => h.same fun cause' hc' => hc cause' ?_⟩
    rw [hv] at hc'
    cases hc'
    rfl
  | ok value =>
    -- a first part that gives a value has no failure, so its requests are the same
    have hsame := h.same fun cause hc => by rw [hv] at hc; cases hc
    refine ⟨(hf value).value, ?_, ?_, fun hc => ?_⟩
    · rw [derivations_after_events, derivations_after_events, h.derivations, (hf value).derivations]
    · rw [requests_after_events, requests_after_events]
      exact isPrefix_eraseDups_append hsame (hf value).first
    · rw [requests_after_events, requests_after_events]
      exact eraseDups_append_congr hsame ((hf value).same hc)

theorem bind {deriver : Deriver} {accounts : Address → Option Account}
    {first first' : Resolution α} {f f' : α → Resolution β}
    (h : (Resolution.outcome deriver accounts first).Ahead
      (Resolution.outcome deriver accounts first'))
    (hf : ∀ value, (Resolution.outcome deriver accounts (f value)).Ahead
      (Resolution.outcome deriver accounts (f' value))) :
    (Resolution.outcome deriver accounts (first >>= f)).Ahead
      (Resolution.outcome deriver accounts (first' >>= f')) := by
  rw [Resolution.outcome_bind, Resolution.outcome_bind]
  exact h.andThen hf

/-- A failure logged on the way out, when the resolutions are side by side. -/
theorem tryCatch_note {deriver : Deriver} {accounts : Address → Option Account}
    {resolution resolution' : Resolution α} (entry : Failure → LogEntry)
    (h : (Resolution.outcome deriver accounts resolution).Ahead
      (Resolution.outcome deriver accounts resolution')) :
    (Resolution.outcome deriver accounts (tryCatch resolution fun cause => do
        Plan.note (entry cause)
        throw cause)).Ahead
      (Resolution.outcome deriver accounts (tryCatch resolution' fun cause => do
        Plan.note (entry cause)
        throw cause)) := by
  rw [Resolution.outcome_tryCatch_note, Resolution.outcome_tryCatch_note, h.value]
  cases hv : (Resolution.outcome deriver accounts resolution').value with
  | ok value => exact h
  | error cause =>
    obtain ⟨-, hd, hfirst, hsame⟩ := h
    rw [hv] at hsame
    refine ⟨rfl, ?_, ?_, ?_⟩
    · simpa [Outcome.derivations] using hd
    · simpa [Outcome.requests] using hfirst
    · simpa [Outcome.requests] using hsame

end Outcome.Ahead

/-! ## Accounts held ahead -/

/-- Every account held is that of the store. -/
def Held.Agrees (held : Held) (accounts : Address → Option Account) : Prop :=
  ∀ address answer, held.lookup address = some answer → answer = accounts address

theorem lookup_zip_map (accounts : Address → Option Account) (addresses : List Address)
    (a : Address) :
    (addresses.zip (addresses.map accounts)).lookup a =
      if a ∈ addresses then some (accounts a) else none := by
  induction addresses with
  | nil => rfl
  | cons address later ih =>
    rw [List.map_cons, List.zip_cons_cons, List.lookup_cons]
    by_cases h : a = address
    · subst h; simp
    · rw [beq_false_of_ne h]
      simp [h, ih]

theorem Held.agrees_zip (accounts : Address → Option Account) (addresses : List Address) :
    Held.Agrees (addresses.zip (addresses.map accounts)) accounts := by
  intro a answer h
  rw [lookup_zip_map] at h
  split at h
  · exact (Option.some.inj h).symm
  · cases h

theorem Held.agrees_nil (accounts : Address → Option Account) : Held.Agrees [] accounts :=
  fun _ _ h => by cases h

section
variable (deriver : Deriver) (accounts : Address → Option Account)

open Resolution (outcome outcome_bind andThen)

theorem outcome_heldOrFetch {held : Held} (h : held.Agrees accounts) (address : Address) :
    outcome deriver accounts (liftM (heldOrFetch held address)) =
      { value := .ok (accounts address)
        events := if (held.lookup address).isSome then [] else [.requested address] } := by
  unfold heldOrFetch
  cases hl : held.lookup address with
  | none => exact Resolution.outcome_fetch deriver accounts address
  | some answer => rw [h address answer hl]; rfl

/-! ## One seed -/

/-- The seed that a source stands for, given all accounts. -/
def seedValue (scope : Scope) (seed : PlacedSeed) : Except Failure Bytes :=
  match seed.source with
  | .literal bytes => .ok bytes
  | .argument offset len => seedWindow scope.data seed.cursor offset len .argumentOutOfBounds
  | .key index => (seedAddress scope seed.cursor index).map Block.toBytes
  | .data index offset len =>
    (seedAddress scope seed.cursor index).bind fun address =>
      match accounts address with
      | none => .error (.noSeedAccount address)
      | some account => seedWindow account.data seed.cursor offset len .dataOutOfBounds

/-- **One seed**: a source asks for the account it refers to, unless that is held. -/
theorem outcome_evaluateSeed (scope : Scope) {held : Held} (h : held.Agrees accounts)
    (seed : PlacedSeed) :
    outcome deriver accounts (evaluateSeed scope held seed) =
      { value := seedValue accounts scope seed
        events := ((seed.dataAccount? scope).toList.filter fun a =>
          (held.lookup a).isNone).map .requested } := by
  unfold evaluateSeed seedValue PlacedSeed.dataAccount?
  cases seed.source with
  | literal bytes => rfl
  | argument offset len => exact Resolution.outcome_ofExcept deriver accounts _
  | key index =>
    dsimp only
    rw [outcome_bind, Resolution.outcome_ofExcept]
    cases seedAddress scope seed.cursor index <;> rfl
  | data index offset len =>
    dsimp only
    rw [outcome_bind, Resolution.outcome_ofExcept]
    unfold seedAddress
    cases scope.address? index with
    | none => rfl
    | some address =>
      simp only [outcome_bind, outcome_heldOrFetch deriver accounts h, andThen, Except.bind]
      cases hl : held.lookup address <;> cases ha : accounts address <;>
        simp [hl, Outcome.after]

/-! ## A spec -/

/-- The sources that are evaluated: up to the first that fails, and that one. -/
def reachedSeeds (scope : Scope) : List PlacedSeed → List PlacedSeed
  | [] => []
  | seed :: later =>
    match seedValue accounts scope seed with
    | .ok _ => seed :: reachedSeeds scope later
    | .error _ => [seed]

theorem isPrefix_reachedSeeds (scope : Scope) (seeds : List PlacedSeed) :
    reachedSeeds accounts scope seeds <+: seeds := by
  induction seeds with
  | nil => exact List.prefix_rfl
  | cons seed later ih =>
    unfold reachedSeeds
    split
    · exact (List.prefix_cons_inj seed).2 ih
    · exact (List.prefix_cons_inj seed).2 List.nil_prefix

theorem reachedSeeds_of_ok {scope : Scope} {seeds : List PlacedSeed} {values : List Bytes}
    (h : seeds.mapM (seedValue accounts scope) = .ok values) :
    reachedSeeds accounts scope seeds = seeds := by
  induction seeds generalizing values with
  | nil => rfl
  | cons seed later ih =>
    obtain ⟨bytes, seeds, hseed, hlater, -⟩ := mapM_cons_eq_ok.1 h
    rw [reachedSeeds, hseed]
    exact congrArg (seed :: ·) (ih hlater)

/-- The accounts whose data the evaluated sources refer to, in order and as often as they do. -/
def reachedAccounts (scope : Scope) (seeds : List PlacedSeed) : List Address :=
  (reachedSeeds accounts scope seeds).filterMap (PlacedSeed.dataAccount? scope)

theorem reachedAccounts_cons (scope : Scope) (seed : PlacedSeed) (later : List PlacedSeed) :
    reachedAccounts accounts scope (seed :: later) =
      (seed.dataAccount? scope).toList ++
        match seedValue accounts scope seed with
        | .ok _ => reachedAccounts accounts scope later
        | .error _ => [] := by
  unfold reachedAccounts
  rw [reachedSeeds]
  cases seedValue accounts scope seed <;> cases hd : seed.dataAccount? scope <;> simp [hd]

theorem outcome_mapM (scope : Scope) {held : Held} (h : held.Agrees accounts)
    (seeds : List PlacedSeed) :
    outcome deriver accounts (seeds.mapM (evaluateSeed scope held)) =
      { value := seeds.mapM (seedValue accounts scope)
        events := ((reachedAccounts accounts scope seeds).filter fun a =>
          (held.lookup a).isNone).map .requested } := by
  induction seeds with
  | nil => rfl
  | cons seed later ih =>
    rw [List.mapM_cons, outcome_bind, outcome_evaluateSeed deriver accounts scope h, List.mapM_cons,
      reachedAccounts_cons, List.filter_append, List.map_append]
    cases seedValue accounts scope seed with
    | error cause => rw [List.filter_nil, List.map_nil, List.append_nil]; rfl
    | ok bytes =>
      simp only [andThen, outcome_bind, ih]
      cases later.mapM (seedValue accounts scope) with
      | error cause => rfl
      | ok seeds => simp [Outcome.after]; rfl

/-- The seeds that a reading stands for, given all accounts. -/
def readingValue (scope : Scope) (reading : SeedReading) : Except Failure (List Bytes) :=
  (reading.sources.mapM (seedValue accounts scope)).bind fun seeds =>
    match reading.fault with
    | none => .ok seeds
    | some fault => .error (.ofSeedFault fault)

theorem outcome_evaluateReading (scope : Scope) {held : Held} (h : held.Agrees accounts)
    (reading : SeedReading) :
    outcome deriver accounts (evaluateReading scope held reading) =
      { value := readingValue accounts scope reading
        events := ((reachedAccounts accounts scope reading.sources).filter fun a =>
          (held.lookup a).isNone).map .requested } := by
  rw [evaluateReading, outcome_bind, outcome_mapM deriver accounts scope h, readingValue]
  cases reading.sources.mapM (seedValue accounts scope) with
  | error cause => rfl
  | ok seeds =>
    cases reading.fault <;> simp [andThen, Outcome.after, Except.bind]

theorem mem_dataAccounts_of_reached {scope : Scope} {seeds : List PlacedSeed} {a : Address}
    (h : a ∈ reachedAccounts accounts scope seeds) : a ∈ dataAccounts scope seeds := by
  rw [dataAccounts, List.mem_eraseDups]
  obtain ⟨seed, hs, ha⟩ := List.mem_filterMap.1 h
  exact List.mem_filterMap.2 ⟨seed, (isPrefix_reachedSeeds accounts scope seeds).subset hs, ha⟩

theorem outcome_prefetchSeeds (scope : Scope) (seeds : List PlacedSeed) :
    outcome deriver accounts (liftM (prefetchSeeds scope seeds)) =
      if (dataAccounts scope seeds).length < 2 then { value := .ok [], events := [] }
      else
        { value := .ok ((dataAccounts scope seeds).zip ((dataAccounts scope seeds).map accounts))
          events := .logged (.prefetching (dataAccounts scope seeds)) ::
            (dataAccounts scope seeds).map .requested } := by
  rw [Resolution.outcome_lift]
  unfold prefetchSeeds
  dsimp only
  split
  · rfl
  · simp [Plan.note, Plan.fetchAll, Plan.bind, Plan.run, Outcome.after]

/-- Without prefetching, the accounts of the evaluated sources are fetched one by one. -/
theorem outcome_evaluateSpec_plain (scope : Scope) (spec : Bytes) :
    outcome deriver accounts (evaluateSpec false scope spec) =
      { value := readingValue accounts scope (.ofSpec spec)
        events := (reachedAccounts accounts scope (SeedReading.ofSpec spec).sources).map
          .requested } := by
  have h := outcome_evaluateReading deriver accounts scope (Held.agrees_nil accounts) (.ofSpec spec)
  simp only [List.lookup_nil, Option.isNone_none, List.filter_true] at h
  exact h

/-- With prefetching, all accounts are fetched before the first source, if there are two. -/
theorem outcome_evaluateSpec_ahead (scope : Scope) (spec : Bytes) :
    outcome deriver accounts (evaluateSpec true scope spec) =
      if (dataAccounts scope (SeedReading.ofSpec spec).sources).length < 2 then
        outcome deriver accounts (evaluateSpec false scope spec)
      else
        { value := readingValue accounts scope (.ofSpec spec)
          events := .logged (.prefetching (dataAccounts scope (SeedReading.ofSpec spec).sources)) ::
            (dataAccounts scope (SeedReading.ofSpec spec).sources).map .requested } := by
  have hspec : evaluateSpec true scope spec = (do
      let held ← prefetchSeeds scope (SeedReading.ofSpec spec).sources
      evaluateReading scope held (.ofSpec spec)) := rfl
  rw [hspec, outcome_bind, outcome_prefetchSeeds]
  split
  · rfl
  · -- every account that a source refers to is held, so nothing is left to ask for
    rw [andThen]
    dsimp only
    rw [outcome_evaluateReading deriver accounts scope (Held.agrees_zip accounts _),
      List.filter_eq_nil_iff.2 fun a ha => by
        simp [lookup_zip_map, mem_dataAccounts_of_reached accounts ha]]
    simp [Outcome.after]

/-! ## Failures of seeds -/

/-- How a source fails: the account it refers to is absent, or a window or an index is out of range.
Its own bytes have been read by then. -/
theorem seedValue_eq_error {scope : Scope} {seed : PlacedSeed} {cause : Failure}
    (h : seedValue accounts scope seed = .error cause) :
    (∃ address, cause = .noSeedAccount address) ∨
      ∃ problem, cause = .badSeed seed.cursor problem ∧
        ∀ tag, problem ≠ .unknownTag tag ∧ problem ≠ .missingOperands tag := by
  unfold seedValue at h
  split at h
  · cases h
  · obtain ⟨-, rfl⟩ := seedWindow_eq_error_iff.1 h
    exact .inr ⟨_, rfl, fun tag => ⟨nofun, nofun⟩⟩
  · obtain ⟨-, rfl⟩ := seedAddress_eq_error_iff.1 (exceptMap_eq_error.1 h)
    exact .inr ⟨_, rfl, fun tag => ⟨nofun, nofun⟩⟩
  · obtain h | ⟨address, -, h⟩ := exceptBind_eq_error.1 h
    · obtain ⟨-, rfl⟩ := seedAddress_eq_error_iff.1 h
      exact .inr ⟨_, rfl, fun tag => ⟨nofun, nofun⟩⟩
    · split at h
      · cases h
        exact .inl ⟨address, rfl⟩
      · obtain ⟨-, rfl⟩ := seedWindow_eq_error_iff.1 h
        exact .inr ⟨_, rfl, fun tag => ⟨nofun, nofun⟩⟩

theorem isSeedFailure_of_seedValue {scope : Scope} {seed : PlacedSeed} {cause : Failure}
    (h : seedValue accounts scope seed = .error cause) : cause.isSeedFailure = true := by
  rcases seedValue_eq_error accounts h with ⟨address, rfl⟩ | ⟨problem, rfl, -⟩
  · rfl
  · rfl

theorem isSeedFailure_of_readingValue {scope : Scope} {reading : SeedReading} {cause : Failure}
    (h : readingValue accounts scope reading = .error cause) : cause.isSeedFailure = true := by
  obtain h | ⟨seeds, -, h⟩ := exceptBind_eq_error.1 h
  · obtain ⟨seed, -, hseed⟩ := exists_of_mapM_eq_error h
    exact isSeedFailure_of_seedValue accounts hseed
  · split at h
    · cases h
    · cases h
      cases ‹SeedFault› <;> rfl

/-! ## Side by side -/

theorem requests_of_requested {α : Type} (value : α) (addresses : List Address) :
    Outcome.requests { value, events := addresses.map .requested } = addresses := by
  simp [Outcome.requests, List.filterMap_map]

theorem requests_of_prefetched {α : Type} (value : α) (addresses : List Address) :
    Outcome.requests
      { value, events := .logged (.prefetching addresses) :: addresses.map .requested } =
      addresses :=
  requests_of_requested value addresses

/-- **A spec whose accounts are fetched ahead**, next to the same spec without. -/
theorem ahead_evaluateSpec (scope : Scope) (spec : Bytes) :
    (outcome deriver accounts (evaluateSpec true scope spec)).Ahead
      (outcome deriver accounts (evaluateSpec false scope spec)) := by
  rw [outcome_evaluateSpec_ahead]
  split
  · exact .refl _
  · rw [outcome_evaluateSpec_plain]
    refine ⟨rfl, ?_, ?_, fun hc => ?_⟩
    · simp [Outcome.derivations, List.filterMap_map]
    · rw [requests_of_requested, requests_of_prefetched,
        eraseDups_of_nodup (nodup_dataAccounts scope _)]
      exact isPrefix_eraseDups ((isPrefix_reachedSeeds accounts scope _).filterMap _)
    · rw [requests_of_requested, requests_of_prefetched,
        eraseDups_of_nodup (nodup_dataAccounts scope _), dataAccounts, reachedAccounts]
      cases hs : (SeedReading.ofSpec spec).sources.mapM (seedValue accounts scope) with
      | ok seeds => rw [reachedSeeds_of_ok accounts hs]
      | error cause =>
        -- a failing spec fails by a seed, which the hypothesis excludes
        have hv : readingValue accounts scope (.ofSpec spec) = .error cause := by
          rw [readingValue, hs]; rfl
        have hseed := isSeedFailure_of_readingValue accounts hv
        rw [hc cause hv] at hseed
        cases hseed

theorem ahead_evaluateStrategy (known : List AccountMeta) (program : Address) (data : Bytes)
    (strategy : Strategy) :
    (outcome deriver accounts (evaluateStrategy ⟨true, program, data⟩ known strategy)).Ahead
      (outcome deriver accounts (evaluateStrategy ⟨false, program, data⟩ known strategy)) := by
  have hderive : ∀ owner spec,
      (outcome deriver accounts (deriveUnder ⟨true, program, data⟩ known owner spec)).Ahead
        (outcome deriver accounts (deriveUnder ⟨false, program, data⟩ known owner spec)) :=
    fun owner spec => (ahead_evaluateSpec deriver accounts _ _).bind fun seeds => .refl _
  cases strategy with
  | literal address => exact .refl _
  | seeds spec => exact hderive program spec
  | pointer spec => exact .refl _
  | namespacedSeeds index spec =>
    unfold evaluateStrategy
    dsimp only
    cases known[index.toNat]? with
    | none => exact .refl _
    | some owner => exact hderive owner.address spec

theorem ahead_evaluateRecord (known : List AccountMeta) (program : Address) (data : Bytes)
    (index : Nat) (record : Record) :
    (outcome deriver accounts (evaluateRecord ⟨true, program, data⟩ known index record)).Ahead
      (outcome deriver accounts (evaluateRecord ⟨false, program, data⟩ known index record)) := by
  unfold evaluateRecord
  cases record.strategy with
  | error invalid => exact .refl _
  | ok strategy =>
    exact (ahead_evaluateStrategy deriver accounts known program data strategy).bind
      fun address => .refl _

theorem ahead_evaluateRecords (program : Address) (data : Bytes) (index : Nat)
    (records : List Record) (known : List AccountMeta) :
    (outcome deriver accounts (evaluateRecords ⟨true, program, data⟩ index records known)).Ahead
      (outcome deriver accounts (evaluateRecords ⟨false, program, data⟩ index records known)) := by
  induction records generalizing index known with
  | nil => exact .refl _
  | cons record later ih =>
    unfold evaluateRecords
    exact ((ahead_evaluateRecord deriver accounts known program data index record).tryCatch_note
      (.recordFailed index)).bind fun account => ih (index + 1) (known ++ [account])

/-- **A whole resolution that fetches seed accounts ahead**, next to the plain one. -/
theorem ahead_plan (call : Call) :
    (outcome deriver accounts (call.plan true)).Ahead
      (outcome deriver accounts (call.plan false)) := by
  unfold Call.plan
  refine (Outcome.Ahead.refl _).bind fun _ => (Outcome.Ahead.refl _).bind fun found => ?_
  cases found with
  | none => exact .refl _
  | some account =>
    dsimp only
    cases Configuration.decode account.data with
    | error cause => exact .refl _
    | ok configuration =>
      exact (Outcome.Ahead.refl _).bind fun _ =>
        (ahead_evaluateRecords deriver accounts _ _ 0 _ _).bind fun _ => .refl _

end

end ExtraAccounts
