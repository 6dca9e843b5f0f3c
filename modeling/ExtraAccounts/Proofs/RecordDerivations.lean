import ExtraAccounts.Proofs.OnlyReads
import ExtraAccounts.Proofs.RecordByRecord

/-!
# What a record has derived

`Outcome.Derives` says of a run what it hands to the deriver, and that it fails with a refused
derivation iff some of this is refused. Reading hands over nothing (`Resolution.OnlyReads.derives`),
and a sequence what its parts do (`Resolution.derives_bind`). So a record hands over its seeds, under
its program, iff it has one and they can be read (`SeedContext.derives_record`).
-/

namespace ExtraAccounts

/-! ## What a run has derived -/

section
variable {α β : Type} {deriver : Deriver} {source : Source} {asked : List Address}

/-- The run hands exactly these seeds to the deriver, with their programs, and it ends with a
refused derivation iff some of them are refused. -/
structure Outcome.Derives (outcome : Outcome (Except Failure α)) (deriver : Deriver)
    (what : Address → List Bytes → Prop) : Prop where
  mem_iff : ∀ program seeds, (program, seeds) ∈ outcome.derivations ↔ what program seeds
  refused_iff : ∀ program cause, outcome.value = .error (.underivable program cause) ↔
    ∃ seeds, what program seeds ∧ deriver program seeds = .error cause

namespace Outcome

theorem Derives.congr {outcome : Outcome (Except Failure α)}
    {what what' : Address → List Bytes → Prop} (h : outcome.Derives deriver what)
    (hwhat : ∀ program seeds, what program seeds ↔ what' program seeds) :
    outcome.Derives deriver what' := by
  obtain rfl : what = what' := by
    funext program seeds
    exact propext (hwhat program seeds)
  exact h

theorem derives_nothing {outcome : Outcome (Except Failure α)} (h : outcome.derivations = [])
    (hvalue : ∀ program cause, outcome.value ≠ .error (.underivable program cause)) :
    outcome.Derives deriver fun _ _ => False where
  mem_iff := by
    intro program seeds
    rw [h]
    exact ⟨nofun, nofun⟩
  refused_iff := by
    intro program cause
    exact ⟨fun hrefused => absurd hrefused (hvalue program cause), nofun⟩

end Outcome

namespace Resolution

theorem OnlyReads.derives {resolution : Resolution α} (h : resolution.OnlyReads) :
    (resolution.run.run deriver source asked).Derives deriver fun _ _ => False :=
  Outcome.derives_nothing (h.derivations_run deriver source asked)
    (h.value_run_ne deriver source asked)

/-- **A sequence** hands over what its first part does, and then, if that gives a value, what the
second part does. -/
theorem derives_bind {resolution : Resolution α} {f : α → Resolution β}
    {what : Address → List Bytes → Prop} (later : α → Address → List Bytes → Prop)
    (h : (resolution.run.run deriver source asked).Derives deriver what)
    (hf : ∀ value asked, ((f value).run.run deriver source asked).Derives deriver (later value)) :
    ((resolution >>= f).run.run deriver source asked).Derives deriver fun program seeds =>
      what program seeds ∨ ∃ value, (resolution.run.run deriver source asked).value = .ok value ∧
        later value program seeds := by
  rw [ExceptT.run_bind, Plan.bind_eq, Plan.run_bind]
  generalize resolution.run.run deriver source asked = first at h ⊢
  obtain ⟨result, events⟩ := first
  cases result with
  | error cause =>
    constructor
    · intro program seeds
      rw [Outcome.derivations_after_events, List.mem_append, h.mem_iff]
      simp [Plan.run, Outcome.derivations]
    · intro program cause'
      rw [Outcome.value_after]
      simpa [Plan.run] using h.refused_iff program cause'
  | ok value =>
    have hlater := hf value
      ((Outcome.mk (Except.ok value : Except Failure α) events).requests.reverse ++ asked)
    constructor
    · intro program seeds
      rw [Outcome.derivations_after_events, List.mem_append, h.mem_iff, hlater.mem_iff]
      simp
    · intro program cause
      rw [Outcome.value_after, hlater.refused_iff]
      -- the first part was not refused
      have hfirst := h.refused_iff program cause
      simp only [reduceCtorEq, false_iff, not_exists, not_and] at hfirst
      constructor
      · rintro ⟨seeds, hseeds, hrefused⟩
        exact ⟨seeds, .inr ⟨value, rfl, hseeds⟩, hrefused⟩
      · rintro ⟨seeds, hseeds | ⟨found, hfound, hseeds⟩, hrefused⟩
        · exact absurd hrefused (hfirst seeds hseeds)
        · cases hfound
          exact ⟨seeds, hseeds, hrefused⟩

/-- **A derivation** hands over its seeds, and a refusal of them is what it fails with. -/
theorem derives_derive (program : Address) (seeds : List Bytes)
    {f : Except DerivationError Address → Resolution α}
    (hok : ∀ address, ∃ value, f (.ok address) = pure value)
    (herror : ∀ cause, f (.error cause) = throw (.underivable program cause)) :
    ((liftM (Plan.derive program seeds) >>= f).run.run deriver source asked).Derives deriver
      fun program' seeds' => program' = program ∧ seeds' = seeds := by
  have hrun : (liftM (Plan.derive program seeds) >>= f).run.run deriver source asked =
      ((f (deriver program seeds)).run.run deriver source asked).after
        [.derived program seeds] := rfl
  have hnothing : ((f (deriver program seeds)).run.run deriver source asked).derivations = [] := by
    cases deriver program seeds with
    | ok address =>
      obtain ⟨value, hvalue⟩ := hok address
      rw [hvalue]
      rfl
    | error cause =>
      rw [herror]
      rfl
  constructor
  · intro program' seeds'
    rw [hrun, Outcome.derivations_after_derived, hnothing, List.mem_singleton, Prod.mk.injEq]
  · intro program' cause
    rw [hrun, Outcome.value_after]
    constructor
    · intro hrefused
      cases hderiver : deriver program seeds with
      | ok address =>
        obtain ⟨value, hvalue⟩ := hok address
        rw [hderiver, hvalue] at hrefused
        cases hrefused
      | error found =>
        rw [hderiver, herror] at hrefused
        cases hrefused
        exact ⟨seeds, ⟨rfl, rfl⟩, hderiver⟩
    · rintro ⟨seeds', ⟨rfl, rfl⟩, hderiver⟩
      rw [hderiver, herror]
      rfl

end Resolution

end

/-! ## Records -/

/-- The program that a record derives its address under; `none` iff it derives none or the account
of the program is not known. -/
def Record.program? (gatingProgram : Address) (known : List AccountMeta) (record : Record) :
    Option Address :=
  if record.discriminator.toNat = 1 then some gatingProgram
  else if 128 ≤ record.discriminator.toNat then
    known[record.discriminator.toNat - 128]?.map AccountMeta.address
  else none

namespace SeedContext

variable (ctx : SeedContext) (gatingProgram : Address)

/-- What comes of a record in the context. -/
def record (index : Nat) (record : Record) : Outcome (Except Failure AccountMeta) :=
  (evaluateRecord ⟨ctx.prefetch, gatingProgram, ctx.scope.data⟩ ctx.scope.accounts index
    record).run.run ctx.deriver ctx.source ctx.asked

theorem derives_deriveUnder (program : Address) (spec : AddressConfig) :
    ((deriveUnder ⟨ctx.prefetch, gatingProgram, ctx.scope.data⟩ ctx.scope.accounts program
      spec).run.run ctx.deriver ctx.source ctx.asked).Derives ctx.deriver fun program' seeds =>
        program' = program ∧ ctx.seeds spec.toBytes = .ok seeds := by
  refine (Resolution.derives_bind (fun seeds program' seeds' => program' = program ∧ seeds' = seeds)
    (onlyReads_evaluateSpec ctx.prefetch ctx.scope spec.toBytes).derives ?_).congr ?_
  · intro seeds asked
    exact Resolution.derives_derive program seeds (fun address => ⟨address, rfl⟩) fun cause => rfl
  · intro program' seeds
    simp only [false_or]
    constructor
    · rintro ⟨value, hvalue, rfl, rfl⟩
      exact ⟨rfl, hvalue⟩
    · rintro ⟨rfl, hvalue⟩
      exact ⟨seeds, hvalue, rfl, rfl⟩

theorem derives_evaluateStrategy {record : Record} {strategy : Strategy}
    (h : record.strategy = .ok strategy) :
    ((evaluateStrategy ⟨ctx.prefetch, gatingProgram, ctx.scope.data⟩ ctx.scope.accounts
      strategy).run.run ctx.deriver ctx.source ctx.asked).Derives ctx.deriver fun program seeds =>
        record.program? gatingProgram ctx.scope.accounts = some program ∧
          ctx.seeds record.config.toBytes = .ok seeds := by
  unfold Record.program?
  obtain ⟨hd, hs⟩ | ⟨hd, hs⟩ | ⟨hd, hs⟩ | ⟨-, -, hs⟩ | ⟨hd, index, hindex, hs⟩ :=
      record.strategy_cases <;>
    rw [hs] at h <;> cases h
  · refine (Resolution.onlyReads_pure record.config).derives.congr fun program seeds => ?_
    simp [hd]
  · refine (ctx.derives_deriveUnder gatingProgram gatingProgram record.config).congr
      fun program seeds => ?_
    simp [hd, eq_comm]
  · refine (onlyReads_followPointer ctx.scope record.config.toBytes).derives.congr
      fun program seeds => ?_
    simp [hd]
  · rw [if_neg (by omega), if_pos hd, ← hindex, evaluateStrategy]
    cases ctx.scope.accounts[index.toNat]? with
    | none =>
      refine (Resolution.onlyReads_throw (by rintro ⟨⟩)).derives.congr fun program seeds => ?_
      simp
    | some owner =>
      refine (ctx.derives_deriveUnder gatingProgram owner.address record.config).congr
        fun program seeds => ?_
      simp [eq_comm]

/-- **A record** hands its seeds to the deriver iff it has a program and they can be read. -/
theorem derives_record (index : Nat) (record : Record) :
    (ctx.record gatingProgram index record).Derives ctx.deriver fun program seeds =>
      record.program? gatingProgram ctx.scope.accounts = some program ∧
        ctx.seeds record.config.toBytes = .ok seeds := by
  unfold SeedContext.record evaluateRecord
  cases hs : record.strategy with
  | error invalid =>
    obtain ⟨-, h3, h128⟩ := Record.strategy_eq_error_iff.1 hs
    have h3 : 3 ≤ record.discriminator.toNat := UInt8.le_iff_toNat_le.1 h3
    have h128 : record.discriminator.toNat < 128 := UInt8.lt_iff_toNat_lt.1 h128
    refine (Resolution.onlyReads_throw (by rintro ⟨⟩)).derives.congr fun program seeds => ?_
    rw [Record.program?, if_neg (by omega), if_neg (by omega)]
    exact ⟨nofun, nofun⟩
  | ok strategy =>
    refine (Resolution.derives_bind (fun _ _ _ => False)
      (ctx.derives_evaluateStrategy gatingProgram hs) fun address asked => ?_).congr
        fun program seeds => ?_
    · exact Outcome.derives_nothing rfl nofun
    · simp

end SeedContext

end ExtraAccounts
