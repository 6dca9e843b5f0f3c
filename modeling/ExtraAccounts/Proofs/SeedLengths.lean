import ExtraAccounts.Derivation.ProgramAddress
import ExtraAccounts.Proofs.Resolutions

/-!
# Lengths of seeds

How long each seed of a spec is stands in the spec (`SeedSource.seedLength`): whatever the accounts,
the instruction data and the answers of the store, evaluating the spec gives seeds of these lengths
or fails (`yields_evaluateSpec`). It holds for every answer, so it is said of plans
(`Plan.Ensures`), not of their runs, and each construct of a resolution keeps it.

An address is derived from the seeds joined together, so in general two lists of seeds give the
same bytes when a boundary is shifted. Two lists of one spec cannot: their boundaries stand at the
same places (`preimage_eq_iff`). So the bytes that are hashed tell the seeds of a spec apart, and
with them the bump and the program (`SeedContext.seeds_unambiguous`).
-/

namespace ExtraAccounts

/-! ## Whatever a plan is answered -/

namespace Plan

variable {α β : Type}

/-- Whatever the plan is answered, the value it ends with has the property. -/
def Ensures (property : α → Prop) : Plan α → Prop
  | done value => property value
  | request _ next => ∀ answers, (next answers).Ensures property
  | derivation _ _ next => ∀ answer, (next answer).Ensures property
  | log _ next => next.Ensures property

variable {property : α → Prop} {plan : Plan α}

theorem Ensures.value_run (h : plan.Ensures property) (deriver : Deriver) (source : Source)
    (asked : List Address) : property (plan.run deriver source asked).value := by
  induction plan generalizing asked with
  | done value => exact h
  | request addresses next ih => exact ih _ (h _) _
  | derivation program seeds next ih => exact ih _ (h _) asked
  | log entry next ih => exact ih h asked

theorem Ensures.bind {later : β → Prop} {f : α → Plan β} (h : plan.Ensures property)
    (hf : ∀ value, property value → (f value).Ensures later) : (plan.bind f).Ensures later := by
  induction plan with
  | done value => exact hf value h
  | request addresses next ih => exact fun answers => ih answers (h answers)
  | derivation program seeds next ih => exact fun answer => ih answer (h answer)
  | log entry next ih => exact ih h

theorem ensures_true (plan : Plan α) : plan.Ensures fun _ => True := by
  induction plan with
  | done value => exact trivial
  | request addresses next ih => exact ih
  | derivation program seeds next ih => exact ih
  | log entry next ih => exact ih

end Plan

namespace Resolution

variable {α β : Type} {property : α → Prop} {later : β → Prop}

/-- Whatever the resolution is answered, it fails or gives a value that has the property. -/
def Yields (property : α → Prop) (resolution : Resolution α) : Prop :=
  Plan.Ensures (fun result => ∀ value, result = .ok value → property value) resolution.run

theorem yields_pure {value : α} (h : property value) : Yields property (pure value) := by
  intro value' hv
  cases hv
  exact h

theorem yields_throw (cause : Failure) : Yields property (throw cause) := by
  intro value hv
  cases hv

theorem yields_ofExcept {result : Except Failure α}
    (h : ∀ value, result = .ok value → property value) : Yields property (ofExcept result) := by
  cases result with
  | ok value => exact yields_pure (h value rfl)
  | error cause => exact yields_throw cause

/-- What a plan is answered may be anything. -/
theorem yields_lift (plan : Plan α) : Yields (fun _ => True) (liftM plan) := by
  unfold Yields
  rw [ExceptT.run_liftM, map_eq_pure_bind]
  exact (plan.ensures_true).bind fun value _ value' _ => trivial

theorem Yields.bind {resolution : Resolution α} {f : α → Resolution β}
    (h : Yields property resolution) (hf : ∀ value, property value → Yields later (f value)) :
    Yields later (resolution >>= f) := by
  unfold Yields
  rw [ExceptT.run_bind, Plan.bind_eq]
  refine Plan.Ensures.bind h fun result hresult => ?_
  cases result with
  | ok value => exact hf value (hresult value rfl)
  | error cause => exact (yields_throw cause : Yields later (throw cause))

end Resolution

/-! ## Lengths -/

/-- The length of the seed that a source stands for. -/
def SeedSource.seedLength : SeedSource → Nat
  | literal bytes => bytes.length
  | argument _ len | data _ _ len => len.toNat
  | key _ => 32

/-- The lengths of the seeds that a reading stands for, in order. -/
def SeedReading.seedLengths (reading : SeedReading) : List Nat :=
  reading.sources.map fun seed => seed.source.seedLength

open Resolution

theorem length_of_seedWindow {data window : Bytes} {cursor : Nat} {offset len : UInt8}
    {problem : Nat → Nat → Nat → SeedProblem}
    (h : seedWindow data cursor offset len problem = .ok window) : window.length = len.toNat :=
  Bytes.length_of_slice?_eq_some (seedWindow_eq_ok_iff.1 h)

/-- **One seed** is as long as its source says. -/
theorem yields_evaluateSeed (scope : Scope) (held : Held) (seed : PlacedSeed) :
    Yields (fun bytes => bytes.length = seed.source.seedLength) (evaluateSeed scope held seed) := by
  obtain ⟨cursor, source⟩ := seed
  unfold evaluateSeed
  cases source with
  | literal bytes => exact yields_pure rfl
  | argument offset len => exact yields_ofExcept fun window => length_of_seedWindow
  | key index =>
    refine (yields_ofExcept fun address _ => trivial).bind fun address (_ : True) => ?_
    exact yields_pure address.length_toBytes
  | data index offset len =>
    refine (yields_ofExcept fun address _ => trivial).bind fun address (_ : True) => ?_
    refine (yields_lift _).bind fun found _ => ?_
    cases found with
    | none => exact yields_throw _
    | some account => exact yields_ofExcept fun window => length_of_seedWindow

theorem yields_mapM (scope : Scope) (held : Held) (sources : List PlacedSeed) :
    Yields (fun seeds => seeds.map List.length =
        sources.map fun seed => seed.source.seedLength)
      (sources.mapM (evaluateSeed scope held)) := by
  induction sources with
  | nil => exact yields_pure rfl
  | cons seed later ih =>
    rw [List.mapM_cons]
    refine (yields_evaluateSeed scope held seed).bind fun bytes hbytes => ?_
    refine ih.bind fun seeds hseeds => yields_pure ?_
    rw [List.map_cons, List.map_cons, hbytes, hseeds]

/-- **The seeds of a spec** are as many and as long as the spec says. -/
theorem yields_evaluateSpec (prefetch : Bool) (scope : Scope) (spec : Bytes) :
    Yields (fun seeds => seeds.map List.length = (SeedReading.ofSpec spec).seedLengths)
      (evaluateSpec prefetch scope spec) := by
  have hreading : ∀ held, Yields
      (fun seeds => seeds.map List.length = (SeedReading.ofSpec spec).seedLengths)
      (evaluateReading scope held (.ofSpec spec)) := by
    intro held
    refine (yields_mapM scope held _).bind fun seeds hseeds => ?_
    split
    · exact yields_pure hseeds
    · exact yields_throw _
  cases prefetch with
  | false => exact hreading []
  | true => exact (yields_lift _).bind fun held _ => hreading held

/-! ## The bytes that are hashed -/

namespace ProgramAddress

/-- Seeds of the same lengths are told apart by the bytes that are hashed, as are the bump and the
program. -/
theorem preimage_eq_iff {program program' : Address} {seeds seeds' : List Bytes}
    {bump bump' : UInt8} (hl : seeds.map List.length = seeds'.map List.length) :
    preimage program seeds bump = preimage program' seeds' bump' ↔
      seeds = seeds' ∧ bump = bump' ∧ program = program' := by
  constructor
  · intro h
    unfold preimage at h
    rw [List.append_assoc, List.append_assoc] at h
    -- the joined seeds take up as many bytes, so what follows them is in the same place
    have hflat : seeds.flatten.length = seeds'.flatten.length := by
      rw [List.length_flatten, List.length_flatten, hl]
    obtain ⟨hseeds, hrest⟩ := List.append_inj h hflat
    obtain ⟨hbump, hrest⟩ := List.cons.inj hrest
    obtain ⟨hprogram, -⟩ := List.append_inj hrest (by simp)
    exact ⟨List.eq_iff_flatten_eq.2 ⟨hseeds, hl⟩, hbump, Block.ext hprogram⟩
  · rintro ⟨rfl, rfl, rfl⟩
    rfl

/-- The lengths are needed: joined together, shifted seeds are the same bytes. -/
example (program : Address) (bump : UInt8) :
    preimage program [[1], [2, 3]] bump = preimage program [[1, 2], [3]] bump := rfl

theorem exists_bump_of_search {candidate : UInt8 → Address} {onCurve : Address → Bool} {bump : Nat}
    {address : Address} (h : search candidate onCurve bump = some address) :
    ∃ bump, candidate bump = address := by
  induction bump with
  | zero => cases h
  | succ bump ih =>
    unfold search at h
    dsimp only at h
    split at h
    · exact ih h
    · exact ⟨_, Option.some.inj h⟩

/-- A derived address is the hash of the seeds with some bump. -/
theorem exists_bump_of_deriveWith {hash : Bytes → Address} {onCurve : Address → Bool}
    {program address : Address} {seeds : List Bytes}
    (h : deriveWith hash onCurve program seeds = .ok address) :
    ∃ bump, hash (preimage program seeds bump) = address := by
  obtain ⟨_, -, h⟩ := exceptBind_eq_ok.1 h
  split at h
  · rename_i found hs
    cases h
    exact exists_bump_of_search hs
  · cases h

end ProgramAddress

/-! ## Contexts -/

/-- What a seed spec is evaluated in. -/
structure SeedContext where
  prefetch : Bool
  /-- The accounts known so far and the instruction data. -/
  scope : Scope
  /-- The store, which may change from one request to the next. -/
  source : Source
  /-- What the store was asked for before, the latest first. -/
  asked : List Address
  deriver : Deriver

namespace SeedContext

/-- The seeds that a spec comes to in the context. -/
def seeds (ctx : SeedContext) (spec : Bytes) : Except Failure (List Bytes) :=
  ((evaluateSpec ctx.prefetch ctx.scope spec).run.run ctx.deriver ctx.source ctx.asked).value

variable {ctx ctx' : SeedContext} {spec : Bytes} {seeds seeds' : List Bytes}

theorem map_length_of_seeds (h : ctx.seeds spec = .ok seeds) :
    seeds.map List.length = (SeedReading.ofSpec spec).seedLengths :=
  (yields_evaluateSpec ctx.prefetch ctx.scope spec).value_run ctx.deriver ctx.source ctx.asked
    seeds h

open ProgramAddress (preimage deriveWith)

/-- **The seeds of one spec cannot be shifted against each other.** In any two contexts in which it
succeeds a spec comes to as many seeds, of the lengths that stand in it. So the bytes that are hashed
for the one and for the other, with any bumps and programs, are the same only if all of these are;
and where the two come to the same address, they agree or two different byte strings that were
hashed collide. -/
theorem seeds_unambiguous (h : ctx.seeds spec = .ok seeds) (h' : ctx'.seeds spec = .ok seeds') :
    seeds.map List.length = (SeedReading.ofSpec spec).seedLengths ∧
      seeds'.map List.length = (SeedReading.ofSpec spec).seedLengths ∧
      (∀ program program' bump bump',
        preimage program seeds bump = preimage program' seeds' bump' ↔
          seeds = seeds' ∧ bump = bump' ∧ program = program') ∧
      ∀ hash onCurve program program' address,
        deriveWith hash onCurve program seeds = .ok address →
        deriveWith hash onCurve program' seeds' = .ok address →
        (seeds = seeds' ∧ program = program') ∨
          ∃ bump bump', preimage program seeds bump ≠ preimage program' seeds' bump' ∧
            hash (preimage program seeds bump) = address ∧
            hash (preimage program' seeds' bump') = address := by
  have hlen := map_length_of_seeds h
  have hlen' := map_length_of_seeds h'
  have hsame : seeds.map List.length = seeds'.map List.length := hlen.trans hlen'.symm
  refine ⟨hlen, hlen', fun _ _ _ _ => ProgramAddress.preimage_eq_iff hsame, ?_⟩
  intro hash onCurve program program' address hd hd'
  obtain ⟨bump, hbump⟩ := ProgramAddress.exists_bump_of_deriveWith hd
  obtain ⟨bump', hbump'⟩ := ProgramAddress.exists_bump_of_deriveWith hd'
  by_cases heq : preimage program seeds bump = preimage program' seeds' bump'
  · obtain ⟨hseeds, -, hprogram⟩ := (ProgramAddress.preimage_eq_iff hsame).1 heq
    exact .inl ⟨hseeds, hprogram⟩
  · exact .inr ⟨bump, bump', heq, hbump, hbump'⟩

end SeedContext

/-! ## Two contexts of one spec -/

namespace TwoContexts

def address (n : UInt8) : Address := .padded [n, n, n] (by simp)

/-- A literal, two bytes of the instruction data, a key, three bytes of an account and none of
another, then the end and a byte that does not count. -/
def spec : Bytes := [1, 1, 104, 2, 1, 2, 3, 0, 4, 1, 0, 3, 4, 0, 2, 0, 0, 7]

def first : SeedContext where
  prefetch := true
  scope.accounts :=
    [{ address := address 1, role := .readonly }, { address := address 2, role := .writable }]
  scope.data := [5, 6, 7]
  source := .fixed fun a => some { data := a.toBytes.take 3, owner := address 9 }
  asked := []
  deriver := ProgramAddress.derive

/-- One account twice, whose data grows with each request. -/
def second : SeedContext where
  prefetch := false
  scope.accounts :=
    [{ address := address 3, role := .readonly }, { address := address 3, role := .readonly }]
  scope.data := [9, 5, 6, 7]
  source := fun asked _ => some { data := List.replicate (asked.length + 3) 8, owner := address 9 }
  asked := [address 4]
  deriver := fun _ _ => .error .noBump

def firstSeeds : List Bytes := [[104], [6, 7], (address 1).toBytes, [2, 2, 2], []]

def secondSeeds : List Bytes := [[104], [5, 6], (address 3).toBytes, [8, 8, 8], []]

theorem seeds_unambiguous_two_contexts :
    first.seeds spec = .ok firstSeeds ∧ second.seeds spec = .ok secondSeeds ∧
      firstSeeds.map List.length = [1, 2, 32, 3, 0] ∧
      secondSeeds.map List.length = [1, 2, 32, 3, 0] ∧
      ∀ program program' bump bump', ProgramAddress.preimage program firstSeeds bump ≠
        ProgramAddress.preimage program' secondSeeds bump' := by
  have hfirst : first.seeds spec = .ok firstSeeds := by decide +kernel
  have hsecond : second.seeds spec = .ok secondSeeds := by decide +kernel
  have hlengths : (SeedReading.ofSpec spec).seedLengths = [1, 2, 32, 3, 0] := by decide +kernel
  obtain ⟨hlen, hlen', hpreimage, -⟩ := SeedContext.seeds_unambiguous hfirst hsecond
  refine ⟨hfirst, hsecond, hlen.trans hlengths, hlen'.trans hlengths, ?_⟩
  intro program program' bump bump' heq
  have hseeds := ((hpreimage program program' bump bump').1 heq).1
  exact absurd hseeds (by decide)

end TwoContexts

end ExtraAccounts
