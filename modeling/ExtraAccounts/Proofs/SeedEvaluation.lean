import ExtraAccounts.Proofs.Prefetch
import ExtraAccounts.Proofs.SeedGrammar

/-!
# Seeds from left to right

What a source stands for is said by `SeedSource.Gives`, and why it stands for nothing by
`PlacedSeed.Fails`: an index that is out of range, then an account that does not exist, then a
window that runs past the end of the data. Every source does one or the other
(`seedValue_eq_ok_iff`, `seedValue_eq_error_iff`).

The cursors of a reading increase, and a fault comes after all of them (`LaidOut.cursor_lt`,
`LaidOut.cursor_lt_fault`). So the first source that fails is the one with the least cursor, and a
spec comes to the seeds of its sources or fails at the least cursor where anything is wrong
(`evaluateSpec_left_to_right`), in whatever order the accounts are fetched.
-/

namespace ExtraAccounts

/-! ## One source -/

section
variable (accounts : Address → Option Account) (scope : Scope)

/-- The seed that a source stands for. A window may be empty, and may end where the data ends. -/
inductive SeedSource.Gives : SeedSource → Bytes → Prop
  | literal (bytes : Bytes) : Gives (.literal bytes) bytes
  | argument {offset len : UInt8} (hwindow : offset.toNat + len.toNat ≤ scope.data.length) :
      Gives (.argument offset len) ((scope.data.drop offset.toNat).take len.toNat)
  | key {index : UInt8} {known : AccountMeta}
      (hindex : scope.accounts[index.toNat]? = some known) :
      Gives (.key index) known.address.toBytes
  | data {index offset len : UInt8} {known : AccountMeta} {account : Account}
      (hindex : scope.accounts[index.toNat]? = some known)
      (haccount : accounts known.address = some account)
      (hwindow : offset.toNat + len.toNat ≤ account.data.length) :
      Gives (.data index offset len) ((account.data.drop offset.toNat).take len.toNat)

/-- Why the source at a cursor stands for no seed. -/
inductive PlacedSeed.Fails : PlacedSeed → Failure → Prop
  | argument {cursor : Nat} {offset len : UInt8}
      (hwindow : scope.data.length < offset.toNat + len.toNat) :
      Fails { cursor, source := .argument offset len }
        (.badSeed cursor (.argumentOutOfBounds offset.toNat (offset.toNat + len.toNat)
          scope.data.length))
  | key {cursor : Nat} {index : UInt8} (hindex : scope.accounts.length ≤ index.toNat) :
      Fails { cursor, source := .key index }
        (.badSeed cursor (.noSuchAccount index.toNat scope.accounts.length))
  | index {cursor : Nat} {index offset len : UInt8}
      (hindex : scope.accounts.length ≤ index.toNat) :
      Fails { cursor, source := .data index offset len }
        (.badSeed cursor (.noSuchAccount index.toNat scope.accounts.length))
  | absent {cursor : Nat} {index offset len : UInt8} {known : AccountMeta}
      (hindex : scope.accounts[index.toNat]? = some known)
      (haccount : accounts known.address = none) :
      Fails { cursor, source := .data index offset len } (.noSeedAccount known.address)
  | data {cursor : Nat} {index offset len : UInt8} {known : AccountMeta} {account : Account}
      (hindex : scope.accounts[index.toNat]? = some known)
      (haccount : accounts known.address = some account)
      (hwindow : account.data.length < offset.toNat + len.toNat) :
      Fails { cursor, source := .data index offset len }
        (.badSeed cursor (.dataOutOfBounds offset.toNat (offset.toNat + len.toNat)
          account.data.length))

end

section
variable {accounts : Address → Option Account} {scope : Scope}

theorem Scope.address?_eq_some_iff {index : UInt8} {address : Address} :
    scope.address? index = some address ↔
      ∃ known, scope.accounts[index.toNat]? = some known ∧ known.address = address :=
  Option.map_eq_some_iff

theorem Scope.address?_eq_none_iff {index : UInt8} :
    scope.address? index = none ↔ scope.accounts.length ≤ index.toNat :=
  Option.map_eq_none_iff.trans List.getElem?_eq_none_iff

theorem seedAddress_eq_ok_iff {cursor : Nat} {index : UInt8} {address : Address} :
    seedAddress scope cursor index = .ok address ↔ scope.address? index = some address := by
  unfold seedAddress
  cases scope.address? index <;> simp

theorem seedValue_eq_ok_iff {seed : PlacedSeed} {bytes : Bytes} :
    seedValue accounts scope seed = .ok bytes ↔ seed.source.Gives accounts scope bytes := by
  obtain ⟨cursor, source⟩ := seed
  constructor
  · intro h
    cases source with
    | literal literal =>
      cases h
      exact .literal bytes
    | argument offset len =>
      obtain ⟨hwindow, rfl⟩ := Bytes.slice?_eq_some_iff.1 (seedWindow_eq_ok_iff.1 h)
      exact .argument hwindow
    | key index =>
      obtain ⟨address, haddress, rfl⟩ := exceptMap_eq_ok.1 h
      obtain ⟨known, hindex, rfl⟩ :=
        Scope.address?_eq_some_iff.1 (seedAddress_eq_ok_iff.1 haddress)
      exact .key hindex
    | data index offset len =>
      obtain ⟨address, haddress, h⟩ := exceptBind_eq_ok.1 h
      obtain ⟨known, hindex, rfl⟩ :=
        Scope.address?_eq_some_iff.1 (seedAddress_eq_ok_iff.1 haddress)
      split at h
      · cases h
      · rename_i account haccount
        obtain ⟨hwindow, rfl⟩ := Bytes.slice?_eq_some_iff.1 (seedWindow_eq_ok_iff.1 h)
        exact .data hindex haccount hwindow
  · intro h
    cases h with
    | literal => rfl
    | argument hwindow =>
      exact seedWindow_eq_ok_iff.2 (Bytes.slice?_eq_some_iff.2 ⟨hwindow, rfl⟩)
    | key hindex =>
      have haddress := Scope.address?_eq_some_iff.2 ⟨_, hindex, rfl⟩
      exact exceptMap_eq_ok.2 ⟨_, seedAddress_eq_ok_iff.2 haddress, rfl⟩
    | data hindex haccount hwindow =>
      have haddress := Scope.address?_eq_some_iff.2 ⟨_, hindex, rfl⟩
      refine exceptBind_eq_ok.2 ⟨_, seedAddress_eq_ok_iff.2 haddress, ?_⟩
      rw [haccount]
      exact seedWindow_eq_ok_iff.2 (Bytes.slice?_eq_some_iff.2 ⟨hwindow, rfl⟩)

theorem seedValue_eq_error_iff {seed : PlacedSeed} {cause : Failure} :
    seedValue accounts scope seed = .error cause ↔ seed.Fails accounts scope cause := by
  obtain ⟨cursor, source⟩ := seed
  constructor
  · intro h
    cases source with
    | literal literal => cases h
    | argument offset len =>
      obtain ⟨hwindow, rfl⟩ := seedWindow_eq_error_iff.1 h
      exact .argument hwindow
    | key index =>
      obtain ⟨hindex, rfl⟩ := seedAddress_eq_error_iff.1 (exceptMap_eq_error.1 h)
      exact .key (Scope.address?_eq_none_iff.1 hindex)
    | data index offset len =>
      obtain h | ⟨address, haddress, h⟩ := exceptBind_eq_error.1 h
      · obtain ⟨hindex, rfl⟩ := seedAddress_eq_error_iff.1 h
        exact .index (Scope.address?_eq_none_iff.1 hindex)
      · obtain ⟨known, hindex, rfl⟩ :=
          Scope.address?_eq_some_iff.1 (seedAddress_eq_ok_iff.1 haddress)
        split at h
        · rename_i haccount
          cases h
          exact .absent hindex haccount
        · rename_i account haccount
          obtain ⟨hwindow, rfl⟩ := seedWindow_eq_error_iff.1 h
          exact .data hindex haccount hwindow
  · intro h
    cases h with
    | argument hwindow => exact seedWindow_eq_error_iff.2 ⟨hwindow, rfl⟩
    | key hindex =>
      have hnone := Scope.address?_eq_none_iff.2 hindex
      exact exceptMap_eq_error.2 (seedAddress_eq_error_iff.2 ⟨hnone, rfl⟩)
    | index hindex =>
      have hnone := Scope.address?_eq_none_iff.2 hindex
      exact exceptBind_eq_error.2 (.inl (seedAddress_eq_error_iff.2 ⟨hnone, rfl⟩))
    | absent hindex haccount =>
      have haddress := Scope.address?_eq_some_iff.2 ⟨_, hindex, rfl⟩
      refine exceptBind_eq_error.2 (.inr ⟨_, seedAddress_eq_ok_iff.2 haddress, ?_⟩)
      rw [haccount]
    | data hindex haccount hwindow =>
      have haddress := Scope.address?_eq_some_iff.2 ⟨_, hindex, rfl⟩
      refine exceptBind_eq_error.2 (.inr ⟨_, seedAddress_eq_ok_iff.2 haddress, ?_⟩)
      rw [haccount]
      exact seedWindow_eq_error_iff.2 ⟨hwindow, rfl⟩

/-- A source that does not fail gives a seed. -/
theorem PlacedSeed.gives_of_not_fails {seed : PlacedSeed}
    (h : ∀ cause, ¬ seed.Fails accounts scope cause) :
    ∃ bytes, seed.source.Gives accounts scope bytes := by
  cases hvalue : seedValue accounts scope seed with
  | ok bytes => exact ⟨bytes, seedValue_eq_ok_iff.1 hvalue⟩
  | error cause => exact absurd (seedValue_eq_error_iff.1 hvalue) (h cause)

theorem PlacedSeed.Fails.not_gives {seed : PlacedSeed} {cause : Failure} {bytes : Bytes}
    (h : seed.Fails accounts scope cause) : ¬ seed.source.Gives accounts scope bytes := by
  intro hgives
  have hvalue := seedValue_eq_error_iff.2 h
  rw [seedValue_eq_ok_iff.2 hgives] at hvalue
  cases hvalue

end

/-! ## The order of a reading -/

namespace SeedReading

section
variable {reading : SeedReading} {window : Bytes} {start : Nat} (h : reading.LaidOut window start)
include h

theorem LaidOut.cursor_lt {before later : List PlacedSeed} {seed other : PlacedSeed}
    (hsources : reading.sources = before ++ seed :: later) (hmem : other ∈ before) :
    other.cursor < seed.cursor := by
  obtain ⟨i, hi, rfl⟩ := List.getElem_of_mem hmem
  have hlen : before.length < reading.sources.length := by
    rw [hsources, List.length_append, List.length_cons]
    omega
  have hother := h.cursor i (by omega)
  have hseed := h.cursor before.length hlen
  have hlt := packedSize_take_lt hi (Nat.le_of_lt hlen)
  have hbefore : reading.sources[i] = before[i] := by
    simp [hsources, hi]
  have hat : reading.sources[before.length] = seed := by
    simp [hsources]
  rw [hbefore] at hother
  rw [hat] at hseed
  omega

theorem LaidOut.cursor_lt_fault {fault : SeedFault} (hfault : reading.fault = some fault)
    {seed : PlacedSeed} (hmem : seed ∈ reading.sources) : seed.cursor < fault.cursor := by
  obtain ⟨i, hi, rfl⟩ := List.getElem_of_mem hmem
  have hseed := h.cursor i hi
  have hstop := h.ends.cursor fault hfault
  have hlt := packedSize_take_lt hi (Nat.le_refl reading.sources.length)
  rw [List.take_length] at hlt
  omega

end

/-! ## What is wrong with a reading -/

section
variable (accounts : Address → Option Account) (scope : Scope)

/-- What is wrong at a cursor of a reading: the source there stands for no seed, or none can be
read. -/
inductive FailsAt (reading : SeedReading) : (cursor : Nat) → Failure → Prop
  | source {seed : PlacedSeed} {cause : Failure} (hmem : seed ∈ reading.sources)
      (hfails : seed.Fails accounts scope cause) : FailsAt reading seed.cursor cause
  | unknownTag {cursor : Nat} {tag : UInt8}
      (hfault : reading.fault = some (.unknownTag cursor tag)) :
      FailsAt reading cursor (.badSeed cursor (.unknownTag tag))
  | missingOperands {cursor : Nat} {tag : UInt8}
      (hfault : reading.fault = some (.missingOperands cursor tag)) :
      FailsAt reading cursor (.badSeed cursor (.missingOperands tag))

end

section
variable {accounts : Address → Option Account} {scope : Scope} {reading : SeedReading}

theorem FailsAt.fault {fault : SeedFault} (h : reading.fault = some fault) :
    reading.FailsAt accounts scope fault.cursor (.ofSeedFault fault) := by
  cases fault with
  | unknownTag cursor tag => exact .unknownTag h
  | missingOperands cursor tag => exact .missingOperands h

/-- What is wrong is wrong with a source or with the bytes after the sources. -/
theorem FailsAt.source_or_fault {cursor : Nat} {cause : Failure}
    (h : reading.FailsAt accounts scope cursor cause) :
    (∃ seed ∈ reading.sources, seed.cursor = cursor ∧ seed.Fails accounts scope cause) ∨
      ∃ fault, reading.fault = some fault ∧ fault.cursor = cursor ∧ .ofSeedFault fault = cause := by
  cases h with
  | source hmem hfails => exact .inl ⟨_, hmem, rfl, hfails⟩
  | unknownTag hfault => exact .inr ⟨_, hfault, rfl, rfl⟩
  | missingOperands hfault => exact .inr ⟨_, hfault, rfl, rfl⟩

theorem mapM_seedValue_eq_ok_iff {sources : List PlacedSeed} {seeds : List Bytes} :
    sources.mapM (seedValue accounts scope) = .ok seeds ↔
      List.Forall₂ (fun seed bytes => seed.source.Gives accounts scope bytes) sources seeds := by
  rw [mapM_eq_ok_iff]
  simp only [seedValue_eq_ok_iff]

/-- **A reading comes to its seeds** iff it has no fault and every source gives one. -/
theorem readingValue_eq_ok_iff {seeds : List Bytes} :
    readingValue accounts scope reading = .ok seeds ↔ reading.fault = none ∧
      List.Forall₂ (fun seed bytes => seed.source.Gives accounts scope bytes)
        reading.sources seeds := by
  rw [← mapM_seedValue_eq_ok_iff, readingValue, exceptBind_eq_ok]
  constructor
  · rintro ⟨values, hvalues, h⟩
    split at h
    · rename_i hfault
      cases h
      exact ⟨hfault, hvalues⟩
    · cases h
  · rintro ⟨hfault, hvalues⟩
    exact ⟨seeds, hvalues, by rw [hfault]⟩

/-- **A reading fails** as its first source that fails, or as its fault if none does. -/
theorem readingValue_eq_error_iff {cause : Failure} :
    readingValue accounts scope reading = .error cause ↔
      (∃ before seed later, reading.sources = before ++ seed :: later ∧
        seed.Fails accounts scope cause ∧
        ∀ earlier ∈ before, ∃ bytes, earlier.source.Gives accounts scope bytes) ∨
      ∃ fault, reading.fault = some fault ∧ .ofSeedFault fault = cause ∧
        ∀ seed ∈ reading.sources, ∃ bytes, seed.source.Gives accounts scope bytes := by
  simp only [readingValue, exceptBind_eq_error, mapM_eq_error_iff, seedValue_eq_error_iff,
    seedValue_eq_ok_iff]
  refine or_congr_right ⟨?_, ?_⟩
  · rintro ⟨values, hvalues, h⟩
    split at h
    · cases h
    · rename_i fault hfault
      cases h
      have hgives := (mapM_seedValue_eq_ok_iff.1 hvalues).imp fun seed bytes hbytes =>
        (⟨⟨bytes, hbytes⟩, hbytes⟩ : (∃ bytes, seed.source.Gives accounts scope bytes) ∧ _)
      exact ⟨fault, hfault, rfl, ((List.forall₂_and_left _ _).1 hgives).1⟩
  · rintro ⟨fault, hfault, rfl, hgives⟩
    cases hvalues : reading.sources.mapM (seedValue accounts scope) with
    | ok values => exact ⟨values, rfl, by rw [hfault]⟩
    | error cause =>
      obtain ⟨seed, hmem, hfails⟩ := exists_of_mapM_eq_error hvalues
      obtain ⟨bytes, hbytes⟩ := hgives seed hmem
      exact absurd hbytes (seedValue_eq_error_iff.1 hfails).not_gives

section
variable {window : Bytes} {start : Nat} (hlaid : reading.LaidOut window start)
include hlaid

/-- Nothing is wrong before the first source that fails. -/
theorem cursor_le_of_failsAt {before later : List PlacedSeed} {seed : PlacedSeed}
    (hsources : reading.sources = before ++ seed :: later)
    (hbefore : ∀ earlier ∈ before, ∃ bytes, earlier.source.Gives accounts scope bytes)
    {cursor : Nat} {cause : Failure} (h : reading.FailsAt accounts scope cursor cause) :
    seed.cursor ≤ cursor := by
  have hmem : seed ∈ reading.sources := by
    rw [hsources]
    exact List.mem_append_right before List.mem_cons_self
  obtain ⟨other, hother, rfl, hfails⟩ | ⟨fault, hfault, rfl, -⟩ := h.source_or_fault
  · rw [hsources, List.mem_append, List.mem_cons] at hother
    rcases hother with hother | rfl | hother
    · obtain ⟨bytes, hbytes⟩ := hbefore other hother
      exact absurd hbytes hfails.not_gives
    · exact Nat.le_refl _
    · obtain ⟨between, rest, rfl⟩ := List.append_of_mem hother
      have hsplit : reading.sources = (before ++ seed :: between) ++ other :: rest := by
        rw [hsources, List.append_assoc, List.cons_append]
      exact Nat.le_of_lt
        (hlaid.cursor_lt hsplit (List.mem_append_right before List.mem_cons_self))
  · exact Nat.le_of_lt (hlaid.cursor_lt_fault hfault hmem)

/-- **The failure of a reading** is what is wrong at the least cursor where anything is. -/
theorem readingValue_eq_error_iff_least {cause : Failure} :
    readingValue accounts scope reading = .error cause ↔
      ∃ cursor, reading.FailsAt accounts scope cursor cause ∧
        ∀ other problem, reading.FailsAt accounts scope other problem → cursor ≤ other := by
  rw [readingValue_eq_error_iff]
  constructor
  · rintro (⟨before, seed, later, hsources, hfails, hbefore⟩ | ⟨fault, hfault, rfl, hgives⟩)
    · have hmem : seed ∈ reading.sources := by
        rw [hsources]
        exact List.mem_append_right before List.mem_cons_self
      exact ⟨seed.cursor, .source hmem hfails,
        fun other problem h => cursor_le_of_failsAt hlaid hsources hbefore h⟩
    · refine ⟨fault.cursor, .fault hfault, fun other problem h => ?_⟩
      obtain ⟨seed, hmem, rfl, hfails⟩ | ⟨found, hfound, rfl, -⟩ := h.source_or_fault
      · obtain ⟨bytes, hbytes⟩ := hgives seed hmem
        exact absurd hbytes hfails.not_gives
      · rw [hfault] at hfound
        cases hfound
        exact Nat.le_refl _
  · rintro ⟨cursor, h, hleast⟩
    -- a source at a smaller cursor does not fail
    have hgives : ∀ seed ∈ reading.sources, seed.cursor < cursor →
        ∃ bytes, seed.source.Gives accounts scope bytes := by
      intro seed hmem hlt
      apply PlacedSeed.gives_of_not_fails
      intro problem hfails
      exact absurd (hleast _ _ (.source hmem hfails)) (Nat.not_le_of_lt hlt)
    obtain ⟨seed, hmem, rfl, hfails⟩ | ⟨fault, hfault, rfl, rfl⟩ := h.source_or_fault
    · obtain ⟨before, later, hsources⟩ := List.append_of_mem hmem
      refine .inl ⟨before, seed, later, hsources, hfails, fun earlier hearlier => ?_⟩
      apply hgives earlier
      · rw [hsources]
        exact List.mem_append_left _ hearlier
      · exact hlaid.cursor_lt hsources hearlier
    · exact .inr ⟨fault, hfault, rfl, fun seed hmem =>
        hgives seed hmem (hlaid.cursor_lt_fault hfault hmem)⟩

end

end

end SeedReading

/-! ## A spec -/

/-- What a seed spec comes to against a store that does not change. -/
def seedsOutcome (prefetch : Bool) (delivery : Plan.Delivery) (deriver : Deriver)
    (accounts : Address → Option Account) (scope : Scope) (spec : Bytes) :
    Outcome (Except Failure (List Bytes)) :=
  ((evaluateSpec prefetch scope spec).run.delivered delivery).run deriver (.fixed accounts) []

section
variable (prefetch : Bool) (delivery : Plan.Delivery) (deriver : Deriver)
  (accounts : Address → Option Account) (scope : Scope) (spec : Bytes)

theorem seedsOutcome_eq :
    seedsOutcome prefetch delivery deriver accounts scope spec =
      Resolution.outcome deriver accounts (evaluateSpec prefetch scope spec) :=
  Plan.run_delivered deriver _ delivery _ []

theorem value_seedsOutcome :
    (seedsOutcome prefetch delivery deriver accounts scope spec).value =
      readingValue accounts scope (.ofSpec spec) := by
  have hplain := outcome_evaluateSpec_plain deriver accounts scope spec
  rw [seedsOutcome_eq]
  cases prefetch with
  | false => rw [hplain]
  | true => rw [(ahead_evaluateSpec deriver accounts scope spec).value, hplain]

/-- **A spec is evaluated from left to right**, whether or not accounts are fetched ahead. It comes
to seeds iff it reads without a fault and every source gives one, and these are its seeds. Otherwise
it fails with what is wrong at the least cursor where a source gives no seed or cannot be read. -/
theorem evaluateSpec_left_to_right :
    (∀ seeds, (seedsOutcome prefetch delivery deriver accounts scope spec).value = .ok seeds ↔
      (SeedReading.ofSpec spec).fault = none ∧
        List.Forall₂ (fun seed bytes => seed.source.Gives accounts scope bytes)
          (SeedReading.ofSpec spec).sources seeds) ∧
    ∀ cause, (seedsOutcome prefetch delivery deriver accounts scope spec).value = .error cause ↔
      ∃ cursor, (SeedReading.ofSpec spec).FailsAt accounts scope cursor cause ∧
        ∀ other problem, (SeedReading.ofSpec spec).FailsAt accounts scope other problem →
          cursor ≤ other := by
  rw [value_seedsOutcome]
  constructor
  · intro seeds
    exact SeedReading.readingValue_eq_ok_iff
  · intro cause
    exact SeedReading.readingValue_eq_error_iff_least (SeedReading.laidOut_ofSpec spec)

end

/-- Two absent accounts are fetched ahead, but the slice before them is what fails. -/
example :
    (seedsOutcome true .batched (fun _ _ => .error .noBump) (fun _ => none)
      { accounts := [⟨.zero 32, .readonly⟩, ⟨.padded [31] (by decide), .writable⟩], data := [] }
      [2, 0, 1, 4, 0, 0, 1, 4, 1, 0, 1]).value =
        .error (.badSeed 0 (.argumentOutOfBounds 0 1 0)) := by
  decide +kernel

end ExtraAccounts
