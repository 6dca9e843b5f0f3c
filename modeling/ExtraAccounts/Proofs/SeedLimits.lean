import ExtraAccounts.Proofs.RecordDerivations
import ExtraAccounts.Proofs.SeedPacking

/-!
# Seed limits of records

A config of 32 bytes holds at most sixteen sources, and sixteen only if each takes two bytes
(`SeedReading.length_sources_eq_sixteen_iff`). How long a seed is stands in the config too: one byte
says it, so it is at most 255, and only a window of the instruction data or of an account's data can
be longer than 32 (`SeedSource.windowLength?_of_long`). So which of the limits the seeds of a record
break, if they can be read at all, is seen from its config alone (`SeedContext.record_seed_limits`).
-/

namespace ExtraAccounts

/-! ## Derivers -/

/-- The deriver checks the limits first, and where they are kept it can only run out of bumps. -/
structure Deriver.ChecksLimits (deriver : Deriver) : Prop where
  checks : ∀ program seeds cause, checkLimits seeds = .error cause →
    deriver program seeds = .error cause
  otherwise : ∀ program seeds cause, checkLimits seeds = .ok () →
    deriver program seeds = .error cause → cause = .noBump

theorem ProgramAddress.checksLimits_deriveWith (hash : Bytes → Address)
    (onCurve : Address → Bool) : Deriver.ChecksLimits (deriveWith hash onCurve) where
  checks := by
    intro program seeds cause h
    exact exceptBind_eq_error.2 (.inl h)
  otherwise := by
    intro program seeds cause hok h
    rcases exceptBind_eq_error.1 h with h | ⟨-, -, h⟩
    · rw [hok] at h
      cases h
    · split at h <;> cases h
      rfl

theorem ProgramAddress.checksLimits_derive : Deriver.ChecksLimits derive :=
  checksLimits_deriveWith Sha256.hash Edwards25519.isPoint

/-- Such a deriver reports a limit iff the check does. -/
theorem Deriver.ChecksLimits.eq_error_iff {deriver : Deriver} (h : deriver.ChecksLimits)
    {program : Address} {seeds : List Bytes} {cause : DerivationError} (hcause : cause ≠ .noBump) :
    deriver program seeds = .error cause ↔ checkLimits seeds = .error cause := by
  constructor
  · intro hderiver
    cases hcheck : checkLimits seeds with
    | ok => exact absurd (h.otherwise program seeds cause hcheck hderiver) hcause
    | error found =>
      rw [h.checks program seeds found hcheck] at hderiver
      cases hderiver
      rfl
  · exact h.checks program seeds cause

/-! ## The lengths of seeds -/

namespace SeedSource

/-- The length of the window that the source asks for; `none` iff it asks for none. -/
def windowLength? : SeedSource → Option Nat
  | argument _ len | data _ _ len => some len.toNat
  | literal _ | key _ => none

theorem seedLength_of_windowLength? {source : SeedSource} {len : Nat}
    (h : source.windowLength? = some len) : source.seedLength = len := by
  cases source <;> cases h <;> rfl

/-- A seed that is no window is as long as a key, or stands in the config. -/
theorem seedLength_le_of_no_window {source : SeedSource} (hsize : source.size ≤ 32)
    (h : source.windowLength? = none) : source.seedLength ≤ 32 := by
  cases source with
  | literal bytes =>
    rw [size] at hsize
    rw [seedLength]
    omega
  | argument offset len => cases h
  | key index => exact Nat.le_refl 32
  | data index offset len => cases h

/-- **A seed that is too long** is a window. -/
theorem windowLength?_of_long {source : SeedSource} (hsize : source.size ≤ 32)
    (hlong : 32 < source.seedLength) : source.windowLength? = some source.seedLength := by
  cases h : source.windowLength? with
  | none => exact absurd (seedLength_le_of_no_window hsize h) (Nat.not_le_of_lt hlong)
  | some len => rw [seedLength_of_windowLength? h]

/-- No seed but a window need be looked at to find one that is too long. -/
theorem forall_windowLength?_le_iff {source : SeedSource} (hsize : source.size ≤ 32) :
    (∀ len ∈ source.windowLength?, len ≤ 32) ↔ source.seedLength ≤ 32 := by
  constructor
  · intro h
    apply Nat.le_of_not_lt
    intro hlong
    exact Nat.not_le_of_lt hlong (h _ (windowLength?_of_long hsize hlong))
  · intro h len hlen
    rw [← seedLength_of_windowLength? hlen]
    exact h

theorem seedLength_le {source : SeedSource} (hsize : source.size ≤ 32) :
    source.seedLength ≤ 255 := by
  cases h : source.windowLength? with
  | none => exact Nat.le_trans (seedLength_le_of_no_window hsize h) (by omega)
  | some len =>
    rw [seedLength_of_windowLength? h]
    cases source <;> cases h
    · exact Nat.le_of_lt_succ (UInt8.toNat_lt _)
    · exact Nat.le_of_lt_succ (UInt8.toNat_lt _)

theorem size_eq_two_iff {source : SeedSource} :
    source.size = 2 ↔ source = .literal [] ∨ ∃ index, source = .key index := by
  cases source <;> simp [size]

end SeedSource

/-! ## The sources of a config -/

/-- The config is sixteen sources of two bytes: account keys and literals without bytes. -/
def AddressConfig.IsSixteenPairs (config : AddressConfig) : Prop :=
  ∃ pairs : List SeedSource, pairs.length = 16 ∧
    (∀ source ∈ pairs, source = .literal [] ∨ ∃ index, source = .key index) ∧
    config.toBytes = pairs.flatMap SeedSource.packed

namespace SeedReading

/-- The source at the index is the first that asks for a window of more than 32 bytes, and it asks
for `len`. -/
structure FirstLongWindow (reading : SeedReading) (index len : Nat) : Prop where
  window : ∃ seed, reading.sources[index]? = some seed ∧ seed.source.windowLength? = some len
  long : 32 < len
  first : ∀ seed ∈ reading.sources.take index, ∀ other ∈ seed.source.windowLength?, other ≤ 32

theorem size_le_packedSize {seeds : List PlacedSeed} {seed : PlacedSeed} (h : seed ∈ seeds) :
    seed.source.size ≤ packedSize seeds := by
  obtain ⟨before, later, rfl⟩ := List.append_of_mem h
  rw [packedSize_append, packedSize]
  omega

theorem packedSize_ofSpec_le (spec : Bytes) : packedSize (ofSpec spec).sources ≤ 32 := by
  have hstop := (laidOut_ofSpec spec).stop_le (Nat.zero_le _)
  have hlen : (spec.take 32).length ≤ 32 := List.length_take_le 32 spec
  omega

theorem size_le_of_mem_ofSpec {spec : Bytes} {seed : PlacedSeed}
    (h : seed ∈ (ofSpec spec).sources) : seed.source.size ≤ 32 :=
  Nat.le_trans (size_le_packedSize h) (packedSize_ofSpec_le spec)

/-- The first window that is too long is the first seed that is. -/
theorem firstLongWindow_ofSpec_iff {spec : Bytes} {index len : Nat} :
    (ofSpec spec).FirstLongWindow index len ↔ (ofSpec spec).seedLengths[index]? = some len ∧
      32 < len ∧ ∀ earlier ∈ (ofSpec spec).seedLengths.take index, earlier ≤ 32 := by
  have hearlier : (∀ earlier ∈ (ofSpec spec).seedLengths.take index, earlier ≤ 32) ↔
      ∀ seed ∈ (ofSpec spec).sources.take index, ∀ other ∈ seed.source.windowLength?,
        other ≤ 32 := by
    rw [seedLengths, ← List.map_take, List.forall_mem_map]
    refine forall₂_congr fun seed hmem => ?_
    have hsize := size_le_of_mem_ofSpec (List.mem_of_mem_take hmem)
    exact (SeedSource.forall_windowLength?_le_iff hsize).symm
  rw [hearlier, seedLengths, List.getElem?_map, Option.map_eq_some_iff]
  constructor
  · rintro ⟨⟨seed, hseed, hwindow⟩, hlong, hfirst⟩
    exact ⟨⟨seed, hseed, SeedSource.seedLength_of_windowLength? hwindow⟩, hlong, hfirst⟩
  · rintro ⟨⟨seed, hseed, rfl⟩, hlong, hfirst⟩
    have hsize := size_le_of_mem_ofSpec (List.mem_of_getElem? hseed)
    exact ⟨⟨seed, hseed, SeedSource.windowLength?_of_long hsize hlong⟩, hlong, hfirst⟩

/-- Where sources take two bytes each on the whole, every one does. -/
theorem size_eq_two_of_packedSize_le {seeds : List PlacedSeed}
    (h : packedSize seeds ≤ 2 * seeds.length) : ∀ seed ∈ seeds, seed.source.size = 2 := by
  induction seeds with
  | nil => exact nofun
  | cons seed later ih =>
    rw [packedSize, List.length_cons] at h
    have hsize := seed.source.two_le_size
    have hlater := two_mul_length_le_packedSize later
    exact List.forall_mem_cons.2 ⟨by omega, ih (by omega)⟩

/-- **A config holds sixteen sources** iff it is nothing but sources of two bytes. -/
theorem length_sources_eq_sixteen_iff {config : AddressConfig} :
    (ofSpec config.toBytes).sources.length = 16 ↔ config.IsSixteenPairs := by
  constructor
  · intro h
    have hle := packedSize_ofSpec_le config.toBytes
    have hge := two_mul_length_le_packedSize (ofSpec config.toBytes).sources
    have hsizes := size_eq_two_of_packedSize_le (Nat.le_trans hle (by omega) :
      packedSize (ofSpec config.toBytes).sources ≤ 2 * (ofSpec config.toBytes).sources.length)
    have hbytes := (laidOut_ofSpec config.toBytes).flatMap_packed
    have hfull : packedSize (ofSpec config.toBytes).sources = 32 := by omega
    rw [List.drop_zero, List.take_take, hfull, Nat.min_self,
      List.take_of_length_le (Nat.le_of_eq config.length_toBytes)] at hbytes
    refine ⟨(ofSpec config.toBytes).sources.map PlacedSeed.source, by rw [List.length_map, h], ?_,
      hbytes.symm⟩
    intro source hmem
    obtain ⟨seed, hseed, rfl⟩ := List.mem_map.1 hmem
    exact SeedSource.size_eq_two_iff.1 (hsizes seed hseed)
  · rintro ⟨pairs, hlength, -, hbytes⟩
    have hfull : (pairs.flatMap SeedSource.packed).length = 32 := by
      rw [← hbytes, config.length_toBytes]
    have hpack : SeedSource.pack pairs = .ok config := by
      apply SeedSource.pack_eq_ok_iff.2
      rw [hfull]
      exact ⟨Nat.le_refl 32, by rw [hbytes, Nat.sub_self, List.replicate_zero, List.append_nil]⟩
    rw [ofSpec_pack hpack, ← hlength, ← List.length_map (f := PlacedSeed.source),
      SeedSource.map_source_placed]

end SeedReading

/-! ## The limits -/

section
variable {spec : Bytes} {seeds : List Bytes}
  (h : seeds.map List.length = (SeedReading.ofSpec spec).seedLengths)
include h

theorem length_of_seedLengths : seeds.length = (SeedReading.ofSpec spec).sources.length := by
  have hlength := congrArg List.length h
  rwa [SeedReading.seedLengths, List.length_map, List.length_map] at hlength

theorem length_of_seedLengths_getElem? {index : Nat} {seed : PlacedSeed} {bytes : Bytes}
    (hseed : (SeedReading.ofSpec spec).sources[index]? = some seed)
    (hbytes : seeds[index]? = some bytes) : bytes.length = seed.source.seedLength := by
  have hat : (seeds.map List.length)[index]? = (SeedReading.ofSpec spec).seedLengths[index]? := by
    rw [h]
  rw [SeedReading.seedLengths, List.getElem?_map, List.getElem?_map, hseed, hbytes] at hat
  exact Option.some.inj hat

theorem exists_source_of_mem_seeds {bytes : Bytes} (hmem : bytes ∈ seeds) :
    ∃ seed ∈ (SeedReading.ofSpec spec).sources, seed.source.seedLength = bytes.length := by
  have hlength := List.mem_map_of_mem (f := List.length) hmem
  rw [h] at hlength
  exact List.mem_map.1 hlength

/-- **The seed that is too long** is the first that stands for a window of more than 32 bytes. -/
theorem checkLimits_seeds_eq_seedTooLong_iff {index len : Nat} :
    checkLimits seeds = .error (.seedTooLong index len) ↔
      (SeedReading.ofSpec spec).sources.length < 16 ∧
        (SeedReading.ofSpec spec).FirstLongWindow index len := by
  rw [checkLimits_eq_seedTooLong_iff, length_of_seedLengths h,
    SeedReading.firstLongWindow_ofSpec_iff, ← h]
  simp only [List.getElem?_map, Option.map_eq_some_iff, ← List.map_take, List.forall_mem_map]

end

/-- **There are too many seeds** iff they are sixteen, which take the whole config. -/
theorem checkLimits_seeds_eq_tooManySeeds_iff {config : AddressConfig} {seeds : List Bytes}
    (h : seeds.map List.length = (SeedReading.ofSpec config.toBytes).seedLengths) {count : Nat} :
    checkLimits seeds = .error (.tooManySeeds count) ↔ config.IsSixteenPairs ∧ count = 16 := by
  rw [checkLimits_eq_tooManySeeds_iff, length_of_seedLengths h,
    ← SeedReading.length_sources_eq_sixteen_iff]
  have hle := SeedReading.length_sources_ofSpec_le config.toBytes
  omega

/-! ## Records -/

namespace SeedContext

variable (ctx : SeedContext) (gatingProgram : Address)

/-- A record is refused for a limit iff it has a program, its seeds can be read, and they break the
limit. -/
theorem refused_record_iff {index : Nat} {record : Record} {program : Address}
    {cause : DerivationError} {broken : Prop} (hderiver : ctx.deriver.ChecksLimits)
    (hcause : cause ≠ .noBump)
    (hbroken : ∀ seeds, ctx.seeds record.config.toBytes = .ok seeds →
      (checkLimits seeds = .error cause ↔ broken)) :
    (ctx.record gatingProgram index record).value = .error (.underivable program cause) ↔
      record.program? gatingProgram ctx.scope.accounts = some program ∧
        (∃ seeds, ctx.seeds record.config.toBytes = .ok seeds) ∧ broken := by
  rw [(ctx.derives_record gatingProgram index record).refused_iff]
  constructor
  · rintro ⟨seeds, ⟨hprogram, hseeds⟩, hrefused⟩
    have hcheck := (hderiver.eq_error_iff hcause).1 hrefused
    exact ⟨hprogram, ⟨seeds, hseeds⟩, (hbroken seeds hseeds).1 hcheck⟩
  · rintro ⟨hprogram, ⟨seeds, hseeds⟩, h⟩
    have hcheck := (hbroken seeds hseeds).2 h
    exact ⟨seeds, ⟨hprogram, hseeds⟩, (hderiver.eq_error_iff hcause).2 hcheck⟩

/-- **The seed limits as a record meets them.** What reaches the deriver are the seeds of a record
that has a program and whose seeds can be read: at most sixteen of at most 255 bytes, and one of
more than 32 is a window. With a deriver that checks the limits first, there are too many seeds iff
the config is sixteen sources of two bytes. If there are fewer, a seed is too long iff the config
has a window of more than 32 bytes, and the first of these is reported. -/
theorem record_seed_limits (index : Nat) (record : Record) :
    (∀ program seeds, (program, seeds) ∈ (ctx.record gatingProgram index record).derivations ↔
      record.program? gatingProgram ctx.scope.accounts = some program ∧
        ctx.seeds record.config.toBytes = .ok seeds) ∧
    (∀ seeds, ctx.seeds record.config.toBytes = .ok seeds →
      seeds.length = (SeedReading.ofSpec record.config.toBytes).sources.length ∧
      seeds.length ≤ 16 ∧ (∀ bytes ∈ seeds, bytes.length ≤ 255) ∧
      ∀ (i : Nat) seed bytes,
        (SeedReading.ofSpec record.config.toBytes).sources[i]? = some seed →
        seeds[i]? = some bytes → 32 < bytes.length →
          seed.source.windowLength? = some bytes.length) ∧
    (ctx.deriver.ChecksLimits →
      (∀ program count, (ctx.record gatingProgram index record).value =
          .error (.underivable program (.tooManySeeds count)) ↔
        record.program? gatingProgram ctx.scope.accounts = some program ∧
          (∃ seeds, ctx.seeds record.config.toBytes = .ok seeds) ∧
          record.config.IsSixteenPairs ∧ count = 16) ∧
      ∀ program i len, (ctx.record gatingProgram index record).value =
          .error (.underivable program (.seedTooLong i len)) ↔
        record.program? gatingProgram ctx.scope.accounts = some program ∧
          (∃ seeds, ctx.seeds record.config.toBytes = .ok seeds) ∧
          (SeedReading.ofSpec record.config.toBytes).sources.length < 16 ∧
          (SeedReading.ofSpec record.config.toBytes).FirstLongWindow i len) := by
  refine ⟨(ctx.derives_record gatingProgram index record).mem_iff, ?_,
    fun hderiver => ⟨?_, ?_⟩⟩
  · intro seeds hseeds
    have hlengths := map_length_of_seeds hseeds
    have hlength := length_of_seedLengths hlengths
    refine ⟨hlength, hlength ▸ SeedReading.length_sources_ofSpec_le _, ?_, ?_⟩
    · intro bytes hmem
      obtain ⟨seed, hseed, heq⟩ := exists_source_of_mem_seeds hlengths hmem
      rw [← heq]
      exact SeedSource.seedLength_le (SeedReading.size_le_of_mem_ofSpec hseed)
    · intro i seed bytes hseed hbytes hlong
      have heq := length_of_seedLengths_getElem? hlengths hseed hbytes
      rw [heq] at hlong ⊢
      exact SeedSource.windowLength?_of_long
        (SeedReading.size_le_of_mem_ofSpec (List.mem_of_getElem? hseed)) hlong
  · intro program count
    exact ctx.refused_record_iff gatingProgram hderiver nofun fun seeds hseeds =>
      checkLimits_seeds_eq_tooManySeeds_iff (map_length_of_seeds hseeds)
  · intro program i len
    exact ctx.refused_record_iff gatingProgram hderiver nofun fun seeds hseeds =>
      checkLimits_seeds_eq_seedTooLong_iff (map_length_of_seeds hseeds)

end SeedContext

/-! ## Two records at the limits -/

namespace TwoLimits

def program : Address := .padded [20] (by decide)

def owner : Address := .padded [21, 22] (by decide)

/-- One account is known, and its data is sixty bytes long. -/
def context : SeedContext where
  prefetch := true
  scope.accounts := [{ address := owner, role := .readonly }]
  scope.data := List.replicate 50 23
  source := .fixed fun _ => some { data := List.replicate 60 24, owner }
  asked := []
  deriver := ProgramAddress.derive

/-- Keys and literals without bytes by turns. -/
def sixteen : Record where
  discriminator := 1
  config := ⟨[3, 0, 1, 0, 3, 0, 1, 0, 3, 0, 1, 0, 3, 0, 1, 0, 3, 0, 1, 0, 3, 0, 1, 0, 3, 0, 1, 0,
    3, 0, 1, 0], rfl⟩
  signerByte := 0
  writableByte := 1

/-- A literal, a key and a window of 32 bytes, then one of 40 and one of 33. -/
def long : Record where
  discriminator := 128
  config := .padded [1, 1, 25, 3, 0, 2, 5, 32, 4, 0, 20, 40, 2, 0, 33] (by decide)
  signerByte := 0
  writableByte := 0

def sixteenSeeds : List Bytes := (List.replicate 8 [owner.toBytes, []]).flatten

def longSeeds : List Bytes :=
  [[25], owner.toBytes, List.replicate 32 23, List.replicate 40 24, List.replicate 33 23]

theorem record_seed_limits_two_records :
    (context.record program 0 sixteen).value = .error (.underivable program (.tooManySeeds 16)) ∧
      (context.record program 1 long).value = .error (.underivable owner (.seedTooLong 3 40)) := by
  have hderiver : context.deriver.ChecksLimits := ProgramAddress.checksLimits_derive
  obtain ⟨hmany, -⟩ := (context.record_seed_limits program 0 sixteen).2.2 hderiver
  obtain ⟨-, hlong⟩ := (context.record_seed_limits program 1 long).2.2 hderiver
  constructor
  · refine (hmany program 16).2 ⟨rfl, ⟨sixteenSeeds, by decide +kernel⟩, ?_, rfl⟩
    exact ⟨(List.replicate 8 [.key 0, .literal []]).flatten, rfl, by simp, rfl⟩
  · refine (hlong owner 3 40).2 ⟨rfl, ⟨longSeeds, by decide +kernel⟩, by decide +kernel, ?_⟩
    exact ⟨⟨⟨8, .data 0 20 40⟩, by decide +kernel, rfl⟩, by decide, by decide +kernel⟩

end TwoLimits

end ExtraAccounts
