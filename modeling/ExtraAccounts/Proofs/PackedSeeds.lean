import ExtraAccounts.Seed.Reader

/-!
# Packed seed sources

Sources packed into an address config are read back from it: the same ones in the same order, each
at the cursor where its bytes start, and then the end of the run (`SeedReading.ofSpec_pack`). The
padding reads as the end, and so does a config that is full. A source reads back whatever follows
it (`SeedSource.read_packed`), so the run reads back one source at a time
(`SeedReading.collect_packed`).
-/

namespace ExtraAccounts

namespace SeedSource

/-- The sources at the cursors they have when packed back to back, the first at the given one. -/
def placed : (cursor : Nat) → List SeedSource → List PlacedSeed
  | _, [] => []
  | cursor, source :: later => { cursor, source } :: placed (cursor + source.size) later

theorem two_le_size (source : SeedSource) : 2 ≤ source.size := by
  cases source <;> simp [size]

/-- Sources fit a config iff they take at most 32 bytes, and zeros fill the rest. -/
theorem pack_eq_ok_iff {sources : List SeedSource} {config : AddressConfig} :
    pack sources = .ok config ↔ (sources.flatMap packed).length ≤ 32 ∧
      config.toBytes = sources.flatMap packed ++
        List.replicate (32 - (sources.flatMap packed).length) 0 := by
  unfold pack
  dsimp only
  split
  · rename_i h
    rw [Except.ok.injEq, Block.ext_iff, eq_comm]
    exact (and_iff_right h).symm
  · rename_i h
    simp only [reduceCtorEq, false_iff, not_and]
    intro hle
    exact absurd hle h

/-! ## One source -/

/-- A source reads back, whatever follows it. Its size bounds the length of a literal, which has one
byte. -/
theorem read_packed {source : SeedSource} (h : source.size ≤ 32) (cursor : Nat) (later : Bytes) :
    read cursor (source.packed ++ later) = .ok (some source) := by
  cases source with
  | literal bytes =>
    have hlen : (UInt8.ofNat bytes.length).toNat = bytes.length := by
      rw [size] at h
      rw [UInt8.toNat_ofNat']
      omega
    have hslice : Bytes.slice? (bytes ++ later) 0 bytes.length = some bytes := by
      apply Bytes.slice?_eq_some_iff.2
      simp
    simp [read, packed, tag, operands, ofOperands?, hlen, hslice]
  | argument offset len => rfl
  | key index => rfl
  | data index offset len => rfl

theorem read_zeros (cursor n : Nat) : read cursor (List.replicate n 0) = .ok none := by
  cases n <;> rfl

end SeedSource

/-! ## A run of sources -/

namespace SeedReading

theorem collect_packed {sources : List SeedSource} (n cursor : Nat) {steps : Nat}
    (hfit : (sources.flatMap SeedSource.packed).length ≤ 32)
    (hsteps : (sources.flatMap SeedSource.packed).length < steps) :
    collect steps { rest := sources.flatMap SeedSource.packed ++ List.replicate n 0, cursor } =
      { sources := SeedSource.placed cursor sources, fault := none } := by
  induction sources generalizing cursor steps with
  | nil =>
    obtain ⟨steps, rfl⟩ : ∃ k, steps = k + 1 := ⟨steps - 1, by omega⟩
    simp [collect, SeedReader.next, SeedSource.read_zeros, SeedSource.placed]
  | cons source later ih =>
    obtain ⟨steps, rfl⟩ : ∃ k, steps = k + 1 := ⟨steps - 1, by omega⟩
    rw [List.flatMap_cons, List.length_append, SeedSource.length_packed] at hfit hsteps
    have hsize := source.two_le_size
    have hread := SeedSource.read_packed (show source.size ≤ 32 by omega) cursor
      (later.flatMap SeedSource.packed ++ List.replicate n 0)
    have hrest : (source.packed ++ (later.flatMap SeedSource.packed ++ List.replicate n 0)).drop
        source.size = later.flatMap SeedSource.packed ++ List.replicate n 0 :=
      List.drop_left' source.length_packed
    rw [List.flatMap_cons, List.append_assoc, collect, SeedReader.next]
    simp only [hread, hrest, Bool.false_eq_true, if_false]
    rw [ih (cursor + source.size) (by omega) (by omega)]
    rfl

/-- **Packed sources are read back** in their order, at the cursors where they start. -/
theorem ofSpec_pack {sources : List SeedSource} {config : AddressConfig}
    (h : SeedSource.pack sources = .ok config) :
    ofSpec config.toBytes = { sources := SeedSource.placed 0 sources, fault := none } := by
  obtain ⟨hfit, hbytes⟩ := SeedSource.pack_eq_ok_iff.1 h
  have hlen := config.length_toBytes
  have htake : config.toBytes.take 32 = config.toBytes := List.take_of_length_le (by omega)
  rw [ofSpec, SeedReader.ofSpec]
  dsimp only
  rw [htake, hlen, hbytes]
  exact collect_packed _ 0 hfit (by omega)

end SeedReading

end ExtraAccounts
