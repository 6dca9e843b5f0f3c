import ExtraAccounts.Proofs.SeedGrammar

/-!
# Packing and reading are inverse

Sources are packed iff they take at most 32 bytes in all, and the only refusal says how many they
take (`SeedSource.pack_eq_error_iff`). A config can also be filled in place: `SeedSource.write?`
goes over the sources with a cursor and writes each into the window of its size. Packed sources
leave no window past the end, and filling zeros gives what packing gives (`write?_of_pack`).

What a reader of a config yields is its reading (`SeedReader.yieldsOnly_iff`). So packed sources
come back as they were, and the sources of a config that reads without a fault, packed again, are
its bytes up to where the run ends and zeros after that (`pack_of_ofSpec`). Both directions are in
`SeedSource.pack_read_inverse`.
-/

namespace ExtraAccounts

/-! ## Writing in place -/

namespace Bytes

/-- The bytes with the `len` ones from `offset` on replaced; `none` iff those run past the end or
the replacement is not of that length. -/
def replace? (bytes : Bytes) (offset len : Nat) (replacement : Bytes) : Option Bytes :=
  if offset + len ≤ bytes.length ∧ replacement.length = len then
    some (bytes.take offset ++ replacement ++ bytes.drop (offset + len))
  else none

theorem replace?_append {offset len : Nat} {front room replacement : Bytes}
    (hoffset : offset = front.length) (hroom : room.length = len)
    (hreplacement : replacement.length = len) (later : Bytes) :
    (front ++ (room ++ later)).replace? offset len replacement =
      some (front ++ (replacement ++ later)) := by
  subst hoffset hroom
  have hdrop : (front ++ (room ++ later)).drop (front.length + room.length) = later := by
    rw [← List.append_assoc]
    exact List.drop_left' List.length_append
  rw [replace?, if_pos ⟨by simp, hreplacement⟩, hdrop, List.take_left, List.append_assoc]

end Bytes

namespace SeedSource

/-- Writes the sources over the bytes, each where the one before it ends: its tag, and its operands
in the rest of its size. `none` iff some write is out of range. -/
def write? : (bytes : Bytes) → (cursor : Nat) → List SeedSource → Option Bytes
  | bytes, _, [] => some bytes
  | bytes, cursor, source :: later => do
    let bytes ← bytes.replace? cursor 1 [source.tag]
    let bytes ← bytes.replace? (cursor + 1) (source.size - 1) source.operands
    write? bytes (cursor + source.size) later

theorem length_operands (source : SeedSource) : source.operands.length = source.size - 1 := by
  have h := source.length_packed
  rw [packed, List.length_cons] at h
  omega

/-- **One source**: where there is room for it after the cursor, both of its writes are in range. -/
theorem write?_cons {front room : Bytes} {source : SeedSource} (h : room.length = source.size)
    (later : List SeedSource) (rest : Bytes) :
    write? (front ++ (room ++ rest)) front.length (source :: later) =
      write? (front ++ source.packed ++ rest) (front ++ source.packed).length later := by
  have hsize := source.two_le_size
  obtain ⟨first, room, rfl⟩ := List.exists_cons_of_length_pos (show 0 < room.length by omega)
  rw [List.length_cons] at h
  have htag : (front ++ ([first] ++ (room ++ rest))).replace? front.length 1 [source.tag] =
      some (front ++ ([source.tag] ++ (room ++ rest))) :=
    Bytes.replace?_append rfl (List.length_singleton) (List.length_singleton) _
  have hoperands : (front ++ ([source.tag] ++ (room ++ rest))).replace? (front.length + 1)
      (source.size - 1) source.operands =
        some (front ++ [source.tag] ++ (source.operands ++ rest)) := by
    rw [← List.append_assoc]
    exact Bytes.replace?_append List.length_append.symm (by omega) source.length_operands rest
  have hbytes : front ++ [source.tag] ++ (source.operands ++ rest) =
      front ++ source.packed ++ rest := by
    simp [packed]
  rw [write?]
  change (front ++ ([first] ++ (room ++ rest))).replace? front.length 1 [source.tag] >>= _ = _
  rw [htag, Option.bind_eq_bind, Option.bind_some, hoperands, hbytes, Option.bind_some,
    List.length_append, length_packed]

/-- **A run of sources**: written over zeros, the sources stand back to back, and the rest is still
zero. -/
theorem write?_zeros (front : Bytes) {sources : List SeedSource} {room : Nat}
    (h : (sources.flatMap packed).length ≤ room) :
    write? (front ++ List.replicate room 0) front.length sources =
      some (front ++ sources.flatMap packed ++
        List.replicate (room - (sources.flatMap packed).length) 0) := by
  induction sources generalizing front room with
  | nil => simp [write?]
  | cons source later ih =>
    rw [List.flatMap_cons, List.length_append, length_packed] at h
    have hroom : List.replicate room (0 : UInt8) =
        List.replicate source.size 0 ++ List.replicate (room - source.size) 0 := by
      rw [List.replicate_append_replicate, Nat.add_sub_of_le (by omega)]
    rw [hroom, write?_cons List.length_replicate, ih (front ++ source.packed) (by omega),
      List.flatMap_cons, List.length_append, length_packed, Nat.sub_sub, List.append_assoc front]

/-! ## What is packed -/

/-- How many bytes the sources take in all. -/
def totalSize : List SeedSource → Nat
  | [] => 0
  | source :: later => source.size + totalSize later

theorem length_flatMap_packed (sources : List SeedSource) :
    (sources.flatMap packed).length = totalSize sources := by
  induction sources with
  | nil => rfl
  | cons source later ih =>
    rw [List.flatMap_cons, List.length_append, length_packed, ih, totalSize]

theorem exists_pack_iff {sources : List SeedSource} :
    (∃ config, pack sources = .ok config) ↔ totalSize sources ≤ 32 := by
  rw [← length_flatMap_packed, pack]
  split
  · rename_i h
    exact ⟨fun _ => h, fun _ => ⟨_, rfl⟩⟩
  · rename_i h
    constructor
    · rintro ⟨config, hconfig⟩
      cases hconfig
    · intro hle
      exact absurd hle h

theorem pack_eq_error_iff {sources : List SeedSource} {problem : PackError} :
    pack sources = .error problem ↔
      32 < totalSize sources ∧ problem = .configOverflow (totalSize sources) := by
  rw [← length_flatMap_packed, pack]
  split
  · rename_i h
    simp only [reduceCtorEq, false_iff, not_and]
    intro hlt
    exact absurd h (Nat.not_le_of_lt hlt)
  · rename_i h
    rw [Except.error.injEq, eq_comm]
    exact (and_iff_right (Nat.lt_of_not_le h)).symm

theorem write?_of_pack {sources : List SeedSource} {config : AddressConfig}
    (h : pack sources = .ok config) :
    write? (Block.zero 32).toBytes 0 sources = some config.toBytes := by
  obtain ⟨hfit, hbytes⟩ := pack_eq_ok_iff.1 h
  have hwrite := write?_zeros [] hfit
  rw [List.nil_append, List.nil_append, ← hbytes] at hwrite
  exact hwrite

/-! ## Places -/

theorem map_source_placed (cursor : Nat) (sources : List SeedSource) :
    (placed cursor sources).map PlacedSeed.source = sources := by
  induction sources generalizing cursor with
  | nil => rfl
  | cons source later ih => rw [placed, List.map_cons, ih]

theorem cursor_placed (start : Nat) (sources : List SeedSource) {i : Nat}
    (h : i < (placed start sources).length) :
    (placed start sources)[i].cursor = start + totalSize (sources.take i) := by
  induction sources generalizing start i with
  | nil => exact absurd h (Nat.not_lt_zero i)
  | cons source later ih =>
    cases i with
    | zero => rfl
    | succ i =>
      have hlater := ih (start + source.size) (Nat.lt_of_succ_lt_succ h)
      rw [List.take_succ_cons, totalSize, ← Nat.add_assoc]
      exact hlater

end SeedSource

/-! ## What is read -/

/-- The calls of the reader yield the seeds one by one, and nothing after them. -/
def SeedReader.YieldsOnly (reader : SeedReader) (seeds : List PlacedSeed) : Prop :=
  ∀ n, (reader.after n).next.1 = seeds[n]?.map .ok

namespace SeedReading

section
variable {reading : SeedReading} {window : Bytes} {start : Nat}

/-- Sources that are laid out stand at the places they have when packed. -/
theorem LaidOut.placed_eq (h : reading.LaidOut window start) :
    SeedSource.placed start (reading.sources.map PlacedSeed.source) = reading.sources := by
  obtain ⟨sources, fault⟩ := reading
  induction sources generalizing start with
  | nil => rfl
  | cons seed later ih =>
    obtain ⟨rfl, -, hlater⟩ := laidOut_cons.1 h
    exact congrArg (seed :: ·) (ih hlater)

/-- The bytes that the sources are laid out in are the packed sources. -/
theorem LaidOut.flatMap_packed (h : reading.LaidOut window start) :
    (reading.sources.map PlacedSeed.source).flatMap SeedSource.packed =
      (window.drop start).take (packedSize reading.sources) := by
  obtain ⟨sources, fault⟩ := reading
  induction sources generalizing start with
  | nil => rfl
  | cons seed later ih =>
    obtain ⟨-, hstands, hlater⟩ := laidOut_cons.1 h
    rw [List.map_cons, List.flatMap_cons, ih hlater, packedSize, List.take_add, List.drop_drop]
    exact congrArg (· ++ _) hstands.symm

end

theorem items_of_fault_eq_none {reading : SeedReading} (h : reading.fault = none) :
    reading.items = reading.sources.map .ok := by
  rw [items, h]
  exact List.append_nil _

/-- A config that reads without a fault is its sources packed, and whatever stands after them. -/
theorem pack_of_ofSpec (config : AddressConfig) :
    let stop := packedSize (ofSpec config.toBytes).sources
    ∃ packed, SeedSource.pack ((ofSpec config.toBytes).sources.map PlacedSeed.source) = .ok packed ∧
      packed.toBytes = config.toBytes.take stop ++ List.replicate (32 - stop) 0 := by
  intro stop
  have hwindow : config.toBytes.take 32 = config.toBytes :=
    List.take_of_length_le (Nat.le_of_eq config.length_toBytes)
  have hlaid := laidOut_ofSpec config.toBytes
  rw [hwindow] at hlaid
  have hstop : stop ≤ 32 := by
    have := hlaid.stop_le (Nat.zero_le _)
    rw [config.length_toBytes, Nat.zero_add] at this
    exact this
  have hbytes := hlaid.flatMap_packed
  rw [List.drop_zero] at hbytes
  have hlen : (config.toBytes.take stop).length = stop := by
    rw [List.length_take, config.length_toBytes, Nat.min_eq_left hstop]
  have hfit : (config.toBytes.take stop).length ≤ 32 := Nat.le_trans (Nat.le_of_eq hlen) hstop
  have hpadded : (Block.padded _ hfit).toBytes =
      config.toBytes.take stop ++ List.replicate (32 - stop) 0 :=
    congrArg (fun n => config.toBytes.take stop ++ List.replicate (32 - n) 0) hlen
  refine ⟨.padded _ hfit, ?_, hpadded⟩
  apply SeedSource.pack_eq_ok_iff.2
  rw [hbytes]
  exact ⟨hfit, rfl⟩

end SeedReading

namespace SeedReader

/-- **What a reader yields** are the seeds and nothing else iff they are all there is to read. -/
theorem yieldsOnly_iff {spec : Bytes} {seeds : List PlacedSeed} :
    (ofSpec spec).YieldsOnly seeds ↔
      SeedReading.ofSpec spec = { sources := seeds, fault := none } := by
  constructor
  · intro h
    have hitems : (SeedReading.ofSpec spec).items = seeds.map .ok := by
      apply List.ext_getElem?
      intro n
      rw [← (SeedReading.next_after_ofSpec spec n).1, h n, List.getElem?_map]
    generalize SeedReading.ofSpec spec = reading at hitems
    obtain ⟨sources, fault⟩ := reading
    cases fault with
    | some fault =>
      have hmem : Except.error fault ∈ seeds.map (Except.ok (ε := SeedFault)) := by
        rw [← hitems]
        exact List.mem_append_right _ (List.mem_singleton_self _)
      obtain ⟨seed, -, hseed⟩ := List.mem_map.1 hmem
      cases hseed
    | none =>
      rw [SeedReading.items_of_fault_eq_none rfl] at hitems
      obtain rfl : sources = seeds := (List.map_inj_right fun _ _ => Except.ok.inj).1 hitems
      rfl
  · intro h n
    rw [(SeedReading.next_after_ofSpec spec n).1, h, SeedReading.items_of_fault_eq_none rfl,
      List.getElem?_map]

theorem yieldsOnly_of_no_fault {spec : Bytes}
    (h : ∀ n fault, ((ofSpec spec).after n).next.1 ≠ some (.error fault)) :
    (ofSpec spec).YieldsOnly (SeedReading.ofSpec spec).sources := by
  apply yieldsOnly_iff.2
  cases hfault : (SeedReading.ofSpec spec).fault with
  | none => rw [← hfault]
  | some fault =>
    -- the fault is the item after the last source
    have hitem := (SeedReading.next_after_ofSpec spec (SeedReading.ofSpec spec).sources.length).1
    rw [SeedReading.items, hfault, List.getElem?_append_right (by simp)] at hitem
    simp at hitem
    exact absurd hitem (h _ fault)

end SeedReader

namespace SeedSource

/-- **Packing and reading are inverse.** Sources are packed iff they take at most 32 bytes in all,
and a refusal says how many they take. Filling a config in place with a cursor never goes out of
range and gives the same bytes. A reader of the packed sources yields these and nothing else, in
order, at the cursors where the ones before them end; so different sources are packed differently.
If a reader of a config meets no fault, the sources that it yields are packed into the bytes of the
config up to where it stops, with zeros after that, and are read from there again. -/
theorem pack_read_inverse :
    (∀ sources : List SeedSource,
      ((∃ config, pack sources = .ok config) ↔ totalSize sources ≤ 32) ∧
      (∀ problem, pack sources = .error problem ↔
        32 < totalSize sources ∧ problem = .configOverflow (totalSize sources)) ∧
      ∀ config, pack sources = .ok config →
        write? (Block.zero 32).toBytes 0 sources = some config.toBytes ∧
        ∃ seeds, (SeedReader.ofSpec config.toBytes).YieldsOnly seeds ∧
          seeds.map PlacedSeed.source = sources ∧
          ∀ i (h : i < seeds.length), seeds[i].cursor = totalSize (sources.take i)) ∧
    (∀ sources sources' config, pack sources = .ok config → pack sources' = .ok config →
      sources = sources') ∧
    ∀ config : AddressConfig,
      (∀ n fault, ((SeedReader.ofSpec config.toBytes).after n).next.1 ≠ some (.error fault)) →
      ∃ seeds stop packed, (SeedReader.ofSpec config.toBytes).YieldsOnly seeds ∧
        (∀ n, seeds.length ≤ n → ((SeedReader.ofSpec config.toBytes).after n).cursor = stop) ∧
        pack (seeds.map PlacedSeed.source) = .ok packed ∧
        packed.toBytes = config.toBytes.take stop ++ List.replicate (32 - stop) 0 ∧
        (SeedReader.ofSpec packed.toBytes).YieldsOnly seeds := by
  refine ⟨?_, ?_, ?_⟩
  · intro sources
    refine ⟨exists_pack_iff, fun problem => pack_eq_error_iff, ?_⟩
    intro config h
    refine ⟨write?_of_pack h, placed 0 sources,
      SeedReader.yieldsOnly_iff.2 (SeedReading.ofSpec_pack h), map_source_placed 0 sources, ?_⟩
    intro i hi
    rw [cursor_placed, Nat.zero_add]
  · intro sources sources' config h h'
    have hread := (SeedReading.ofSpec_pack h).symm.trans (SeedReading.ofSpec_pack h')
    have hplaced := congrArg SeedReading.sources hread
    rw [← map_source_placed 0 sources, ← map_source_placed 0 sources']
    exact congrArg (List.map PlacedSeed.source) hplaced
  · intro config h
    have hyields := SeedReader.yieldsOnly_of_no_fault h
    obtain ⟨packed, hpack, hbytes⟩ := SeedReading.pack_of_ofSpec config
    refine ⟨_, _, packed, hyields, ?_, hpack, hbytes, ?_⟩
    · intro n hn
      rw [(SeedReading.next_after_ofSpec config.toBytes n).2, List.take_of_length_le hn]
    · apply SeedReader.yieldsOnly_iff.2
      rw [SeedReading.ofSpec_pack hpack, (SeedReading.laidOut_ofSpec config.toBytes).placed_eq]

/-- A full config has no zero at its end: the literal takes all of the 32 bytes. -/
example : pack [.literal (List.replicate 30 7)] = .ok ⟨1 :: 30 :: List.replicate 30 7, rfl⟩ := by
  rfl

end SeedSource

end ExtraAccounts
