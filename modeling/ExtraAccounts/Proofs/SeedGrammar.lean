import ExtraAccounts.Proofs.PackedSeeds

/-!
# The grammar of seed specs

`SeedReading.LaidOut` says, with no reader, what a run of sources is: packed sources stand back to
back in a window of bytes, and where they stop the run ends (`EndsAt`): well at the end of the window
or at a zero, and otherwise with a fault, at a tag that is not known or whose operands run past the
window.

A source stands at a cursor iff it is read there (`SeedSource.take_of_read`, `StandsAt.read_eq`), and
the run ends where no source is read (`endsAt_iff`). By induction on the sources, the reading that is
laid out from a cursor on is what a reader there collects, and what it yields call by call. For a
whole spec this is `SeedReading.ofSpec_by_grammar`.
-/

namespace ExtraAccounts

/-- A slice that ends within the first `n` bytes depends on no others. -/
theorem Bytes.take_drop_eq_of_take_eq {bytes other : Bytes} {n : Nat} (h : other.take n = bytes.take n)
    {offset len : Nat} (hle : offset + len ≤ n) :
    (other.drop offset).take len = (bytes.drop offset).take len := by
  have htake := congrArg (List.take (offset + len)) h
  rw [List.take_take, List.take_take, Nat.min_eq_left hle] at htake
  rw [List.take_drop, List.take_drop, htake]

/-! ## One source -/

namespace SeedSource

/-- The packed source stands in the window from the cursor on: its tag and its operands. -/
def StandsAt (source : SeedSource) (window : Bytes) (cursor : Nat) : Prop :=
  (window.drop cursor).take source.size = source.packed

/-- How many bytes the source at the front takes by its tag, and a literal by its length byte. An end
and a tag that is not known take one. -/
def claimedSize : Bytes → Nat
  | 1 :: len :: _ => 2 + len.toNat
  | [1] => 2
  | 2 :: _ => 3
  | 3 :: _ => 2
  | 4 :: _ => 4
  | _ => 1

theorem one_le_claimedSize (bytes : Bytes) : 1 ≤ claimedSize bytes := by
  unfold claimedSize
  split <;> omega

/-- The operands of a known tag are missing iff they run past the end. -/
theorem ofOperands?_eq_none_iff {tag : UInt8} (h1 : 1 ≤ tag) (h4 : tag ≤ 4) (operands : Bytes) :
    ofOperands? tag operands = none ↔
      (tag :: operands).length < claimedSize (tag :: operands) := by
  have hknown : tag = 1 ∨ tag = 2 ∨ tag = 3 ∨ tag = 4 := by grind
  rcases hknown with rfl | rfl | rfl | rfl
  · cases operands with
    | nil => simp [ofOperands?, claimedSize]
    | cons len rest =>
      simp only [ofOperands?, claimedSize, Option.map_eq_none_iff, Bytes.slice?_eq_none_iff,
        List.length_cons]
      omega
  · rcases operands with _ | ⟨offset, _ | ⟨len, rest⟩⟩ <;> simp [ofOperands?, claimedSize]
  · rcases operands with _ | ⟨index, rest⟩ <;> simp [ofOperands?, claimedSize]
  · rcases operands with _ | ⟨index, _ | ⟨offset, _ | ⟨len, rest⟩⟩⟩ <;>
      simp [ofOperands?, claimedSize]

theorem take_of_ofOperands? {tag : UInt8} {operands : Bytes} {source : SeedSource}
    (h : ofOperands? tag operands = some source) :
    (tag :: operands).take source.size = source.packed := by
  unfold ofOperands? at h
  split at h
  · rename_i len rest
    obtain ⟨bytes, hslice, rfl⟩ := Option.map_eq_some_iff.1 h
    have hlen := Bytes.length_of_slice?_eq_some hslice
    obtain ⟨-, hbytes⟩ := Bytes.slice?_eq_some_iff.1 hslice
    rw [size, Nat.add_comm, List.take_succ_cons, List.take_succ_cons, hlen, packed, tag, operands,
      hlen, UInt8.ofNat_toNat, ← hbytes, List.drop_zero]
  · cases h; rfl
  · cases h; rfl
  · cases h; rfl
  · cases h

/-! ## Reading at the front -/

/-- What a read can meet at a tag. -/
theorem read_cons_cases (cursor : Nat) (tag : UInt8) (operands : Bytes) :
    (tag = 0 ∧ read cursor (tag :: operands) = .ok none) ∨
      (5 ≤ tag ∧ read cursor (tag :: operands) = .error (.unknownTag cursor tag)) ∨
      (1 ≤ tag ∧ tag ≤ 4 ∧ ofOperands? tag operands = none ∧
        read cursor (tag :: operands) = .error (.missingOperands cursor tag)) ∨
      ∃ source, 1 ≤ tag ∧ tag ≤ 4 ∧ ofOperands? tag operands = some source ∧
        read cursor (tag :: operands) = .ok (some source) := by
  rw [read]
  by_cases h0 : tag = 0
  · left
    exact ⟨h0, if_pos h0⟩
  have h1 : 1 ≤ tag := by grind
  rw [if_neg h0]
  by_cases h4 : 4 < tag
  · right; left
    exact ⟨by grind, if_pos h4⟩
  have h4' : tag ≤ 4 := UInt8.not_lt.1 h4
  rw [if_neg h4]
  cases hop : ofOperands? tag operands with
  | none => right; right; left; exact ⟨h1, h4', rfl, rfl⟩
  | some source => right; right; right; exact ⟨source, h1, h4', rfl, rfl⟩

section
variable {cursor : Nat} {bytes : Bytes}

theorem read_eq_end_iff : read cursor bytes = .ok none ↔ bytes = [] ∨ bytes.head? = some 0 := by
  cases bytes with
  | nil => simp [read]
  | cons tag operands =>
    rcases read_cons_cases cursor tag operands with ⟨htag, hread⟩ | ⟨h5, hread⟩ |
      ⟨h1, h4, hop, hread⟩ | ⟨source, h1, h4, hop, hread⟩ <;> grind

theorem read_eq_unknownTag_iff {c : Nat} {t : UInt8} :
    read cursor bytes = .error (.unknownTag c t) ↔
      c = cursor ∧ bytes.head? = some t ∧ 5 ≤ t := by
  cases bytes with
  | nil => simp [read]
  | cons tag operands =>
    rcases read_cons_cases cursor tag operands with ⟨htag, hread⟩ | ⟨h5, hread⟩ |
      ⟨h1, h4, hop, hread⟩ | ⟨source, h1, h4, hop, hread⟩ <;> grind

theorem read_eq_missingOperands_iff {c : Nat} {t : UInt8} :
    read cursor bytes = .error (.missingOperands c t) ↔
      c = cursor ∧ bytes.head? = some t ∧ 1 ≤ t ∧ t ≤ 4 ∧ bytes.length < claimedSize bytes := by
  cases bytes with
  | nil => simp [read]
  | cons tag operands =>
    have hmissing := fun (h1 : 1 ≤ tag) h4 => ofOperands?_eq_none_iff h1 h4 operands
    rcases read_cons_cases cursor tag operands with ⟨htag, hread⟩ | ⟨h5, hread⟩ |
      ⟨h1, h4, hop, hread⟩ | ⟨source, h1, h4, hop, hread⟩ <;> grind

theorem take_of_read {source : SeedSource} (h : read cursor bytes = .ok (some source)) :
    bytes.take source.size = source.packed := by
  cases bytes with
  | nil => cases h
  | cons tag operands =>
    rcases read_cons_cases cursor tag operands with ⟨htag, hread⟩ | ⟨h5, hread⟩ |
      ⟨h1, h4, hop, hread⟩ | ⟨other, h1, h4, hop, hread⟩
    all_goals
      rw [hread] at h
      cases h
    exact take_of_ofOperands? hop

end

/-- A source that stands in the window ends in it. -/
theorem StandsAt.size_le {source : SeedSource} {window : Bytes} {cursor : Nat}
    (h : source.StandsAt window cursor) : cursor + source.size ≤ window.length := by
  have hlen := congrArg List.length h
  rw [List.length_take, List.length_drop, length_packed] at hlen
  have := source.two_le_size
  omega

/-- In a window of at most 32 bytes, the source that stands at a cursor is read there. -/
theorem StandsAt.read_eq {source : SeedSource} {window : Bytes} {cursor : Nat}
    (h : source.StandsAt window cursor) (hlen : window.length ≤ 32) :
    read cursor (window.drop cursor) = .ok (some source) := by
  have hle := h.size_le
  rw [← List.take_append_drop source.size (window.drop cursor), h]
  exact read_packed (by omega) cursor _

/-! ## The bytes a source is read from -/

theorem claimedSize_cons_of_ne {tag : UInt8} (h1 : tag ≠ 1) (operands : Bytes) :
    claimedSize (tag :: operands) = claimedSize [tag] := by
  unfold claimedSize
  grind

theorem claimedSize_take {bytes : Bytes} {n : Nat} (h : claimedSize bytes ≤ n) :
    claimedSize (bytes.take n) = claimedSize bytes := by
  obtain ⟨n, rfl⟩ : ∃ k, n = k + 1 := ⟨n - 1, by have := one_le_claimedSize bytes; omega⟩
  rcases bytes with _ | ⟨tag, _ | ⟨len, rest⟩⟩
  · rfl
  · simp
  · by_cases h1 : tag = 1
    · subst h1
      obtain ⟨n, rfl⟩ : ∃ k, n = k + 1 := ⟨n - 1, by simp only [claimedSize] at h; omega⟩
      rfl
    · rw [List.take_succ_cons, claimedSize_cons_of_ne h1, claimedSize_cons_of_ne h1 (len :: rest)]

theorem ofOperands?_append {tag : UInt8} {operands : Bytes} {source : SeedSource}
    (h : ofOperands? tag operands = some source) (later : Bytes) :
    ofOperands? tag (operands ++ later) = some source := by
  unfold ofOperands? at h
  split at h
  · rename_i len rest
    obtain ⟨bytes, hslice, rfl⟩ := Option.map_eq_some_iff.1 h
    obtain ⟨hle, hbytes⟩ := Bytes.slice?_eq_some_iff.1 hslice
    apply Option.map_eq_some_iff.2 ⟨bytes, Bytes.slice?_eq_some_iff.2 ⟨?_, ?_⟩, rfl⟩
    · exact Nat.le_trans hle (List.prefix_append rest later).length_le
    · rw [← hbytes]
      exact Bytes.take_drop_of_isPrefix (List.prefix_append rest later) hle
  · cases h; rfl
  · cases h; rfl
  · cases h; rfl
  · cases h

theorem ofOperands?_take {tag : UInt8} (h1 : 1 ≤ tag) (h4 : tag ≤ 4) {operands : Bytes} {n : Nat}
    (h : claimedSize (tag :: operands.take n) ≤ n + 1) :
    ofOperands? tag (operands.take n) = ofOperands? tag operands := by
  cases hop : ofOperands? tag (operands.take n) with
  | some source =>
    rw [← ofOperands?_append hop (operands.drop n), List.take_append_drop]
  | none =>
    -- Some operands are missing in the first `n` bytes, so there are no more bytes than those.
    have hmissing := (ofOperands?_eq_none_iff h1 h4 _).1 hop
    rw [List.length_cons, List.length_take] at hmissing
    rw [List.take_of_length_le (by omega)] at hop
    exact hop.symm

theorem read_take {cursor : Nat} {bytes : Bytes} {n : Nat} (h : claimedSize (bytes.take n) ≤ n) :
    read cursor (bytes.take n) = read cursor bytes := by
  obtain ⟨n, rfl⟩ : ∃ k, n = k + 1 := ⟨n - 1, by have := one_le_claimedSize (bytes.take n); omega⟩
  cases bytes with
  | nil => rfl
  | cons tag operands =>
    rw [List.take_succ_cons] at h ⊢
    rw [read, read]
    split
    · rfl
    · split
      · rfl
      · rename_i h0 h4
        rw [ofOperands?_take (by grind) (UInt8.not_lt.1 h4) h]

/-- What is read depends on no byte past the ones that the source at the front takes. -/
theorem read_congr {cursor : Nat} {bytes other : Bytes}
    (h : other.take (claimedSize bytes) = bytes.take (claimedSize bytes)) :
    read cursor other = read cursor bytes := by
  have hle : claimedSize (bytes.take (claimedSize bytes)) ≤ claimedSize bytes :=
    Nat.le_of_eq (claimedSize_take (Nat.le_refl _))
  calc read cursor other
    _ = read cursor (other.take (claimedSize bytes)) := (read_take (by rw [h]; exact hle)).symm
    _ = read cursor (bytes.take (claimedSize bytes)) := by rw [h]
    _ = read cursor bytes := read_take hle

/-! ## Reading in a window -/

section
variable {window : Bytes} {cursor : Nat} (hle : cursor ≤ window.length)
include hle

theorem read_drop_eq_end_iff :
    read cursor (window.drop cursor) = .ok none ↔
      cursor = window.length ∨ window[cursor]? = some 0 := by
  rw [read_eq_end_iff, List.head?_drop, List.drop_eq_nil_iff]
  have : window.length ≤ cursor ↔ cursor = window.length := by omega
  rw [this]

theorem read_drop_eq_missingOperands_iff {tag : UInt8} :
    read cursor (window.drop cursor) = .error (.missingOperands cursor tag) ↔
      window[cursor]? = some tag ∧ 1 ≤ tag ∧ tag ≤ 4 ∧
        window.length < cursor + claimedSize (window.drop cursor) := by
  rw [read_eq_missingOperands_iff, List.head?_drop, List.length_drop, Nat.sub_lt_iff_lt_add' hle]
  exact and_iff_right rfl

end

end SeedSource

namespace SeedReading

/-! ## The end of a run -/

/-- What the bytes at the cursor where the sources stop say of the fault: whether there is one, and
which. -/
structure EndsAt (window : Bytes) (cursor : Nat) (fault : Option SeedFault) : Prop where
  silent : fault = none ↔ cursor = window.length ∨ window[cursor]? = some 0
  unknownTag : ∀ tag, fault = some (.unknownTag cursor tag) ↔ window[cursor]? = some tag ∧ 5 ≤ tag
  missingOperands : ∀ tag, fault = some (.missingOperands cursor tag) ↔
    window[cursor]? = some tag ∧ 1 ≤ tag ∧ tag ≤ 4 ∧
      window.length < cursor + SeedSource.claimedSize (window.drop cursor)
  cursor : ∀ problem, fault = some problem → problem.cursor = cursor

/-- A run ends where no source is read, and as the read says. -/
theorem endsAt_iff {window : Bytes} {cursor : Nat} (hle : cursor ≤ window.length)
    {fault : Option SeedFault} :
    EndsAt window cursor fault ↔
      SeedSource.read cursor (window.drop cursor) = fault.elim (.ok none) .error := by
  constructor
  · intro h
    cases fault with
    | none => exact (SeedSource.read_drop_eq_end_iff hle).2 (h.silent.1 rfl)
    | some problem =>
      have hcursor := h.cursor problem rfl
      cases problem with
      | unknownTag c tag =>
        obtain rfl : c = cursor := hcursor
        obtain ⟨htag, h5⟩ := (h.unknownTag tag).1 rfl
        exact SeedSource.read_eq_unknownTag_iff.2 ⟨rfl, List.head?_drop.trans htag, h5⟩
      | missingOperands c tag =>
        obtain rfl : c = cursor := hcursor
        exact (SeedSource.read_drop_eq_missingOperands_iff hle).2 ((h.missingOperands tag).1 rfl)
  · intro h
    have hfault : ∀ other : Option SeedFault, fault = other ↔
        SeedSource.read cursor (window.drop cursor) = other.elim (.ok none) .error := by
      intro other
      rw [h]
      cases fault <;> cases other <;> simp
    refine ⟨?_, ?_, ?_, ?_⟩
    · rw [hfault]
      exact SeedSource.read_drop_eq_end_iff hle
    · intro tag
      rw [hfault, ← List.head?_drop]
      exact SeedSource.read_eq_unknownTag_iff.trans (and_iff_right rfl)
    · intro tag
      rw [hfault]
      exact SeedSource.read_drop_eq_missingOperands_iff hle
    · intro problem hproblem
      have hread := (hfault _).1 hproblem
      cases problem with
      | unknownTag c tag => exact (SeedSource.read_eq_unknownTag_iff.1 hread).1
      | missingOperands c tag => exact (SeedSource.read_eq_missingOperands_iff.1 hread).1

/-! ## A run laid out in a window -/

/-- How many bytes the sources take when packed. -/
def packedSize : List PlacedSeed → Nat
  | [] => 0
  | seed :: later => seed.source.size + packedSize later

theorem add_packedSize_cons (start : Nat) (seed : PlacedSeed) (later : List PlacedSeed) :
    start + packedSize (seed :: later) = start + seed.source.size + packedSize later :=
  (Nat.add_assoc _ _ _).symm

/-- The sources stand back to back in the window from `start` on, and the run ends after them. -/
structure LaidOut (reading : SeedReading) (window : Bytes) (start : Nat) : Prop where
  cursor : ∀ i (h : i < reading.sources.length),
    reading.sources[i].cursor = start + packedSize (reading.sources.take i)
  stands : ∀ seed ∈ reading.sources, seed.source.StandsAt window seed.cursor
  ends : EndsAt window (start + packedSize reading.sources) reading.fault

section
variable {window : Bytes} {start : Nat} {fault : Option SeedFault}

theorem laidOut_nil :
    LaidOut { sources := [], fault } window start ↔ EndsAt window start fault := by
  constructor
  · intro h
    exact h.ends
  · intro h
    exact { cursor := by simp, stands := by simp, ends := h }

theorem laidOut_cons {seed : PlacedSeed} {later : List PlacedSeed} :
    LaidOut { sources := seed :: later, fault } window start ↔
      seed.cursor = start ∧ seed.source.StandsAt window start ∧
        LaidOut { sources := later, fault } window (start + seed.source.size) := by
  have hsize := add_packedSize_cons start seed
  constructor
  · intro h
    have hstart : seed.cursor = start := h.cursor 0 (by simp)
    refine ⟨hstart, hstart ▸ h.stands seed (by simp), ?_, ?_, ?_⟩
    · intro i hi
      rw [← hsize]
      exact h.cursor (i + 1) (by simpa using hi)
    · intro other hmem
      exact h.stands other (List.mem_cons_of_mem seed hmem)
    · rw [← hsize]
      exact h.ends
  · intro ⟨hstart, hstands, hlater⟩
    refine ⟨?_, ?_, ?_⟩
    · intro i hi
      cases i with
      | zero => exact hstart
      | succ i =>
        have := hlater.cursor i (by simpa using hi)
        rw [← hsize] at this
        exact this
    · intro other hmem
      rcases List.mem_cons.1 hmem with rfl | hmem
      · rw [hstart]
        exact hstands
      · exact hlater.stands other hmem
    · have := hlater.ends
      rw [← hsize] at this
      exact this

end

end SeedReading

/-! ## Calls of a reader -/

namespace SeedReader

/-- The reader at a position in a window that has not ended. -/
def within (window : Bytes) (cursor : Nat) : SeedReader where
  rest := window.drop cursor
  cursor

/-- The reader after `n` calls of `next`. -/
def after (reader : SeedReader) : Nat → SeedReader
  | 0 => reader
  | n + 1 => reader.next.2.after n

/-- A reader that has ended yields nothing and stays as it is. -/
theorem next_of_ended {reader : SeedReader} (h : reader.ended = true) :
    reader.next = (none, reader) := by
  rw [next, if_pos h]

theorem after_of_ended {reader : SeedReader} (h : reader.ended = true) (n : Nat) :
    reader.after n = reader := by
  induction n with
  | zero => rfl
  | succ n ih => rw [after, next_of_ended h, ih]

section
variable {window : Bytes} {cursor : Nat}

theorem next_of_end {fault : Option SeedFault}
    (h : SeedSource.read cursor (window.drop cursor) = fault.elim (.ok none) .error) :
    (within window cursor).next =
      (fault.map .error, { within window cursor with ended := true }) := by
  cases fault <;> simp only [Option.elim_none, Option.elim_some] at h <;>
    simp [next, within, h]

theorem next_of_source {source : SeedSource}
    (h : SeedSource.read cursor (window.drop cursor) = .ok (some source)) :
    (within window cursor).next =
      (some (.ok { cursor, source }), within window (cursor + source.size)) := by
  simp [next, within, h, List.drop_drop]

end

end SeedReader

/-! ## What a reader yields -/

namespace SeedReading

/-- The sources, and after them the fault if there is one. -/
def items (reading : SeedReading) : List (Except SeedFault PlacedSeed) :=
  reading.sources.map .ok ++ (reading.fault.map .error).toList

theorem collect_of_end {window : Bytes} {cursor : Nat} {fault : Option SeedFault} (steps : Nat)
    (h : SeedSource.read cursor (window.drop cursor) = fault.elim (.ok none) .error) :
    collect (steps + 1) (SeedReader.within window cursor) = { sources := [], fault } := by
  rw [collect, SeedReader.next_of_end h]
  cases fault <;> rfl

/-- What a reader collects is laid out from its cursor on, if it has the steps to reach the end. -/
theorem laidOut_collect {window : Bytes} (steps : Nat) {cursor : Nat}
    (hle : cursor ≤ window.length) (hsteps : window.length < cursor + steps) :
    (collect steps (SeedReader.within window cursor)).LaidOut window cursor := by
  induction steps generalizing cursor with
  | zero => omega
  | succ steps ih =>
    have hends : ∀ fault : Option SeedFault,
        SeedSource.read cursor (window.drop cursor) = fault.elim (.ok none) .error →
          (collect (steps + 1) (SeedReader.within window cursor)).LaidOut window cursor := by
      intro fault hread
      rw [collect_of_end steps hread]
      exact laidOut_nil.2 ((endsAt_iff hle).2 hread)
    cases hread : SeedSource.read cursor (window.drop cursor) with
    | error problem => exact hends (some problem) hread
    | ok source =>
      cases source with
      | none => exact hends none hread
      | some source =>
        have hstands : source.StandsAt window cursor := SeedSource.take_of_read hread
        have hfits := hstands.size_le
        have hsize := source.two_le_size
        rw [collect, SeedReader.next_of_source hread]
        exact laidOut_cons.2 ⟨rfl, hstands, ih (by omega) (by omega)⟩

section
variable {window : Bytes} (hlen : window.length ≤ 32) {reading : SeedReading} {cursor : Nat}
  (hle : cursor ≤ window.length) (h : reading.LaidOut window cursor)
include hlen hle h

/-- A reading that is laid out from the cursor on is what the reader there collects. -/
theorem collect_of_laidOut {steps : Nat} (hsteps : window.length < cursor + steps) :
    collect steps (SeedReader.within window cursor) = reading := by
  obtain ⟨sources, fault⟩ := reading
  induction sources generalizing cursor steps with
  | nil =>
    obtain ⟨steps, rfl⟩ : ∃ k, steps = k + 1 := ⟨steps - 1, by omega⟩
    exact collect_of_end steps ((endsAt_iff hle).1 (laidOut_nil.1 h))
  | cons seed later ih =>
    obtain ⟨steps, rfl⟩ : ∃ k, steps = k + 1 := ⟨steps - 1, by omega⟩
    obtain ⟨rfl, hstands, hlater⟩ := laidOut_cons.1 h
    have hfits := hstands.size_le
    have hsize := seed.source.two_le_size
    have hcollect := ih hfits (show window.length < _ + steps by omega) hlater
    rw [collect, SeedReader.next_of_source (hstands.read_eq hlen)]
    simp only [hcollect]

/-- **What the calls of a reader yield**, one by one, and where each of them leaves its cursor. -/
theorem next_after_of_laidOut (n : Nat) :
    ((SeedReader.within window cursor).after n).next.1 = reading.items[n]? ∧
      ((SeedReader.within window cursor).after n).cursor =
        cursor + packedSize (reading.sources.take n) := by
  obtain ⟨sources, fault⟩ := reading
  induction sources generalizing cursor n with
  | nil =>
    have hnext := SeedReader.next_of_end ((endsAt_iff hle).1 (laidOut_nil.1 h))
    cases n with
    | zero =>
      rw [SeedReader.after, hnext]
      cases fault <;> exact ⟨rfl, rfl⟩
    | succ n =>
      rw [SeedReader.after, hnext, SeedReader.after_of_ended rfl, SeedReader.next_of_ended rfl]
      cases fault <;> exact ⟨rfl, by simp [packedSize, SeedReader.within]⟩
  | cons seed later ih =>
    obtain ⟨rfl, hstands, hlater⟩ := laidOut_cons.1 h
    have hnext := SeedReader.next_of_source (hstands.read_eq hlen)
    cases n with
    | zero =>
      rw [SeedReader.after, hnext]
      exact ⟨rfl, rfl⟩
    | succ n =>
      rw [SeedReader.after, hnext]
      obtain ⟨hitem, hcursor⟩ := ih hstands.size_le n hlater
      exact ⟨hitem, hcursor.trans (add_packedSize_cons _ seed _).symm⟩

end

/-! ## Positions -/

theorem packedSize_append (sources later : List PlacedSeed) :
    packedSize (sources ++ later) = packedSize sources + packedSize later := by
  induction sources with
  | nil => exact (Nat.zero_add _).symm
  | cons seed rest ih => rw [List.cons_append, packedSize, packedSize, ih, Nat.add_assoc]

theorem two_mul_length_le_packedSize (sources : List PlacedSeed) :
    2 * sources.length ≤ packedSize sources := by
  induction sources with
  | nil => exact Nat.le_refl 0
  | cons seed later ih =>
    have := seed.source.two_le_size
    rw [packedSize, List.length_cons]
    omega

/-- The cursors strictly increase. -/
theorem packedSize_take_lt {sources : List PlacedSeed} {i j : Nat} (hij : i < j)
    (hj : j ≤ sources.length) : packedSize (sources.take i) < packedSize (sources.take j) := by
  have hsplit := packedSize_append ((sources.take j).take i) ((sources.take j).drop i)
  rw [List.take_append_drop, List.take_take, Nat.min_eq_left (Nat.le_of_lt hij)] at hsplit
  have hlen : ((sources.take j).drop i).length = j - i := by
    rw [List.length_drop, List.length_take, Nat.min_eq_left hj]
  have := two_mul_length_le_packedSize ((sources.take j).drop i)
  omega

theorem LaidOut.stop_le {reading : SeedReading} {window : Bytes} {start : Nat}
    (h : reading.LaidOut window start) (hle : start ≤ window.length) :
    start + packedSize reading.sources ≤ window.length := by
  obtain ⟨sources, fault⟩ := reading
  induction sources generalizing start with
  | nil => exact hle
  | cons seed later ih =>
    obtain ⟨-, hstands, hlater⟩ := laidOut_cons.1 h
    have := ih hstands.size_le hlater
    rw [add_packedSize_cons]
    exact this

/-! ## The bytes a reading depends on -/

/-- A reading is laid out in every window that has the same bytes up to where it ends. -/
theorem LaidOut.of_take_eq {reading : SeedReading} {window other : Bytes} {start reach : Nat}
    (h : reading.LaidOut window start) (hle : start ≤ window.length)
    (hreach : start + packedSize reading.sources + SeedSource.claimedSize
      (window.drop (start + packedSize reading.sources)) ≤ reach)
    (htake : other.take reach = window.take reach) : reading.LaidOut other start := by
  obtain ⟨sources, fault⟩ := reading
  induction sources generalizing start with
  | nil =>
    change start + SeedSource.claimedSize (window.drop start) ≤ reach at hreach
    have hle' : start ≤ other.length := by
      have hlen := congrArg List.length htake
      rw [List.length_take, List.length_take] at hlen
      omega
    apply laidOut_nil.2
    apply (endsAt_iff hle').2
    rw [SeedSource.read_congr (Bytes.take_drop_eq_of_take_eq htake hreach)]
    exact (endsAt_iff hle).1 (laidOut_nil.1 h)
  | cons seed later ih =>
    obtain ⟨hcursor, hstands, hlater⟩ := laidOut_cons.1 h
    rw [add_packedSize_cons] at hreach
    refine laidOut_cons.2 ⟨hcursor, ?_, ih hstands.size_le hlater hreach⟩
    rw [SeedSource.StandsAt, Bytes.take_drop_eq_of_take_eq htake (by omega)]
    exact hstands

theorem laidOut_ofSpec (spec : Bytes) : (ofSpec spec).LaidOut (spec.take 32) 0 :=
  laidOut_collect _ (Nat.zero_le _) (by simp [SeedReader.ofSpec])

/-- A spec has one reading, the one that is laid out in its first 32 bytes. -/
theorem laidOut_iff_eq_ofSpec {spec : Bytes} {reading : SeedReading} :
    reading.LaidOut (spec.take 32) 0 ↔ reading = ofSpec spec := by
  constructor
  · intro h
    have hlen : (spec.take 32).length ≤ 32 := List.length_take_le 32 spec
    exact (collect_of_laidOut hlen (Nat.zero_le _) h (by simp [SeedReader.ofSpec])).symm
  · rintro rfl
    exact laidOut_ofSpec spec

/-- A reader of a spec yields the items of its reading, call by call. -/
theorem next_after_ofSpec (spec : Bytes) (n : Nat) :
    ((SeedReader.ofSpec spec).after n).next.1 = (ofSpec spec).items[n]? ∧
      ((SeedReader.ofSpec spec).after n).cursor = packedSize ((ofSpec spec).sources.take n) := by
  have hlen : (spec.take 32).length ≤ 32 := List.length_take_le 32 spec
  have hafter := next_after_of_laidOut hlen (Nat.zero_le _) (laidOut_ofSpec spec) n
  rw [Nat.zero_add] at hafter
  exact hafter

theorem length_sources_ofSpec_le (spec : Bytes) : (ofSpec spec).sources.length ≤ 16 := by
  have hstop := (laidOut_ofSpec spec).stop_le (Nat.zero_le _)
  have hlen : (spec.take 32).length ≤ 32 := List.length_take_le 32 spec
  have hsize := two_mul_length_le_packedSize (ofSpec spec).sources
  omega

/-- How many bytes of a spec its reading depends on: those up to the end or the fault, and of the
faulty source the ones that it claims. -/
def reach (spec : Bytes) : Nat :=
  let stop := packedSize (ofSpec spec).sources
  min 32 (stop + SeedSource.claimedSize ((spec.take 32).drop stop))

theorem ofSpec_eq_of_take_reach {spec other : Bytes}
    (h : other.take (reach spec) = spec.take (reach spec)) : ofSpec other = ofSpec spec := by
  refine (laidOut_iff_eq_ofSpec.1 ((laidOut_ofSpec spec).of_take_eq (Nat.zero_le _)
    (Nat.le_refl _) ?_)).symm
  rw [Nat.zero_add, List.take_take, List.take_take, Nat.min_comm]
  exact h

/-- **A spec is read by the grammar of seeds.** Its reading is the one that is laid out in its first
32 bytes. A reader yields that reading's items call by call and nothing after them, and its cursor
only moves past a source. There are at most 16 sources, each further on than the one before, and
bytes past the end, past the fault or past the first 32 make no difference. -/
theorem ofSpec_by_grammar (spec : Bytes) :
    (∀ reading : SeedReading, reading.LaidOut (spec.take 32) 0 ↔ reading = ofSpec spec) ∧
      (∀ n, ((SeedReader.ofSpec spec).after n).next.1 = (ofSpec spec).items[n]? ∧
        ((SeedReader.ofSpec spec).after n).cursor = packedSize ((ofSpec spec).sources.take n)) ∧
      (∀ i j, i < j → j ≤ (ofSpec spec).sources.length →
        packedSize ((ofSpec spec).sources.take i) < packedSize ((ofSpec spec).sources.take j)) ∧
      (ofSpec spec).sources.length ≤ 16 ∧
      ∀ other : Bytes, other.take (reach spec) = spec.take (reach spec) →
        ofSpec other = ofSpec spec := by
  refine ⟨?_, ?_, ?_, length_sources_ofSpec_le spec, ?_⟩
  · intro reading
    exact laidOut_iff_eq_ofSpec
  · intro n
    exact next_after_ofSpec spec n
  · intro i j hij hj
    exact packedSize_take_lt hij hj
  · intro other h
    exact ofSpec_eq_of_take_reach h

/-- The second source claims four bytes from cursor 3 on, of which only two are there. -/
example : ofSpec [2, 0, 8, 4, 1] =
    { sources := [{ cursor := 0, source := .argument 0 8 }],
      fault := some (.missingOperands 3 4) } := by
  decide

end SeedReading

end ExtraAccounts
