import ExtraAccounts.Seed.Source

/-!
# Reading seed sources

A `SeedReader` walks over the packed sources of a seed spec, one `next` at a time. It sees at most
the first 32 bytes of the spec. It ends at a zero tag, at the end of those bytes, or at the first
source that cannot be read; once it has ended it yields nothing more, and its cursor stays where
the end or the fault is. `SeedReading.ofSpec` is all that a reader yields: the sources with the
cursors they start at, and the fault, if there is one, after them.
-/

namespace ExtraAccounts

/-- Why no source can be read at a cursor. -/
inductive SeedFault where
  /-- The tag is none of the known ones. -/
  | unknownTag (cursor : Nat) (tag : UInt8)
  /-- The operands of the tag run past the end. -/
  | missingOperands (cursor : Nat) (tag : UInt8)
deriving DecidableEq, Repr

namespace SeedFault

def cursor : SeedFault → Nat
  | unknownTag cursor _ | missingOperands cursor _ => cursor

def tag : SeedFault → UInt8
  | unknownTag _ tag | missingOperands _ tag => tag

instance : ToString SeedFault where
  toString
    | .unknownTag cursor tag => s!"unknown seed tag {tag} at cursor {cursor}"
    | .missingOperands cursor tag =>
      s!"seed tag {tag} at cursor {cursor} runs past the end of the address config"

end SeedFault

/-- A seed source and the cursor it starts at. -/
structure PlacedSeed where
  cursor : Nat
  source : SeedSource
deriving DecidableEq, Repr

/-! ## One source -/

/-- The source with the given tag whose operands come first in `operands`; `none` iff the tag has no
source or its operands run past the end. -/
def SeedSource.ofOperands? (tag : UInt8) (operands : Bytes) : Option SeedSource :=
  match tag, operands with
  | 1, len :: rest => (Bytes.slice? rest 0 len.toNat).map .literal
  | 2, offset :: len :: _ => some (.argument offset len)
  | 3, index :: _ => some (.key index)
  | 4, index :: offset :: len :: _ => some (.data index offset len)
  | _, _ => none

/-- The source at the front of the bytes, which start at `cursor`; `none` at the end of the run. -/
def SeedSource.read (cursor : Nat) : Bytes → Except SeedFault (Option SeedSource)
  | [] => .ok none
  | tag :: operands =>
    if tag = 0 then .ok none
    else if 4 < tag then .error (.unknownTag cursor tag)
    else match SeedSource.ofOperands? tag operands with
      | some source => .ok (some source)
      | none => .error (.missingOperands cursor tag)

/-! ## A run of sources -/

/-- A position in a run of packed sources. -/
structure SeedReader where
  /-- The bytes from the cursor on. -/
  rest : Bytes
  cursor : Nat := 0
  /-- Whether the end or a fault has been met. -/
  ended : Bool := false
deriving DecidableEq

namespace SeedReader

/-- The reader at the start of a spec, of which it sees the first 32 bytes. -/
def ofSpec (spec : Bytes) : SeedReader where
  rest := spec.take 32

/-- What the reader yields next, and the reader after that. The cursor moves past a source that was
read; at the end and at a fault it stays. -/
def next (reader : SeedReader) : Option (Except SeedFault PlacedSeed) × SeedReader :=
  if reader.ended then (none, reader)
  else match SeedSource.read reader.cursor reader.rest with
    | .ok none => (none, { reader with ended := true })
    | .error fault => (some (.error fault), { reader with ended := true })
    | .ok (some source) =>
      (some (.ok { cursor := reader.cursor, source }),
        { reader with
          rest := reader.rest.drop source.size
          cursor := reader.cursor + source.size })

end SeedReader

/-- All that a reader yields: sources, then at most one fault. -/
structure SeedReading where
  sources : List PlacedSeed
  /-- The fault after them; `none` iff the run ends well. -/
  fault : Option SeedFault
deriving DecidableEq

namespace SeedReading

/-- What the reader yields in at most `steps` steps. -/
def collect : Nat → SeedReader → SeedReading
  | 0, _ => { sources := [], fault := none }
  | steps + 1, reader =>
    match reader.next with
    | (none, _) => { sources := [], fault := none }
    | (some (.error fault), _) => { sources := [], fault := some fault }
    | (some (.ok seed), after) =>
      let later := collect steps after
      { later with sources := seed :: later.sources }

/-- What a spec holds. Each source takes at least two bytes, so a reader has ended after one more
step than it has bytes left. -/
def ofSpec (spec : Bytes) : SeedReading :=
  let reader := SeedReader.ofSpec spec
  collect (reader.rest.length + 1) reader

end SeedReading

end ExtraAccounts
