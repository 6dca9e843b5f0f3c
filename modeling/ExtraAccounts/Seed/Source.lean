import ExtraAccounts.AddressConfig

/-!
# Seed sources

A derived address is built from seeds, and a `SeedSource` says where one seed comes from. Packed,
a source is a tag byte followed by its operands:

* `1, len, bytes`: the `len` bytes that follow;
* `2, offset, len`: `len` bytes of the instruction data from `offset` on;
* `3, index`: the address of the account at `index`;
* `4, index, offset, len`: `len` bytes of that account's data from `offset` on.

Sources are packed back to back and padded with zeros to an address config. A zero where a tag is
due ends the run, so the padding reads as the end.
-/

namespace ExtraAccounts

/-- Where one seed of a derived address comes from. -/
inductive SeedSource where
  | literal (bytes : Bytes)
  | argument (offset len : UInt8)
  | key (index : UInt8)
  | data (index offset len : UInt8)
deriving DecidableEq, Repr

namespace SeedSource

def tag : SeedSource → UInt8
  | literal _ => 1
  | argument .. => 2
  | key _ => 3
  | data .. => 4

def operands : SeedSource → Bytes
  | literal bytes => UInt8.ofNat bytes.length :: bytes
  | argument offset len => [offset, len]
  | key index => [index]
  | data index offset len => [index, offset, len]

/-- The packed source: its tag and operands. -/
def packed (source : SeedSource) : Bytes := source.tag :: source.operands

def size : SeedSource → Nat
  | literal bytes => 2 + bytes.length
  | argument .. => 3
  | key _ => 2
  | data .. => 4

@[simp] theorem length_packed (source : SeedSource) : source.packed.length = source.size := by
  cases source <;> simp [packed, operands, size]
  omega

/-- Packs the sources back to back and pads with zeros; fails iff they take more than 32 bytes. -/
def pack (sources : List SeedSource) : Except PackError AddressConfig :=
  let bytes := sources.flatMap packed
  if h : bytes.length ≤ 32 then .ok (.padded bytes h)
  else .error (.configOverflow bytes.length)

end SeedSource

end ExtraAccounts
