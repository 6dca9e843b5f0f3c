import ExtraAccounts.Bytes

/-!
# Address configs

The address config of a record is the 32 bytes that say how its address is found: the address
itself, a run of packed seed sources, or a pointer. `PackError` lists the reasons why a description
does not fit into one.
-/

namespace ExtraAccounts

/-- The 32 bytes that say how an address is found. -/
abbrev AddressConfig := Block 32

/-- Why a description does not fit into a record. -/
inductive PackError where
  /-- The packed seed sources take `len` bytes, more than 32. -/
  | configOverflow (len : Nat)
  /-- A literal of `len` bytes has no length byte. -/
  | literalTooLong (len : Nat)
  /-- The account index does not fit into the seven bits beside the flag. -/
  | indexTooLarge (index : UInt8)
deriving DecidableEq, Repr

instance : ToString PackError where
  toString
    | .configOverflow len =>
      s!"packed seed configs take {len} bytes, more than the 32-byte address config"
    | .literalTooLong len => s!"literal seed of {len} bytes does not fit its u8 length prefix"
    | .indexTooLarge index =>
      s!"namespace account index {index} does not fit below the namespace flag"

end ExtraAccounts
