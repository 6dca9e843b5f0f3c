import ExtraAccounts.AddressConfig

/-!
# Pointers

A pointer says where a 32-byte address is to be read. Packed, it is a tag byte and its operands,
followed by zeros:

* `1, offset`: in the instruction data, from `offset` on;
* `2, index, offset`: in the data of the account at `index`, from `offset` on.

`read_pack`: a packed pointer reads back, whatever follows the operands.
-/

namespace ExtraAccounts

/-- Where a 32-byte address is to be read. -/
inductive Pointer where
  | argument (offset : UInt8)
  | data (index offset : UInt8)
deriving DecidableEq, Repr

/-- Why no pointer can be read. -/
inductive PointerFault where
  | empty
  | unknownTag (tag : UInt8)
  | missingOperands (tag : UInt8)
deriving DecidableEq, Repr

instance : ToString PointerFault where
  toString
    | .empty => "pointer config is empty"
    | .unknownTag tag => s!"unknown pointer tag {tag}"
    | .missingOperands tag => s!"pointer tag {tag} is missing its operand bytes"

namespace Pointer

def tag : Pointer → UInt8
  | argument _ => 1
  | data .. => 2

def operands : Pointer → Bytes
  | argument offset => [offset]
  | data index offset => [index, offset]

/-- The pointer at the front of a spec; bytes after its operands do not count. -/
def read : Bytes → Except PointerFault Pointer
  | [] => .error .empty
  | tag :: operands =>
    match tag, operands with
    | 1, offset :: _ => .ok (.argument offset)
    | 2, index :: offset :: _ => .ok (.data index offset)
    | tag, _ => .error (if tag = 1 ∨ tag = 2 then .missingOperands tag else .unknownTag tag)

/-- The packed pointer: its tag and operands, padded with zeros. -/
def pack (pointer : Pointer) : AddressConfig :=
  .padded (pointer.tag :: pointer.operands) (by cases pointer <;> simp [operands])

@[simp] theorem read_pack (pointer : Pointer) : read pointer.pack.toBytes = .ok pointer := by
  cases pointer <;> rfl

end Pointer

end ExtraAccounts
