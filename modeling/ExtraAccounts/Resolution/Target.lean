import ExtraAccounts.Resolution.Scope

/-!
# Following a pointer

A pointer is followed to the 32 bytes it points at, in the instruction data or in the data of an
account known so far. Only the latter is fetched, and only once its index is known to be in range.
-/

namespace ExtraAccounts

/-- The address at an offset of the data. Fails iff its 32 bytes run past the end. -/
def addressAt (data : Bytes) (offset : UInt8) : Except Failure Address :=
  match data.block? 32 offset.toNat with
  | some address => .ok address
  | none => .error (.pointerOutOfBounds offset.toNat data.length)

/-- The address that a pointer spec points at. -/
def followPointer (scope : Scope) (spec : Bytes) : Resolution Address := do
  match Pointer.read spec with
  | .error cause => throw (.badPointer cause)
  | .ok (.argument offset) => ofExcept (addressAt scope.data offset)
  | .ok (.data index offset) =>
    match scope.address? index with
    | none => throw (.noSuchAccount index.toNat scope.accounts.length)
    | some address =>
      match ← Plan.fetch address with
      | none => throw (.noPointerAccount address)
      | some account => ofExcept (addressAt account.data offset)

end ExtraAccounts
