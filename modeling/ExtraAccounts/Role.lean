import ExtraAccounts.Text.Base58

/-!
# Roles and account metas

A `Role` says what an instruction may do with an account: sign with it, write to it, both or
neither. Bit 0 is the writable flag and bit 1 the signer flag, so merging two roles is a bitwise
or and only ever adds permissions. An `AccountMeta` is an address in a role.

* `isSigner_ofFlags`, `isWritable_ofFlags`: a role is its two flags, and `ofFlags_flags` is the
  way back.
* `isSigner_merge`, `isWritable_merge`: the flags of a merge are the disjunctions of the flags.
-/

namespace ExtraAccounts

/-- The permissions of an account in an instruction, in ascending order of their bits. -/
inductive Role where
  | readonly
  | writable
  | readonlySigner
  | writableSigner
deriving DecidableEq, Repr, Inhabited

namespace Role

/-- The role as two bits: writable below signer. -/
def bits : Role → UInt8
  | readonly => 0
  | writable => 1
  | readonlySigner => 2
  | writableSigner => 3

/-- The role of the two lowest bits; the others do not count. -/
def ofBits (bits : UInt8) : Role :=
  match bits.toNat % 4 with
  | 0 => readonly
  | 1 => writable
  | 2 => readonlySigner
  | _ => writableSigner

def ofFlags (signer writable : Bool) : Role :=
  match signer, writable with
  | false, false => .readonly
  | false, true => .writable
  | true, false => .readonlySigner
  | true, true => .writableSigner

def isSigner : Role → Bool
  | readonly | writable => false
  | readonlySigner | writableSigner => true

def isWritable : Role → Bool
  | readonly | readonlySigner => false
  | writable | writableSigner => true

/-- The role with the permissions of both. -/
def merge (r s : Role) : Role := ofBits (r.bits ||| s.bits)

/-- Roles are ordered by their bits. -/
instance : LE Role where
  le r s := r.bits ≤ s.bits

instance (r s : Role) : Decidable (r ≤ s) := inferInstanceAs (Decidable (r.bits ≤ s.bits))

def sort (roles : List Role) : List Role := roles.mergeSort (fun r s => decide (r ≤ s))

instance : ToString Role where
  toString
    | readonly => "Readonly"
    | writable => "Writable"
    | readonlySigner => "ReadonlySigner"
    | writableSigner => "WritableSigner"

@[simp] theorem ofBits_bits (r : Role) : ofBits r.bits = r := by cases r <;> rfl

@[simp] theorem isSigner_ofFlags (signer writable : Bool) :
    (ofFlags signer writable).isSigner = signer := by
  cases signer <;> cases writable <;> rfl

@[simp] theorem isWritable_ofFlags (signer writable : Bool) :
    (ofFlags signer writable).isWritable = writable := by
  cases signer <;> cases writable <;> rfl

@[simp] theorem ofFlags_flags (r : Role) : ofFlags r.isSigner r.isWritable = r := by
  cases r <;> rfl

@[simp] theorem isSigner_merge (r s : Role) : (r.merge s).isSigner = (r.isSigner || s.isSigner) := by
  cases r <;> cases s <;> rfl

@[simp] theorem isWritable_merge (r s : Role) :
    (r.merge s).isWritable = (r.isWritable || s.isWritable) := by
  cases r <;> cases s <;> rfl

end Role

/-- An account that an instruction names: its address and the role it plays. -/
structure AccountMeta where
  address : Address
  role : Role
deriving DecidableEq, Inhabited

/-- An account meta is written as its address followed by its role in parentheses. -/
instance : ToString AccountMeta where
  toString m := toString m.address ++ " (" ++ toString m.role ++ ")"

end ExtraAccounts
