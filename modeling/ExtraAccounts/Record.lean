import ExtraAccounts.Pointer
import ExtraAccounts.Role
import ExtraAccounts.Seed.Source

/-!
# Records

A record describes one extra account in 35 bytes: a discriminator, a 32-byte address config, a
signer byte and a writable byte. A flag is set iff its byte is `1`, but the bytes themselves are
kept, so that a record that was read is written back as it was.

The discriminator selects a `Strategy`: `0` takes the config as the address, `1` derives from seeds
under the gating program, `2` follows a pointer, and `128 + i` derives from seeds under the account
at index `i`. The others select none. A `Recipe` is the same choice before packing.

* `ofBlock_toBlock`, `toBlock_ofBlock`: the 35 bytes and the record determine each other.
* `strategy_eq_error_iff`: exactly the discriminators from `3` to `127` are refused.
-/

namespace ExtraAccounts

/-- The description of one extra account. -/
@[ext] structure Record where
  discriminator : UInt8
  config : AddressConfig
  /-- The account signs iff this is `1`. -/
  signerByte : UInt8
  /-- The account may be written to iff this is `1`. -/
  writableByte : UInt8
deriving DecidableEq

/-- How the address of a record is found. -/
inductive Strategy where
  /-- It is the given one. -/
  | literal (address : Address)
  /-- It is derived from seeds under the gating program. -/
  | seeds (spec : AddressConfig)
  /-- It is read where a pointer says. -/
  | pointer (spec : AddressConfig)
  /-- It is derived from seeds under the account at an index. -/
  | namespacedSeeds (index : UInt8) (spec : AddressConfig)
deriving DecidableEq

namespace Strategy

/-- The name of the strategy in log lines. -/
def name : Strategy → String
  | literal _ => "literal"
  | seeds _ => "seeds"
  | pointer _ => "pointer"
  | namespacedSeeds .. => "namespaced seeds"

/-- The 32 bytes that the strategy works on. -/
def payload : Strategy → AddressConfig
  | literal address => address
  | seeds spec | pointer spec | namespacedSeeds _ spec => spec

end Strategy

/-- A discriminator that selects no strategy. -/
structure UnknownDiscriminator where
  value : UInt8
deriving DecidableEq, Repr

instance : ToString UnknownDiscriminator where
  toString e := "invalid record discriminator " ++ toString e.value

/-- What a publisher asks for: how the address of an extra account is to be found. -/
inductive Recipe where
  | literal (address : Address)
  | seeds (sources : List SeedSource)
  | pointer (pointer : Pointer)
  | namespacedSeeds (index : UInt8) (sources : List SeedSource)
deriving DecidableEq

namespace Record

/-- A record with the given flags. -/
def make (discriminator : UInt8) (config : AddressConfig) (signer writable : Bool) : Record where
  discriminator
  config
  signerByte := if signer then 1 else 0
  writableByte := if writable then 1 else 0

/-- Packs a recipe. Fails iff its seed sources overflow the address config or its account index is
128 or more; the index is reported first. -/
def ofRecipe (recipe : Recipe) (signer writable : Bool) : Except PackError Record :=
  match recipe with
  | .literal address => .ok (make 0 address signer writable)
  | .seeds sources => return make 1 (← SeedSource.pack sources) signer writable
  | .pointer pointer => .ok (make 2 pointer.pack signer writable)
  | .namespacedSeeds index sources =>
    if 128 ≤ index then .error (.indexTooLarge index)
    else return make (128 + index) (← SeedSource.pack sources) signer writable

/-! ## Bytes -/

/-- The record that a block of 35 bytes holds. -/
def ofBlock (block : Block 35) : Record where
  discriminator := block[0]
  config := block.window 1 32
  signerByte := block[33]
  writableByte := block[34]

def toBytes (record : Record) : Bytes :=
  record.discriminator :: record.config.toBytes ++ [record.signerByte, record.writableByte]

@[simp] theorem length_toBytes (record : Record) : record.toBytes.length = 35 := by
  simp [toBytes]

def toBlock (record : Record) : Block 35 := ⟨record.toBytes, record.length_toBytes⟩

/-- The records in the first `35 * count` bytes; `none` iff the data is shorter than that. -/
def readMany : (count : Nat) → (data : Bytes) → Option (List Record)
  | 0, _ => some []
  | count + 1, data => do
    let block ← data.block? 35 0
    let later ← readMany count (data.drop 35)
    return ofBlock block :: later

/-! ## Accessors -/

def isSigner (record : Record) : Bool := record.signerByte == 1

def isWritable (record : Record) : Bool := record.writableByte == 1

def role (record : Record) : Role := .ofFlags record.isSigner record.isWritable

def strategy (record : Record) : Except UnknownDiscriminator Strategy :=
  match record.discriminator with
  | 0 => .ok (.literal record.config)
  | 1 => .ok (.seeds record.config)
  | 2 => .ok (.pointer record.config)
  | d => if 128 ≤ d then .ok (.namespacedSeeds (d - 128) record.config) else .error ⟨d⟩

/-! ## Lemmas -/

@[simp] theorem ofBlock_toBlock (record : Record) : ofBlock record.toBlock = record := by
  obtain ⟨d, config, s, w⟩ := record
  have hlen := config.length_toBytes
  ext
  · rfl
  · simp [ofBlock, toBlock, toBytes, Block.window]
  · simp only [ofBlock, toBlock, toBytes, Block.getElem_eq, List.get_eq_getElem]
    rw [List.getElem_append_right (by simp)]
    simp
  · simp only [ofBlock, toBlock, toBytes, Block.getElem_eq, List.get_eq_getElem]
    rw [List.getElem_append_right (by simp)]
    simp

@[simp] theorem toBlock_ofBlock (block : Block 35) : (ofBlock block).toBlock = block := by
  obtain ⟨l, hl⟩ := block
  refine Block.ext (List.ext_getElem (by simp [toBlock, hl]) fun i h _ => ?_)
  have hi : i < 35 := by simpa [toBlock] using h
  simp only [toBlock, toBytes, ofBlock, Block.getElem_eq, Block.window, List.get_eq_getElem]
  cases i with
  | zero => rfl
  | succ i =>
    simp only [List.cons_append, List.getElem_cons_succ]
    by_cases h32 : i < 32
    · rw [List.getElem_append_left (by simp; omega)]
      simp
    · rw [List.getElem_append_right (by simp; omega)]
      obtain rfl | rfl : i = 32 ∨ i = 33 := by omega
      · simp [hl]
      · simp [hl]

theorem strategy_eq_error_iff {record : Record} {e : UnknownDiscriminator} :
    record.strategy = .error e ↔
      e.value = record.discriminator ∧ 3 ≤ record.discriminator ∧ record.discriminator < 128 := by
  obtain ⟨d⟩ := e
  simp only [strategy]
  split
  · rename_i h; simp [h]
  · rename_i h; simp [h]
  · rename_i h; simp [h]
  · rename_i h0 h1 h2
    have h0 : record.discriminator.toNat ≠ 0 := fun h => h0 (UInt8.toNat_inj.1 h)
    have h1 : record.discriminator.toNat ≠ 1 := fun h => h1 (UInt8.toNat_inj.1 h)
    have h2 : record.discriminator.toNat ≠ 2 := fun h => h2 (UInt8.toNat_inj.1 h)
    by_cases h : 128 ≤ record.discriminator
    · simp only [h, if_true, reduceCtorEq, false_iff]
      simp only [UInt8.le_iff_toNat_le, UInt8.lt_iff_toNat_lt, UInt8.reduceToNat] at *
      omega
    · simp only [h, if_false, Except.error.injEq, UnknownDiscriminator.mk.injEq]
      simp only [UInt8.le_iff_toNat_le, UInt8.lt_iff_toNat_lt, UInt8.reduceToNat] at *
      constructor
      · rintro rfl
        exact ⟨rfl, by omega, by omega⟩
      · rintro ⟨rfl, -⟩
        rfl

end Record

end ExtraAccounts
