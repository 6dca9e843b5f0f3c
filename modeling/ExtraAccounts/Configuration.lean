import ExtraAccounts.Record

/-!
# Configurations

A gating program publishes its extra accounts in the data of a configuration account:

* bytes 0 to 7: a tag, which is not checked;
* bytes 8 to 11: the declared length, little endian, which must be `35 * count + 4`;
* bytes 12 to 15: the record count, little endian;
* from byte 16: the records of 35 bytes each. Bytes after the last one do not count.

`decode` checks in this order: the data holds the header, the declared length fits the count, the
data holds the records. `encode` writes the length modulo `2 ^ 32`.
-/

namespace ExtraAccounts

/-- The extra accounts that a gating program asks for. -/
structure Configuration where
  /-- Eight bytes that say what the account is. -/
  tag : Block 8 := .zero 8
  records : List Record := []
deriving DecidableEq, Inhabited

/-- Why data does not hold a configuration. -/
inductive DecodeError where
  | headerMissing (len : Nat)
  | wrongLength (declared expected : Nat)
  | recordsMissing (count available : Nat)
deriving DecidableEq, Repr

instance : ToString DecodeError where
  toString
    | .headerMissing len => s!"configuration data is {len} bytes, too short to hold the list header"
    | .wrongLength declared expected =>
      s!"declared length {declared} does not match {expected} expected for the record count"
    | .recordsMissing count available =>
      s!"{count} records declared but only {available} bytes follow the header"

namespace Configuration

/-- The length that must be declared for `count` records. -/
def declaredLength (count : Nat) : Nat := count * 35 + 4

def byteLength (configuration : Configuration) : Nat := 16 + configuration.records.length * 35

def push (configuration : Configuration) (record : Record) : Configuration :=
  { configuration with records := configuration.records ++ [record] }

/-- The number at one of the two header fields. -/
def headerField (data : Bytes) (offset : Nat) : Nat := Bytes.leNat ((data.drop offset).take 4)

/-- The configuration that the data holds. -/
def decode (data : Bytes) : Except DecodeError Configuration :=
  if h : data.length < 16 then .error (.headerMissing data.length)
  else
    let declared := headerField data 8
    let count := headerField data 12
    if declared ≠ declaredLength count then
      .error (.wrongLength declared (declaredLength count))
    else match Record.readMany count (data.drop 16) with
      | none => .error (.recordsMissing count (data.length - 16))
      | some records =>
        .ok { tag := ⟨data.take 8, by simp only [List.length_take]; omega⟩, records }

def encode (configuration : Configuration) : Bytes :=
  let count := configuration.records.length
  configuration.tag.toBytes ++ Bytes.leBytes 4 (declaredLength count) ++ Bytes.leBytes 4 count
    ++ configuration.records.flatMap Record.toBytes

@[simp] theorem length_encode (configuration : Configuration) :
    configuration.encode.length = configuration.byteLength := by
  have h : ∀ records : List Record, (records.flatMap Record.toBytes).length = records.length * 35 := by
    intro records
    induction records with
    | nil => rfl
    | cons record later ih => simp [ih]; omega
  simp [encode, byteLength, h]
  omega

end Configuration

end ExtraAccounts
