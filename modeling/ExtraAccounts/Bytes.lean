/-!
# Bytes

Byte strings are lists of bytes, and a `Block n` is one of exactly `n` bytes. This file holds the
windows that the formats read (`slice?`, `block?`) and little-endian numbers (`leNat`, `leBytes`).

* A window is read iff all of it lies inside the data; its end may be the end of the data.
* `leNat_leBytes`: writing `n` bytes keeps a number modulo `256 ^ n`, so nothing is lost below it.
* `leBytes_leNat`: bytes read as a number are written back as they were.
-/

namespace ExtraAccounts

/-- A string of bytes. -/
abbrev Bytes := List UInt8

/-- A string of exactly `n` bytes. -/
@[ext] structure Block (n : Nat) where
  toBytes : Bytes
  length_toBytes : toBytes.length = n
deriving DecidableEq

attribute [simp] Block.length_toBytes

namespace Block

def zero (n : Nat) : Block n := ⟨List.replicate n 0, by simp⟩

instance {n : Nat} : Inhabited (Block n) := ⟨zero n⟩

/-- The bytes as a block; `none` iff there are not exactly `n`. -/
def ofBytes? (n : Nat) (bytes : Bytes) : Option (Block n) :=
  if h : bytes.length = n then some ⟨bytes, h⟩ else none

/-- The bytes followed by zeros up to `n` in all. -/
def padded {n : Nat} (bytes : Bytes) (h : bytes.length ≤ n) : Block n :=
  ⟨bytes ++ List.replicate (n - bytes.length) 0, by simp; omega⟩

/-- A block of `n` bytes has a byte at every index below `n`. -/
instance {n : Nat} : GetElem (Block n) Nat UInt8 (fun _ i => i < n) where
  getElem b i h := b.toBytes.get ⟨i, by simpa using h⟩

theorem getElem_eq {n i : Nat} (b : Block n) (h : i < n) :
    b[i] = b.toBytes.get ⟨i, by simpa using h⟩ := rfl

/-- The `len` bytes from `offset` on. -/
def window {n : Nat} (b : Block n) (offset len : Nat) (h : offset + len ≤ n := by omega) : Block len :=
  ⟨(b.toBytes.drop offset).take len, by simp; omega⟩

theorem ofBytes?_eq_some_iff {n : Nat} {bytes : Bytes} {b : Block n} :
    ofBytes? n bytes = some b ↔ b.toBytes = bytes := by
  obtain ⟨l, hl⟩ := b
  by_cases h : bytes.length = n
  · simp [ofBytes?, h, eq_comm]
  · simp only [ofBytes?, h, dite_false, reduceCtorEq, false_iff]
    rintro rfl
    exact h hl

@[simp] theorem ofBytes?_toBytes {n : Nat} (b : Block n) : ofBytes? n b.toBytes = some b :=
  ofBytes?_eq_some_iff.2 rfl

end Block

namespace Bytes

/-- The bytes of an ASCII text. -/
def ofAscii (text : String) : Bytes := text.toList.map Char.toUInt8

/-! ## Windows -/

/-- The `len` bytes from `offset` on; `none` iff they run past the end. -/
def slice? (data : Bytes) (offset len : Nat) : Option Bytes :=
  if offset + len ≤ data.length then some ((data.drop offset).take len) else none

/-- The block of `n` bytes at `offset`; `none` iff it runs past the end. -/
def block? (n : Nat) (data : Bytes) (offset : Nat) : Option (Block n) :=
  if h : offset + n ≤ data.length then
    some ⟨(data.drop offset).take n, by simp only [List.length_take, List.length_drop]; omega⟩
  else none

theorem slice?_eq_some_iff {data window : Bytes} {offset len : Nat} :
    slice? data offset len = some window ↔
      offset + len ≤ data.length ∧ (data.drop offset).take len = window := by
  by_cases h : offset + len ≤ data.length <;> simp [slice?, h]

theorem slice?_eq_none_iff {data : Bytes} {offset len : Nat} :
    slice? data offset len = none ↔ data.length < offset + len := by
  by_cases h : offset + len ≤ data.length
  · simp [slice?, h]
  · simp [slice?, h]; omega

theorem length_of_slice?_eq_some {data window : Bytes} {offset len : Nat}
    (h : slice? data offset len = some window) : window.length = len := by
  obtain ⟨hle, rfl⟩ := slice?_eq_some_iff.1 h
  simp only [List.length_take, List.length_drop]
  omega

theorem block?_eq_some_iff {n : Nat} {data : Bytes} {offset : Nat} {b : Block n} :
    block? n data offset = some b ↔
      offset + n ≤ data.length ∧ (data.drop offset).take n = b.toBytes := by
  obtain ⟨l, hl⟩ := b
  by_cases h : offset + n ≤ data.length <;> simp [block?, h]

theorem block?_eq_none_iff {n : Nat} {data : Bytes} {offset : Nat} :
    block? n data offset = none ↔ data.length < offset + n := by
  by_cases h : offset + n ≤ data.length
  · simp [block?, h]
  · simp [block?, h]; omega

/-- A window stays where it is when more data follows. -/
theorem take_drop_of_isPrefix {data data' : Bytes} (hd : data <+: data') {offset len : Nat}
    (h : offset + len ≤ data.length) :
    (data'.drop offset).take len = (data.drop offset).take len := by
  obtain ⟨rest, rfl⟩ := hd
  rw [List.drop_append_of_le_length (by omega), List.take_append_of_le_length]
  rw [List.length_drop]
  omega

/-! ## Little-endian numbers -/

/-- The number whose base-256 digits are the bytes, least significant first. -/
def leNat : Bytes → Nat
  | [] => 0
  | byte :: rest => byte.toNat + 256 * leNat rest

/-- The `n` lowest base-256 digits of a number, least significant first. -/
def leBytes : Nat → Nat → Bytes
  | 0, _ => []
  | n + 1, value => UInt8.ofNat value :: leBytes n (value / 256)

@[simp] theorem length_leBytes (n value : Nat) : (leBytes n value).length = n := by
  induction n generalizing value with
  | zero => rfl
  | succ n ih => simp [leBytes, ih]

theorem leNat_leBytes (n value : Nat) : leNat (leBytes n value) = value % Nat.pow 256 n := by
  induction n generalizing value with
  | zero => simp [leBytes, leNat, Nat.mod_one]
  | succ n ih =>
    have hpow : Nat.pow 256 (n + 1) = 256 * Nat.pow 256 n := Nat.mul_comm (Nat.pow 256 n) 256
    simp only [leBytes, leNat, ih, UInt8.toNat_ofNat', Nat.reducePow]
    rw [hpow, Nat.mod_mul]

theorem leNat_lt (bytes : Bytes) : leNat bytes < Nat.pow 256 bytes.length := by
  induction bytes with
  | nil => simp [leNat]
  | cons byte rest ih =>
    have hbyte := byte.toNat_lt
    have hpow : Nat.pow 256 (rest.length + 1) = 256 * Nat.pow 256 rest.length :=
      Nat.mul_comm (Nat.pow 256 rest.length) 256
    rw [leNat, List.length_cons, hpow]
    omega

theorem leBytes_leNat (bytes : Bytes) : leBytes bytes.length (leNat bytes) = bytes := by
  induction bytes with
  | nil => rfl
  | cons byte rest ih =>
    have := byte.toNat_lt
    have hdiv : (byte.toNat + 256 * leNat rest) / 256 = leNat rest := by omega
    have hhead : UInt8.ofNat (byte.toNat + 256 * leNat rest) = byte := by
      apply UInt8.toNat_inj.1
      simp only [UInt8.toNat_ofNat', Nat.reducePow]
      omega
    simp [leNat, leBytes, hdiv, hhead, ih]

end Bytes

end ExtraAccounts
