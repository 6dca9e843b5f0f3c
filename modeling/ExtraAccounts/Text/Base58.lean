import ExtraAccounts.Bytes

/-!
# Base58

The text of a byte string: the bytes as one big-endian number in base 58, after one `1` for each
leading zero byte. The alphabet leaves out `0`, `O`, `I` and `l`.
-/

namespace ExtraAccounts.Base58

/-- The 58 digits in order of their value. -/
def alphabet : List Char := "123456789ABCDEFGHJKLMNPQRSTUVWXYZabcdefghijkmnopqrstuvwxyz".toList

/-- The digits of a number in base 58, most significant first; zero has none. -/
def digits (n : Nat) : List Nat :=
  if n = 0 then [] else digits (n / 58) ++ [n % 58]

theorem lt_of_mem_digits {n d : Nat} (h : d ∈ digits n) : d < 58 := by
  fun_induction digits n with
  | case1 => simp at h
  | case2 n _ ih =>
    rcases List.mem_append.1 h with h | h
    · exact ih h
    · rw [List.mem_singleton.1 h]
      exact Nat.mod_lt _ (by decide)

/-- The value of the bytes, most significant first. -/
def beNat (bytes : Bytes) : Nat :=
  bytes.foldl (fun value byte => 256 * value + byte.toNat) 0

/-- The base58 text of the bytes. -/
def encode (bytes : Bytes) : String :=
  let zeros := (bytes.takeWhile (· == 0)).length
  String.ofList (List.replicate zeros '1' ++ (digits (beNat bytes)).filterMap (alphabet[·]?))

end ExtraAccounts.Base58

namespace ExtraAccounts

/-- The identity of an account. -/
abbrev Address := Block 32

/-- Addresses are written in base58. -/
instance : ToString Address where
  toString address := Base58.encode address.toBytes

end ExtraAccounts
