import ExtraAccounts.Text.Base58

/-!
# Maps keyed by address

An `AddressMap α` holds at most one value for each address. It is seen through `get?`; the lemmas
say what each operation does to that view, and `size` is the number of addresses with a value.
-/

namespace ExtraAccounts

/-- A finite map from addresses. -/
structure AddressMap (α : Type) where
  entries : List (Address × α)
  nodup : (entries.map Prod.fst).Nodup
deriving DecidableEq

namespace AddressMap

variable {α : Type}

instance : EmptyCollection (AddressMap α) where
  emptyCollection := { entries := [], nodup := List.nodup_nil }

instance : Inhabited (AddressMap α) := ⟨∅⟩

/-- The value of the address, if it has one. -/
def get? (m : AddressMap α) (address : Address) : Option α :=
  (m.entries.find? (fun entry => entry.1 = address)).map Prod.snd

/-- The number of addresses with a value. -/
def size (m : AddressMap α) : Nat := m.entries.length

def isEmpty (m : AddressMap α) : Bool := m.entries.isEmpty

def erase (m : AddressMap α) (address : Address) : AddressMap α where
  entries := m.entries.filter (fun entry => entry.1 ≠ address)
  nodup := List.Nodup.sublist (List.filter_sublist.map _) m.nodup

/-- The map in which the address has the value, whatever it had before. -/
def insert (m : AddressMap α) (address : Address) (value : α) : AddressMap α where
  entries := (address, value) :: (m.erase address).entries
  nodup := by
    refine List.nodup_cons.2 ⟨?_, (m.erase address).nodup⟩
    simp [erase]

/-- The map of the entries; a later one replaces an earlier one with its address. -/
def ofList (entries : List (Address × α)) : AddressMap α :=
  entries.foldl (fun m entry => m.insert entry.1 entry.2) ∅

@[simp] theorem get?_empty (address : Address) : (∅ : AddressMap α).get? address = none := rfl

@[simp] theorem get?_insert_self (m : AddressMap α) (address : Address) (value : α) :
    (m.insert address value).get? address = some value := by
  simp [get?, insert]

@[simp] theorem get?_erase_self (m : AddressMap α) (address : Address) :
    (m.erase address).get? address = none := by
  simp [get?, erase]

theorem get?_erase_of_ne (m : AddressMap α) {a b : Address} (h : a ≠ b) :
    (m.erase b).get? a = m.get? a := by
  simp only [get?, erase, List.find?_filter]
  congr 2
  funext entry
  by_cases he : entry.1 = a <;> simp [he, h]

theorem get?_insert_of_ne (m : AddressMap α) {a b : Address} (value : α) (h : a ≠ b) :
    (m.insert b value).get? a = m.get? a := by
  have hcons : (m.insert b value).get? a = (m.erase b).get? a := by
    simp [get?, insert, Ne.symm h]
  rw [hcons, get?_erase_of_ne m h]

theorem get?_insert (m : AddressMap α) (a b : Address) (value : α) :
    (m.insert b value).get? a = if a = b then some value else m.get? a := by
  split
  · rename_i h; subst h; simp
  · rename_i h; exact get?_insert_of_ne m value h

end AddressMap

end ExtraAccounts
