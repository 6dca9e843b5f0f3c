import ExtraAccounts.Text.Base58

/-!
# Seed limits

An address is derived from a program and at most 15 seeds of at most 32 bytes each; a sixteenth
place is left for the bump. `checkLimits` reports too many seeds before a seed that is too long, and
of those the first. `checkLimits_eq_ok_iff` says which lists pass, and
`checkLimits_eq_tooManySeeds_iff` and `checkLimits_eq_seedTooLong_iff` what is reported of others.
-/

namespace ExtraAccounts

/-- Why no address can be derived. -/
inductive DerivationError where
  /-- There are `count` seeds, which leaves no place for the bump. -/
  | tooManySeeds (count : Nat)
  /-- The seed at `index` has `len` bytes, more than 32. -/
  | seedTooLong (index len : Nat)
  /-- Every bump gives a point of the curve. -/
  | noBump
deriving DecidableEq, Repr

instance : ToString DerivationError where
  toString
    | .tooManySeeds count => s!"{count} seeds exceed the 15 allowed before the bump seed"
    | .seedTooLong index len => s!"seed {index} is {len} bytes, longer than 32"
    | .noBump => "no bump seed yields an address off the curve"

/-- Derives an address from a program and seeds. -/
abbrev Deriver := Address → List Bytes → Except DerivationError Address

/-- Succeeds iff there are at most 15 seeds of at most 32 bytes each. -/
def checkLimits (seeds : List Bytes) : Except DerivationError Unit :=
  if 16 ≤ seeds.length then .error (.tooManySeeds seeds.length)
  else match seeds.zipIdx.find? (fun (seed, _) => 32 < seed.length) with
    | some (seed, index) => .error (.seedTooLong index seed.length)
    | none => .ok ()

theorem checkLimits_eq_ok_iff {seeds : List Bytes} :
    checkLimits seeds = .ok () ↔ seeds.length ≤ 15 ∧ ∀ seed ∈ seeds, seed.length ≤ 32 := by
  unfold checkLimits
  split
  · simp; omega
  · split
    · rename_i seed index h
      have hmem := List.mem_of_find?_eq_some h
      have hlong := List.find?_some h
      simp only [reduceCtorEq, false_iff, not_and]
      intro _ hall
      have := hall seed (List.fst_mem_of_mem_zipIdx hmem)
      simp at hlong
      omega
    · rename_i h
      simp only [List.find?_eq_none, decide_eq_true_eq, true_iff] at h ⊢
      refine ⟨by omega, fun seed hmem => ?_⟩
      obtain ⟨i, hi, rfl⟩ := List.getElem_of_mem hmem
      have := h (seeds[i], i) (List.mk_mem_zipIdx_iff_getElem?.2 (by simp [hi]))
      simp at this
      exact this

theorem checkLimits_eq_tooManySeeds_iff {seeds : List Bytes} {count : Nat} :
    checkLimits seeds = .error (.tooManySeeds count) ↔
      16 ≤ seeds.length ∧ count = seeds.length := by
  unfold checkLimits
  split
  · rename_i h
    simp [h, eq_comm]
  · rename_i h
    split <;> simp [h]

/-- What the search for a seed that is too long finds: the first one, and its index. -/
theorem find?_tooLong_eq_some_iff {seeds : List Bytes} {seed : Bytes} {index : Nat} :
    seeds.zipIdx.find? (fun (seed, _) => 32 < seed.length) = some (seed, index) ↔
      seeds[index]? = some seed ∧ 32 < seed.length ∧
        ∀ earlier ∈ seeds.take index, earlier.length ≤ 32 := by
  rw [List.find?_eq_some_iff_getElem]
  simp only [List.getElem_zipIdx, Prod.mk.injEq, Nat.zero_add, List.length_zipIdx]
  constructor
  · rintro ⟨hlong, i, hi, ⟨rfl, rfl⟩, hfirst⟩
    refine ⟨List.getElem?_eq_getElem hi, by simpa using hlong, fun earlier hmem => ?_⟩
    obtain ⟨j, hj, rfl⟩ := List.mem_take_iff_getElem.1 hmem
    simpa using hfirst j (by omega)
  · rintro ⟨hseed, hlong, hfirst⟩
    obtain ⟨hi, rfl⟩ := List.getElem?_eq_some_iff.1 hseed
    refine ⟨by simpa using hlong, index, hi, ⟨rfl, rfl⟩, fun j hj => ?_⟩
    have := hfirst seeds[j] (List.mem_take_iff_getElem.2 ⟨j, by omega, rfl⟩)
    simpa using this

/-- The seed that is reported is the first that is too long. -/
theorem checkLimits_eq_seedTooLong_iff {seeds : List Bytes} {index len : Nat} :
    checkLimits seeds = .error (.seedTooLong index len) ↔ seeds.length < 16 ∧
      (∃ seed, seeds[index]? = some seed ∧ seed.length = len) ∧ 32 < len ∧
        ∀ earlier ∈ seeds.take index, earlier.length ≤ 32 := by
  unfold checkLimits
  split
  · rename_i h
    simp [Nat.not_lt_of_le h]
  · rename_i h
    rw [and_iff_right (Nat.lt_of_not_le h)]
    split
    · rename_i seed' index' hfind
      obtain ⟨hseed', hlong', hfirst'⟩ := find?_tooLong_eq_some_iff.1 hfind
      constructor
      · intro herror
        cases herror
        exact ⟨⟨seed', hseed', rfl⟩, hlong', hfirst'⟩
      · rintro ⟨⟨seed, hseed, rfl⟩, hlong, hfirst⟩
        rw [find?_tooLong_eq_some_iff.2 ⟨hseed, hlong, hfirst⟩] at hfind
        cases hfind
        rfl
    · rename_i hfind
      simp only [reduceCtorEq, false_iff]
      rintro ⟨⟨seed, hseed, rfl⟩, hlong, hfirst⟩
      rw [find?_tooLong_eq_some_iff.2 ⟨hseed, hlong, hfirst⟩] at hfind
      cases hfind

end ExtraAccounts
