import ExtraAccounts.Proofs.SeedLimits

/-!
# The bump of a derived address

The search goes down from a bump and stops at the first whose candidate is off the curve. What it
stops at is the largest such bump, as every bump passed on the way gives a point of the curve
(`ProgramAddress.search_eq_some_iff`); and it finds none iff every bump down to 1 does
(`search_eq_none_iff`). Both are by induction on the bump the search starts from.

The limits are checked before, so a derivation that ran out of bumps broke none of them
(`derive_canonical`). This holds for every hash and every curve test; `ProgramAddress.derive` takes
SHA-256 and the curve edwards25519.
-/

namespace ExtraAccounts

/-- There are at most 15 seeds of at most 32 bytes each. -/
structure WithinLimits (seeds : List Bytes) : Prop where
  count : seeds.length ≤ 15
  lengths : ∀ seed ∈ seeds, seed.length ≤ 32

theorem checkLimits_eq_ok_iff_withinLimits {seeds : List Bytes} :
    checkLimits seeds = .ok () ↔ WithinLimits seeds := by
  rw [checkLimits_eq_ok_iff]
  exact ⟨fun h => ⟨h.1, h.2⟩, fun h => ⟨h.count, h.lengths⟩⟩

namespace ProgramAddress

/-! ## The search -/

/-- The bump is the largest up to `top` whose candidate is off the curve, and it is not 0. -/
structure LargestOffCurve (candidate : UInt8 → Address) (onCurve : Address → Bool) (top : Nat)
    (bump : UInt8) : Prop where
  pos : 0 < bump.toNat
  le : bump.toNat ≤ top
  offCurve : onCurve (candidate bump) = false
  largest : ∀ larger : UInt8, bump < larger → larger.toNat ≤ top →
    onCurve (candidate larger) = true

section
variable {candidate : UInt8 → Address} {onCurve : Address → Bool} {top : Nat}

/-- The bump that is tried first. -/
theorem toNat_ofNat_succ (h : top + 1 ≤ 255) : (UInt8.ofNat (top + 1)).toNat = top + 1 :=
  UInt8.toNat_ofNat_of_lt' (Nat.lt_succ_of_le h)

/-- A bump up to the next one is that one, or among those before. -/
theorem eq_or_le_of_le_succ {bump : UInt8} (hb : bump.toNat ≤ top + 1) :
    bump = UInt8.ofNat (top + 1) ∨ bump.toNat ≤ top := by
  rcases Nat.lt_or_eq_of_le hb with hlt | heq
  · exact .inr (Nat.le_of_lt_succ hlt)
  · left
    rw [← heq, UInt8.ofNat_toNat]

/-- **The search stops** at the largest bump whose candidate is off the curve. -/
theorem search_eq_some_iff (htop : top ≤ 255) {address : Address} :
    search candidate onCurve top = some address ↔
      ∃ bump, LargestOffCurve candidate onCurve top bump ∧ candidate bump = address := by
  induction top with
  | zero =>
    constructor
    · intro h
      cases h
    · rintro ⟨bump, h, -⟩
      exact absurd h.pos (Nat.not_lt.2 h.le)
  | succ top ih =>
    have hfirst := toNat_ofNat_succ htop
    unfold search
    dsimp only
    split
    · rename_i hon
      rw [ih (Nat.le_of_succ_le htop)]
      constructor
      · rintro ⟨bump, h, rfl⟩
        refine ⟨bump, ⟨h.pos, Nat.le_succ_of_le h.le, h.offCurve, fun larger hlt hle => ?_⟩, rfl⟩
        rcases eq_or_le_of_le_succ hle with rfl | hle
        · exact hon
        · exact h.largest larger hlt hle
      · rintro ⟨bump, h, rfl⟩
        rcases eq_or_le_of_le_succ h.le with rfl | hle
        · -- the first bump is on the curve
          rw [h.offCurve] at hon
          cases hon
        · exact ⟨bump, ⟨h.pos, hle, h.offCurve, fun larger hlt hl =>
            h.largest larger hlt (Nat.le_succ_of_le hl)⟩, rfl⟩
    · rename_i hoff
      have hoff : onCurve (candidate (UInt8.ofNat (top + 1))) = false := by simpa using hoff
      constructor
      · intro h
        refine ⟨UInt8.ofNat (top + 1), ⟨by omega, by omega, hoff, fun larger hlt hle => ?_⟩,
          Option.some.inj h⟩
        rw [UInt8.lt_iff_toNat_lt] at hlt
        omega
      · rintro ⟨bump, h, rfl⟩
        rcases eq_or_le_of_le_succ h.le with rfl | hle
        · rfl
        · -- a smaller bump would not be the largest
          have hlt : bump < UInt8.ofNat (top + 1) := by
            rw [UInt8.lt_iff_toNat_lt]
            omega
          have hon := h.largest _ hlt (Nat.le_of_eq hfirst)
          rw [hoff] at hon
          cases hon

/-- **The search finds none** iff every bump down to 1 gives a point of the curve. -/
theorem search_eq_none_iff (htop : top ≤ 255) :
    search candidate onCurve top = none ↔
      ∀ bump : UInt8, 0 < bump.toNat → bump.toNat ≤ top → onCurve (candidate bump) = true := by
  induction top with
  | zero =>
    refine ⟨fun _ bump hpos hle => ?_, fun _ => rfl⟩
    exact absurd hpos (Nat.not_lt.2 hle)
  | succ top ih =>
    have hfirst := toNat_ofNat_succ htop
    unfold search
    dsimp only
    split
    · rename_i hon
      rw [ih (Nat.le_of_succ_le htop)]
      constructor
      · intro h bump hpos hle
        rcases eq_or_le_of_le_succ hle with rfl | hle
        · exact hon
        · exact h bump hpos hle
      · intro h bump hpos hle
        exact h bump hpos (Nat.le_succ_of_le hle)
    · rename_i hoff
      simp only [reduceCtorEq, false_iff]
      intro h
      exact hoff (h _ (by omega) (Nat.le_of_eq hfirst))

/-- The bump 0 is not tried, even where it is the only one off the curve. -/
example : search (fun bump => .padded [bump] (by simp)) (fun address => address ≠ .zero 32) 255 =
    none := by
  decide +kernel

end

/-! ## Derivations -/

section
variable (hash : Bytes → Address) (onCurve : Address → Bool) (program : Address)
  {seeds : List Bytes}

/-- Seeds in the limits are searched for a bump. -/
theorem deriveWith_of_withinLimits (h : WithinLimits seeds) :
    deriveWith hash onCurve program seeds =
      match search (fun bump => hash (preimage program seeds bump)) onCurve 255 with
      | some address => .ok address
      | none => .error .noBump := by
  unfold deriveWith
  rw [checkLimits_eq_ok_iff_withinLimits.2 h]
  rfl

/-- Other seeds are refused for the limit that they break, which is no lack of bumps. -/
theorem deriveWith_of_not_withinLimits (h : ¬ WithinLimits seeds) :
    ∃ cause, deriveWith hash onCurve program seeds = .error cause ∧ cause ≠ .noBump := by
  cases hcheck : checkLimits seeds with
  | ok _ => exact absurd (checkLimits_eq_ok_iff_withinLimits.1 hcheck) h
  | error cause =>
    refine ⟨cause, (checksLimits_deriveWith hash onCurve).checks program seeds cause hcheck, ?_⟩
    rintro rfl
    unfold checkLimits at hcheck
    split at hcheck
    · cases hcheck
    · split at hcheck <;> cases hcheck

theorem deriveWith_eq_ok_iff {address : Address} :
    deriveWith hash onCurve program seeds = .ok address ↔ WithinLimits seeds ∧
      search (fun bump => hash (preimage program seeds bump)) onCurve 255 = some address := by
  by_cases h : WithinLimits seeds
  · rw [deriveWith_of_withinLimits hash onCurve program h, and_iff_right h]
    split <;> simp_all
  · obtain ⟨cause, hrefused, -⟩ := deriveWith_of_not_withinLimits hash onCurve program h
    simp [hrefused, h]

theorem deriveWith_eq_noBump_iff :
    deriveWith hash onCurve program seeds = .error .noBump ↔ WithinLimits seeds ∧
      search (fun bump => hash (preimage program seeds bump)) onCurve 255 = none := by
  by_cases h : WithinLimits seeds
  · rw [deriveWith_of_withinLimits hash onCurve program h, and_iff_right h]
    split <;> simp_all
  · obtain ⟨cause, hrefused, hcause⟩ := deriveWith_of_not_withinLimits hash onCurve program h
    simp [hrefused, h, hcause]

end

/-- **A derived address is the one of the largest bump off the curve.** More than 15 seeds are
refused as too many, whatever their lengths, and otherwise the first seed of more than 32 bytes is.
Seeds in the limits come to the hash of the seeds, the bump, the program and the marker, with the
largest bump from 255 down to 1 whose hash is off the curve; there is none iff all of these hashes
are points of it. The seeds count only joined together. -/
theorem derive_canonical (hash : Bytes → Address) (onCurve : Address → Bool) (program : Address)
    (seeds : List Bytes) :
    let derived := deriveWith hash onCurve program seeds
    let candidate : UInt8 → Address := fun bump =>
      hash (seeds.flatten ++ [bump] ++ program.toBytes ++ Bytes.ofAscii "ProgramDerivedAddress")
    (∀ count, derived = .error (.tooManySeeds count) ↔
      16 ≤ seeds.length ∧ count = seeds.length) ∧
    (∀ index len, derived = .error (.seedTooLong index len) ↔ seeds.length < 16 ∧
      (∃ seed, seeds[index]? = some seed ∧ seed.length = len) ∧ 32 < len ∧
        ∀ earlier ∈ seeds.take index, earlier.length ≤ 32) ∧
    (∀ address, derived = .ok address ↔ WithinLimits seeds ∧
      ∃ bump, LargestOffCurve candidate onCurve 255 bump ∧ candidate bump = address) ∧
    (derived = .error .noBump ↔ WithinLimits seeds ∧
      ∀ bump : UInt8, bump ≠ 0 → onCurve (candidate bump) = true) ∧
    (∀ address, derived = .ok address → onCurve address = false) ∧
    ∀ other, WithinLimits seeds → WithinLimits other → other.flatten = seeds.flatten →
      deriveWith hash onCurve program other = derived := by
  intro derived candidate
  have hcandidate : (fun bump => hash (preimage program seeds bump)) = candidate := by
    funext bump
    simp [candidate, preimage, marker]
  have hok : ∀ address, derived = .ok address ↔ WithinLimits seeds ∧
      ∃ bump, LargestOffCurve candidate onCurve 255 bump ∧ candidate bump = address := by
    intro address
    rw [deriveWith_eq_ok_iff, hcandidate, search_eq_some_iff (Nat.le_refl 255)]
  have hchecks := checksLimits_deriveWith hash onCurve
  refine ⟨?_, ?_, hok, ?_, ?_, ?_⟩
  · intro count
    exact (hchecks.eq_error_iff (by simp)).trans checkLimits_eq_tooManySeeds_iff
  · intro index len
    exact (hchecks.eq_error_iff (by simp)).trans checkLimits_eq_seedTooLong_iff
  · rw [deriveWith_eq_noBump_iff hash onCurve program, hcandidate, search_eq_none_iff (Nat.le_refl 255)]
    refine and_congr_right fun _ => forall_congr' fun bump => ?_
    have hpos : 0 < bump.toNat ↔ bump ≠ 0 := by
      rw [Nat.pos_iff_ne_zero, ne_eq, ne_eq, ← UInt8.toNat_inj]
      rfl
    have hle : bump.toNat ≤ 255 := Nat.le_of_lt_succ bump.toNat_lt
    rw [hpos]
    exact ⟨fun h hbump => h hbump hle, fun h hbump _ => h hbump⟩
  · intro address haddress
    obtain ⟨-, bump, hbump, rfl⟩ := (hok address).1 haddress
    exact hbump.offCurve
  · intro other hseeds hother hflatten
    rw [deriveWith_of_withinLimits hash onCurve program hother]
    simp only [derived, deriveWith_of_withinLimits hash onCurve program hseeds, preimage, hflatten]

end ProgramAddress

end ExtraAccounts
