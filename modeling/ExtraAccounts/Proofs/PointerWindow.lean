import ExtraAccounts.Proofs.Resolutions

/-!
# What a pointer reads

A pointer is read off a spec iff its tag and operands stand at the front (`Pointer.read_eq_ok_iff`),
so no later byte counts. Following it reads one window of 32 bytes, in the instruction data or in
the data of one account, which is asked for once. `PointsTo` says what it comes to, rule by rule and
with no reader in it: the address or the failure, and what is asked for on the way.

Following a pointer comes to what the rules say and to nothing else (`followPointer_one_window`).
-/

namespace ExtraAccounts

/-! ## Reading the spec -/

namespace Pointer

/-- The packed pointer, without the zeros after it. -/
def front (pointer : Pointer) : Bytes := pointer.tag :: pointer.operands

theorem read_unknownTag {tag : UInt8} (h1 : tag ≠ 1) (h2 : tag ≠ 2) (later : Bytes) :
    read (tag :: later) = .error (.unknownTag tag) := by
  rw [read]
  · rw [if_neg (by simp [h1, h2])]
  -- the rows for the known tags do not match
  · intro _ _ h
    exact absurd h h1
  · intro _ _ _ h
    exact absurd h h2

theorem read_missingOperands {operands : Bytes} (h : operands.length < 2) :
    read (2 :: operands) = .error (.missingOperands 2) := by
  match operands, h with
  | [], _ => rfl
  | [_], _ => rfl

/-- What can stand at the front of a spec, and how it is read. -/
theorem read_cases (spec : Bytes) :
    (spec = [] ∧ read spec = .error .empty) ∨
      (∃ tag later, spec = tag :: later ∧ tag ≠ 1 ∧ tag ≠ 2 ∧
        read spec = .error (.unknownTag tag)) ∨
      (spec = [1] ∧ read spec = .error (.missingOperands 1)) ∨
      (∃ operands, spec = 2 :: operands ∧ operands.length < 2 ∧
        read spec = .error (.missingOperands 2)) ∨
      (∃ offset later, spec = 1 :: offset :: later ∧ read spec = .ok (.argument offset)) ∨
      ∃ index offset later, spec = 2 :: index :: offset :: later ∧
        read spec = .ok (.data index offset) := by
  cases spec with
  | nil => exact .inl ⟨rfl, rfl⟩
  | cons tag operands =>
    right
    by_cases h1 : tag = 1
    · subst h1
      right
      cases operands with
      | nil => exact .inl ⟨rfl, rfl⟩
      | cons offset later => exact .inr (.inr (.inl ⟨offset, later, rfl, rfl⟩))
    by_cases h2 : tag = 2
    · subst h2
      right; right
      by_cases hlen : operands.length < 2
      · exact .inl ⟨operands, rfl, hlen, read_missingOperands hlen⟩
      · match operands, hlen with
        | index :: offset :: later, _ => exact .inr (.inr ⟨index, offset, later, rfl, rfl⟩)
        | [], hlen => exact absurd (by decide) hlen
        | [_], hlen => exact absurd Nat.one_lt_two hlen
    · exact .inl ⟨tag, operands, rfl, h1, h2, read_unknownTag h1 h2 operands⟩

/-- **A pointer is read** iff its tag and operands stand at the front. -/
theorem read_eq_ok_iff {spec : Bytes} {pointer : Pointer} :
    read spec = .ok pointer ↔ pointer.front <+: spec := by
  constructor
  · intro h
    rcases read_cases spec with ⟨rfl, hread⟩ | ⟨tag, later, rfl, -, -, hread⟩ | ⟨rfl, hread⟩ |
      ⟨operands, rfl, -, hread⟩ | ⟨offset, later, rfl, hread⟩ | ⟨index, offset, later, rfl, hread⟩
    all_goals
      rw [hread] at h
      cases h
    · exact List.prefix_append [1, offset] later
    · exact List.prefix_append [2, index, offset] later
  · rintro ⟨later, rfl⟩
    cases pointer <;> rfl

theorem pack_eq_front (pointer : Pointer) :
    pointer.pack.toBytes = pointer.front ++ List.replicate (32 - pointer.front.length) 0 := rfl

end Pointer

/-- A spec is followed for the pointer that is read off it. -/
theorem followPointer_congr {scope : Scope} {spec other : Bytes}
    (h : Pointer.read spec = Pointer.read other) :
    followPointer scope spec = followPointer scope other := by
  unfold followPointer
  rw [h]

/-! ## Windows -/

/-- The address that the 32 bytes from `offset` on are, or a failure iff they run past the end. -/
inductive WindowAt (data : Bytes) (offset : UInt8) : Except Failure Address → Prop where
  | inside {address : Address} (hle : offset.toNat + 32 ≤ data.length)
      (hbytes : address.toBytes = (data.drop offset.toNat).take 32) :
      WindowAt data offset (.ok address)
  | outside (hlt : data.length < offset.toNat + 32) :
      WindowAt data offset (.error (.pointerOutOfBounds offset.toNat data.length))

theorem windowAt_iff {data : Bytes} {offset : UInt8} {value : Except Failure Address} :
    WindowAt data offset value ↔ addressAt data offset = value := by
  constructor
  · intro h
    cases h with
    | inside hle hbytes =>
      exact addressAt_eq_ok_iff.2 (Bytes.block?_eq_some_iff.2 ⟨hle, hbytes.symm⟩)
    | outside hlt => exact addressAt_eq_error_iff.2 ⟨hlt, rfl⟩
  · intro h
    cases value with
    | ok address =>
      obtain ⟨hle, hbytes⟩ := Bytes.block?_eq_some_iff.1 (addressAt_eq_ok_iff.1 h)
      exact .inside hle hbytes.symm
    | error cause =>
      obtain ⟨hlt, rfl⟩ := addressAt_eq_error_iff.1 h
      exact .outside hlt

/-! ## Following a pointer -/

section
variable (accounts : Address → Option Account) (scope : Scope)

/-- What following a pointer spec comes to, and the events on the way. -/
inductive PointsTo : Bytes → Except Failure Address → List Event → Prop where
  | empty : PointsTo [] (.error (.badPointer .empty)) []
  | unknownTag {tag : UInt8} {later : Bytes} (h1 : tag ≠ 1) (h2 : tag ≠ 2) :
      PointsTo (tag :: later) (.error (.badPointer (.unknownTag tag))) []
  | noOffset : PointsTo [1] (.error (.badPointer (.missingOperands 1))) []
  | noIndexOrOffset {operands : Bytes} (h : operands.length < 2) :
      PointsTo (2 :: operands) (.error (.badPointer (.missingOperands 2))) []
  | argument {offset : UInt8} {later : Bytes} {value : Except Failure Address}
      (h : WindowAt scope.data offset value) : PointsTo (1 :: offset :: later) value []
  | outOfRange {index offset : UInt8} {later : Bytes} (h : scope.accounts.length ≤ index.toNat) :
      PointsTo (2 :: index :: offset :: later)
        (.error (.noSuchAccount index.toNat scope.accounts.length)) []
  | absent {index offset : UInt8} {later : Bytes} {account : AccountMeta}
      (hindex : scope.accounts[index.toNat]? = some account)
      (h : accounts account.address = none) :
      PointsTo (2 :: index :: offset :: later) (.error (.noPointerAccount account.address))
        [.requested account.address]
  | data {index offset : UInt8} {later : Bytes} {account : AccountMeta} {found : Account}
      {value : Except Failure Address} (hindex : scope.accounts[index.toNat]? = some account)
      (hfound : accounts account.address = some found) (h : WindowAt found.data offset value) :
      PointsTo (2 :: index :: offset :: later) value [.requested account.address]

/-- What following a pointer spec comes to against a store that does not change. -/
def pointerOutcome (delivery : Plan.Delivery) (deriver : Deriver) (spec : Bytes) :
    Outcome (Except Failure Address) :=
  ((followPointer scope spec).run.delivered delivery).run deriver (.fixed accounts) []

variable (delivery : Plan.Delivery) (deriver : Deriver)

theorem pointerOutcome_eq (spec : Bytes) :
    pointerOutcome accounts scope delivery deriver spec =
      { value := pointerValue accounts scope spec
        events := (pointerAccount? scope spec).toList.map .requested } :=
  (Plan.run_delivered deriver _ delivery _ []).trans
    (Resolution.outcome_followPointer deriver accounts scope spec)

/-- The rules leave no spec out. -/
theorem pointsTo_pointerOutcome (spec : Bytes) :
    PointsTo accounts scope spec (pointerOutcome accounts scope delivery deriver spec).value
      (pointerOutcome accounts scope delivery deriver spec).events := by
  rw [pointerOutcome_eq]
  unfold pointerValue pointerAccount?
  rcases Pointer.read_cases spec with ⟨rfl, hread⟩ | ⟨tag, later, rfl, h1, h2, hread⟩ |
    ⟨rfl, hread⟩ | ⟨operands, rfl, hlen, hread⟩ | ⟨offset, later, rfl, hread⟩ |
    ⟨index, offset, later, rfl, hread⟩
  all_goals
    rw [hread]
    dsimp only
  · exact .empty
  · exact .unknownTag h1 h2
  · exact .noOffset
  · exact .noIndexOrOffset hlen
  · exact .argument (windowAt_iff.2 rfl)
  · unfold Scope.address?
    cases hindex : scope.accounts[index.toNat]? with
    | none => exact .outOfRange (List.getElem?_eq_none_iff.1 hindex)
    | some account =>
      dsimp only [Option.map_some]
      cases hfound : accounts account.address with
      | none => exact .absent hindex hfound
      | some found => exact .data hindex hfound (windowAt_iff.2 rfl)

variable {accounts scope}

/-- No two rules disagree. -/
theorem PointsTo.eq_pointerOutcome {spec : Bytes} {value : Except Failure Address}
    {events : List Event} (h : PointsTo accounts scope spec value events) :
    pointerOutcome accounts scope delivery deriver spec = { value, events } := by
  rw [pointerOutcome_eq]
  unfold pointerValue pointerAccount?
  cases h with
  | empty => rfl
  | unknownTag h1 h2 => rw [Pointer.read_unknownTag h1 h2]; rfl
  | noOffset => rfl
  | noIndexOrOffset h => rw [Pointer.read_missingOperands h]; rfl
  | argument h => rw [← windowAt_iff.1 h]; rfl
  | @outOfRange index offset later h =>
    have hindex : scope.address? index = none := by
      rw [Scope.address?, List.getElem?_eq_none h]
      rfl
    simp [Pointer.read, hindex]
  | @absent index offset later account hindex h =>
    have hindex : scope.address? index = some account.address := by
      rw [Scope.address?, hindex]
      rfl
    simp [Pointer.read, hindex, h]
  | @data index offset later account found value hindex hfound h =>
    have hindex : scope.address? index = some account.address := by
      rw [Scope.address?, hindex]
      rfl
    simp [Pointer.read, hindex, hfound, windowAt_iff.1 h]

variable (accounts scope)

/-- **A pointer reads one window.** Following a spec comes to what the rules say, in value and in
what is asked for. Where a pointer is read off the spec, its packed form is the tag and the operands
that stand there, padded with zeros, and whatever follows them in the spec could be any other bytes. -/
theorem followPointer_one_window (spec : Bytes) :
    (∀ value events, pointerOutcome accounts scope delivery deriver spec = { value, events } ↔
      PointsTo accounts scope spec value events) ∧
    ∀ pointer, Pointer.read spec = .ok pointer →
      pointer.pack.toBytes = spec.take pointer.front.length ++
        List.replicate (32 - pointer.front.length) 0 ∧
      ∀ later, followPointer scope (spec.take pointer.front.length ++ later) =
        followPointer scope spec := by
  refine ⟨fun value events => ⟨fun h => ?_, fun h => h.eq_pointerOutcome delivery deriver⟩,
    fun pointer hread => ?_⟩
  · have hrules := pointsTo_pointerOutcome accounts scope delivery deriver spec
    rwa [h] at hrules
  · have hfront : spec.take pointer.front.length = pointer.front :=
      (List.prefix_iff_eq_take.1 (Pointer.read_eq_ok_iff.1 hread)).symm
    rw [hfront]
    refine ⟨pointer.pack_eq_front, fun later => followPointer_congr ?_⟩
    rw [hread]
    exact Pointer.read_eq_ok_iff.2 (List.prefix_append _ _)

end

end ExtraAccounts
