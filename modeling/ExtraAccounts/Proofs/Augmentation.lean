import ExtraAccounts.Instruction
import ExtraAccounts.Proofs.Composition
import Mathlib.Data.List.Forall2

/-!
# Augmenting instructions

An augmentation resolves a configuration against the data of an instruction. If that fails, the
instruction stays as it was; otherwise the accounts of the records are appended to it
(`Instruction.addExtraAccounts_eq`), each with the address and the two flags of its meta
(`InstructionAccount.Matches`).

Read back as metas, the accounts of an augmented instruction are those that the resolution knew in
the end (`Instruction.augmented_of_holds`). So the next augmentation goes on where this one stopped,
and two in a row are one with the records of both (`Instruction.augmented_append`).
-/

namespace ExtraAccounts

/-! ## Accounts -/

namespace InstructionAccount

/-- The account has the address of the meta and the permissions of its role. -/
structure Matches (account : InstructionAccount) (known : AccountMeta) : Prop where
  address : account.address = known.address
  signer : account.signer = known.role.isSigner
  writable : account.writable = known.role.isWritable

theorem matches_ofMeta (known : AccountMeta) : (ofMeta known).Matches known := ⟨rfl, rfl, rfl⟩

theorem matches_toMeta (account : InstructionAccount) : account.Matches account.toMeta :=
  ⟨rfl, (Role.isSigner_ofFlags _ _).symm, (Role.isWritable_ofFlags _ _).symm⟩

theorem forall₂_matches_ofMeta (known : List AccountMeta) :
    List.Forall₂ Matches (known.map ofMeta) known :=
  List.forall₂_map_left_iff.2 (List.forall₂_same.2 fun account _ => matches_ofMeta account)

theorem forall₂_matches_toMeta (accounts : List InstructionAccount) :
    List.Forall₂ Matches accounts (accounts.map toMeta) :=
  List.forall₂_map_right_iff.2 (List.forall₂_same.2 fun account _ => matches_toMeta account)

theorem map_ofMeta_toMeta (accounts : List InstructionAccount) :
    (accounts.map toMeta).map ofMeta = accounts := by
  simp [Function.comp_def]

theorem map_toMeta_ofMeta (known : List AccountMeta) : (known.map ofMeta).map toMeta = known := by
  simp [Function.comp_def]

end InstructionAccount

namespace Instruction

open InstructionAccount

/-! ## One augmentation -/

section
variable (instruction : Instruction) (options : Options) (delivery : Plan.Delivery)
  (configuration : Address) (base : List AccountMeta) (gatingProgram : Address)

/-- The call that an augmentation makes. -/
def callFor : Call where
  configuration
  base
  data := instruction.data
  gatingProgram

/-- What an augmentation hands back once its call has come to a result. -/
def settle : Except Failure Resolved → Option Failure × Instruction
  | .error cause => (some cause, instruction)
  | .ok resolved =>
    (none, { instruction with accounts := instruction.accounts ++ resolved.extra.map ofMeta })

/-- **An augmentation** asks for what its call asks for and settles the result. -/
theorem addExtraAccounts_eq :
    instruction.addExtraAccounts options delivery configuration base gatingProgram =
      instruction.settle <$>
        (instruction.callFor configuration base gatingProgram).resolve options delivery := by
  rw [map_eq_pure_bind]
  unfold addExtraAccounts callFor
  dsimp only
  congr 1
  funext result
  cases result <;> rfl

variable (deriver : Deriver) (accounts : Address → Option Account)

theorem run_addExtraAccounts :
    let resolved := (instruction.callFor configuration base gatingProgram).outcome options delivery
      deriver accounts
    (instruction.addExtraAccounts options delivery configuration base gatingProgram).run deriver
        (.fixed accounts) [] =
      { value := instruction.settle resolved.value, events := resolved.events } := by
  rw [addExtraAccounts_eq]
  exact Plan.run_map deriver (.fixed accounts) _ instruction.settle []

/-- What augmenting the instruction hands back, against a store that does not change. -/
def augmented : Option Failure × Instruction :=
  ((instruction.augment options delivery configuration gatingProgram).run deriver
    (.fixed accounts) []).value

theorem augmented_eq :
    instruction.augmented options delivery configuration gatingProgram deriver accounts =
      instruction.settle ((instruction.callFor configuration (instruction.accounts.map toMeta)
        gatingProgram).outcome options delivery deriver accounts).value := by
  unfold augmented augment
  rw [run_addExtraAccounts]

variable {accounts configuration}

/-- The accounts of an augmented instruction are all those known in the end, its own among them. -/
theorem augmented_of_holds {records : List Record} (h : Holds accounts configuration records) :
    let base := instruction.accounts.map toMeta
    let call := instruction.callFor configuration base gatingProgram
    instruction.augmented options delivery configuration gatingProgram deriver accounts =
      match recordsValue (call.recordValue deriver accounts) 0 records base with
      | .error cause => (some cause, instruction)
      | .ok all => (none, { instruction with accounts := all.map ofMeta }) := by
  intro base call
  rw [augmented_eq, Call.value_of_holds call options delivery deriver h]
  change instruction.settle ((recordsValue _ 0 records base).map _) = _
  cases hall : recordsValue (call.recordValue deriver accounts) 0 records base with
  | error cause => rfl
  | ok all =>
    obtain ⟨extra, rfl⟩ := isPrefix_of_recordsValue _ hall
    have hextra : (base ++ extra).drop base.length = extra := List.drop_left
    have hbase : base.map ofMeta = instruction.accounts := map_ofMeta_toMeta instruction.accounts
    dsimp only [Except.map, settle, Resolved.extra]
    rw [List.map_append, hbase]
    change (none, { instruction with accounts := instruction.accounts ++
      ((base ++ extra).drop base.length).map ofMeta }) = _
    rw [hextra]

end

/-! ## One after the other -/

section
variable (instruction : Instruction) (options : Options) (delivery : Plan.Delivery)
  (gatingProgram : Address) (deriver : Deriver) {accounts : Address → Option Account}
  {whole first later : Address} {records records' : List Record}

/-- **Two augmentations in a row** are one with the records of both: each failure of a part is one of
the whole, and then nothing is appended. -/
theorem augmented_append (hwhole : Holds accounts whole (records ++ records'))
    (hfirst : Holds accounts first records) (hlater : Holds accounts later records') :
    let augmented := fun (instruction : Instruction) configuration =>
      instruction.augmented options delivery configuration gatingProgram deriver accounts
    augmented instruction whole =
      match augmented instruction first with
      | (some cause, _) => (some cause, instruction)
      | (none, between) =>
        match augmented between later with
        | (some cause, _) => (some (cause.shift records.length), instruction)
        | (none, after) => (none, after) := by
  intro augmented
  -- a record looks at the data and the gating program, which stay the same
  let call := instruction.callFor whole [] gatingProgram
  let evaluate := call.recordValue deriver accounts
  have hvalue : ∀ configuration named list, Holds accounts configuration list →
      augmented { instruction with accounts := named } configuration =
        match recordsValue evaluate 0 list (named.map toMeta) with
        | .error cause => (some cause, { instruction with accounts := named })
        | .ok all => (none, { instruction with accounts := all.map ofMeta }) :=
    fun configuration named list h =>
      augmented_of_holds { instruction with accounts := named } options delivery gatingProgram
        deriver h
  have hall := recordsValue_append evaluate 0 records records' (instruction.accounts.map toMeta)
  have hshift := fun known => recordsValue_shift evaluate
    (call.recordValue_shift deriver accounts records.length) 0 records' known
  simp only [Nat.zero_add, Nat.add_zero] at hall hshift
  rw [show augmented instruction whole = _ from hvalue whole instruction.accounts _ hwhole,
    show augmented instruction first = _ from hvalue first instruction.accounts _ hfirst, hall]
  cases recordsValue evaluate 0 records (instruction.accounts.map toMeta) with
  | error cause => rfl
  | ok all =>
    dsimp only [Except.bind]
    rw [hvalue later (all.map ofMeta) _ hlater, map_toMeta_ofMeta, hshift all]
    cases recordsValue evaluate 0 records' all <;> rfl

end

/-! ## All or nothing, part by part -/

section
variable (instruction : Instruction) (options : Options) (delivery : Plan.Delivery)
  (gatingProgram : Address) (deriver : Deriver) (accounts : Address → Option Account)

/-- **Augmenting is atomic and goes part by part.**

* Against any base, an instruction is augmented as its data is resolved, with the same events: with
  the failure of the resolution and the instruction as it was, or with no failure and the
  instruction as it was but for the accounts appended, which are those of the records in order.
* Without a base, the accounts of the instruction are the base.
* When the records of a configuration are those of a first one and then those of a later one, it can
  be augmented by the whole iff it can by the first and then by the later, and the instruction is
  the same in the end. -/
theorem augment_atomic :
    (∀ configuration base,
      let resolved := (instruction.callFor configuration base gatingProgram).outcome options
        delivery deriver accounts
      let outcome := (instruction.addExtraAccounts options delivery configuration base
        gatingProgram).run deriver (.fixed accounts) []
      outcome.events = resolved.events ∧
      match resolved.value with
      | .error cause => outcome.value = (some cause, instruction)
      | .ok found => ∃ appended, List.Forall₂ Matches appended found.extra ∧
          outcome.value =
            (none, { instruction with accounts := instruction.accounts ++ appended })) ∧
    (∃ base, List.Forall₂ Matches instruction.accounts base ∧ ∀ configuration,
      instruction.augment options delivery configuration gatingProgram =
        instruction.addExtraAccounts options delivery configuration base gatingProgram) ∧
    ∀ whole first later records records', Holds accounts whole (records ++ records') →
      Holds accounts first records → Holds accounts later records' →
      let augmented := fun (instruction : Instruction) configuration =>
        instruction.augmented options delivery configuration gatingProgram deriver accounts
      ∀ after, augmented instruction whole = (none, after) ↔
        ∃ between, augmented instruction first = (none, between) ∧
          augmented between later = (none, after) := by
  refine ⟨fun configuration base => ?_, ?_, ?_⟩
  · intro resolved outcome
    have hrun : outcome = { value := instruction.settle resolved.value, events := resolved.events } :=
      run_addExtraAccounts instruction options delivery configuration base gatingProgram deriver
        accounts
    rw [hrun]
    refine ⟨rfl, ?_⟩
    cases resolved.value with
    | error cause => rfl
    | ok found => exact ⟨_, forall₂_matches_ofMeta found.extra, rfl⟩
  · exact ⟨_, forall₂_matches_toMeta instruction.accounts, fun configuration => rfl⟩
  · intro whole first later records records' hwhole hfirst hlater augmented after
    have happend := augmented_append instruction options delivery gatingProgram deriver hwhole
      hfirst hlater
    dsimp only at happend
    rw [show augmented instruction whole = _ from happend]
    constructor
    · intro h
      split at h
      · cases h
      · rename_i between hbetween
        split at h
        · cases h
        · rename_i found hfound
          cases h
          exact ⟨between, hbetween, hfound⟩
    · rintro ⟨between, hbetween, hafter⟩
      rw [show instruction.augmented _ _ first _ _ _ = _ from hbetween]
      dsimp only
      rw [show between.augmented _ _ later _ _ _ = _ from hafter]

end

/-! ## Two configurations, one after the other -/

namespace TwoParts

def address (n : UInt8) : Address := .padded [n, n, n, n] (by simp)

/-- An address in the instruction data. -/
def first : Configuration where
  records := [.make 2 (Pointer.argument 1).pack false true]

/-- Seeds under the account that the first part appends: its key, then that of the account that the
instruction has from the start. -/
def later : Configuration where
  records := [.make 129 (.padded [3, 1, 3, 0] (by decide)) true false]

def whole : Configuration where
  records := first.records ++ later.records

def accounts : Address → Option Account := fun a =>
  if a = address 1 then some (first.toAccount (address 9))
  else if a = address 2 then some (later.toAccount (address 9))
  else if a = address 3 then some (whole.toAccount (address 9))
  else none

/-- One byte of the program and one of each seed. -/
def deriver : Deriver := fun program seeds =>
  .ok (.padded ((program.toBytes.take 1 ++ seeds.flatMap (List.take 1)).take 32)
    (List.length_take_le 32 _))

def instruction : Instruction where
  program := address 5
  data := 0 :: (address 7).toBytes
  accounts := [{ address := address 4, signer := true, writable := false }]

def between : Instruction :=
  { instruction with
    accounts := instruction.accounts ++ [{ address := address 7, signer := false, writable := true }] }

def after : Instruction :=
  { between with
    accounts := between.accounts ++
      [{ address := .padded [7, 7, 4] (by decide), signer := true, writable := false }] }

def augmented (instruction : Instruction) (configuration : Address) : Option Failure × Instruction :=
  instruction.augmented {} .batched configuration (address 8) deriver accounts

theorem augment_atomic_two_parts :
    Holds accounts (address 3) (first.records ++ later.records) ∧
      Holds accounts (address 1) first.records ∧ Holds accounts (address 2) later.records ∧
      augmented instruction (address 1) = (none, between) ∧
      augmented between (address 2) = (none, after) ∧
      augmented instruction (address 3) = (none, after) := by
  have hwhole : Holds accounts (address 3) (first.records ++ later.records) :=
    holds_of_toAccount whole (address 9) (by decide +kernel) (by decide)
  have hfirst : Holds accounts (address 1) first.records :=
    holds_of_toAccount first (address 9) (by decide +kernel) (by decide)
  have hlater : Holds accounts (address 2) later.records :=
    holds_of_toAccount later (address 9) (by decide +kernel) (by decide)
  have hbetween : augmented instruction (address 1) = (none, between) := by decide +kernel
  have hafter : augmented between (address 2) = (none, after) := by decide +kernel
  obtain ⟨-, -, hparts⟩ :=
    augment_atomic instruction {} .batched (address 8) deriver accounts
  refine ⟨hwhole, hfirst, hlater, hbetween, hafter, ?_⟩
  exact (hparts _ _ _ _ _ hwhole hfirst hlater after).2 ⟨between, hbetween, hafter⟩

end TwoParts

end Instruction

end ExtraAccounts
