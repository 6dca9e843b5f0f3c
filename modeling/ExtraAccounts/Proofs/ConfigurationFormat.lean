import ExtraAccounts.Account

/-!
# Configurations and the data that holds them

Data holds a configuration iff it starts with the encoding of that configuration, and the length
that is declared for its records fits its four bytes (`decode_eq_ok_iff`). What follows does not
count, so data that holds a configuration still holds it when more is appended
(`decode_of_isPrefix`), and an account made for a configuration holds it (`decode_toAccount`).
-/

namespace ExtraAccounts

/-! ## Records -/

namespace Record

@[simp] theorem toBytes_ofBlock (block : Block 35) : (ofBlock block).toBytes = block.toBytes :=
  congrArg Block.toBytes (toBlock_ofBlock block)

theorem block?_append (record : Record) (later : Bytes) :
    Bytes.block? 35 (record.toBytes ++ later) 0 = some record.toBlock := by
  rw [Bytes.block?_eq_some_iff]
  refine ⟨by simp, ?_⟩
  rw [List.drop_zero, List.take_left' record.length_toBytes]
  rfl

theorem readMany_eq_some_iff {count : Nat} {data : Bytes} {records : List Record} :
    readMany count data = some records ↔
      records.length = count ∧ records.flatMap toBytes <+: data := by
  induction count generalizing data records with
  | zero =>
    constructor
    · intro h
      cases h
      exact ⟨rfl, List.nil_prefix⟩
    · rintro ⟨hl, -⟩
      rw [List.eq_nil_of_length_eq_zero hl]
      rfl
  | succ count ih =>
    constructor
    · intro h
      obtain ⟨block, hb, h⟩ := Option.bind_eq_some_iff.1 h
      obtain ⟨later, hl, h⟩ := Option.bind_eq_some_iff.1 h
      cases h
      obtain ⟨hlen, hpre⟩ := ih.1 hl
      obtain ⟨-, hblock⟩ := Bytes.block?_eq_some_iff.1 hb
      refine ⟨by simp [hlen], ?_⟩
      rw [List.flatMap_cons, toBytes_ofBlock, ← hblock, List.drop_zero]
      have := (List.prefix_append_right_inj (data.take 35)).2 hpre
      rwa [List.take_append_drop] at this
    · rintro ⟨hlen, rest, rfl⟩
      obtain ⟨record, later, rfl⟩ := List.exists_cons_of_length_eq_add_one hlen
      rw [List.flatMap_cons, List.append_assoc, readMany, block?_append,
        List.drop_left' record.length_toBytes,
        ih.2 ⟨by simpa using hlen, List.prefix_append _ _⟩]
      simp

end Record

/-! ## Configurations -/

namespace Configuration

/-- Whether the length that is declared for `count` records fits its four bytes. -/
def Fits (count : Nat) : Prop := declaredLength count < UInt32.size

instance (count : Nat) : Decidable (Fits count) := inferInstanceAs (Decidable (_ < _))

/-- Bytes written at a field of the header are what the field holds, as far as they reach. -/
theorem headerField_append_mod {offset : Nat} {before : Bytes} (hb : before.length = offset)
    (value : Nat) (later : Bytes) :
    headerField (before ++ (Bytes.leBytes 4 value ++ later)) offset = value % UInt32.size := by
  rw [headerField, List.drop_left' hb, List.take_left' (Bytes.length_leBytes 4 value),
    Bytes.leNat_leBytes]

theorem headerField_append {offset value : Nat} {before : Bytes} (hb : before.length = offset)
    (hv : value < UInt32.size) (later : Bytes) :
    headerField (before ++ (Bytes.leBytes 4 value ++ later)) offset = value := by
  rw [headerField_append_mod hb, Nat.mod_eq_of_lt hv]

/-- What a field holds does not change when more data follows. -/
theorem headerField_of_isPrefix {data data' : Bytes} {offset : Nat} (hd : data <+: data')
    (h : offset + 4 ≤ data.length) : headerField data' offset = headerField data offset := by
  rw [headerField, headerField, Bytes.take_drop_of_isPrefix hd h]

theorem leBytes_headerField {data : Bytes} {offset : Nat} (h : offset + 4 ≤ data.length) :
    Bytes.leBytes 4 (headerField data offset) = (data.drop offset).take 4 := by
  have hl : ((data.drop offset).take 4).length = 4 := by
    simp only [List.length_take, List.length_drop]
    omega
  have := Bytes.leBytes_leNat ((data.drop offset).take 4)
  rwa [hl] at this

theorem headerField_lt {data : Bytes} {offset : Nat} (h : offset + 4 ≤ data.length) :
    headerField data offset < UInt32.size := by
  have hl : ((data.drop offset).take 4).length = 4 := by
    simp only [List.length_take, List.length_drop]
    omega
  have := Bytes.leNat_lt ((data.drop offset).take 4)
  rwa [hl] at this

theorem take_append_header (data : Bytes) :
    data.take 8 ++ ((data.drop 8).take 4 ++ ((data.drop 12).take 4 ++ data.drop 16)) = data := by
  rw [show data.drop 16 = (data.drop 12).drop 4 by rw [List.drop_drop], List.take_append_drop,
    show data.drop 12 = (data.drop 8).drop 4 by rw [List.drop_drop], List.take_append_drop,
    List.take_append_drop]

theorem encode_eq (configuration : Configuration) :
    configuration.encode = configuration.tag.toBytes ++
      (Bytes.leBytes 4 (declaredLength configuration.records.length) ++
        (Bytes.leBytes 4 configuration.records.length ++
          configuration.records.flatMap Record.toBytes)) := by
  simp [encode]

theorem encode_isPrefix {data : Bytes} {configuration : Configuration}
    (h : decode data = .ok configuration) :
    Fits configuration.records.length ∧ configuration.encode <+: data := by
  unfold decode at h
  split at h
  · cases h
  rename_i hlen
  dsimp only at h
  split at h
  · cases h
  rename_i hdeclared
  split at h
  · cases h
  rename_i records hread
  cases h
  obtain ⟨hcount, hrecords⟩ := Record.readMany_eq_some_iff.1 hread
  have hdeclared := Decidable.not_not.1 hdeclared
  refine ⟨?_, ?_⟩
  · rw [Fits, hcount, ← hdeclared]
    exact headerField_lt (by omega)
  · -- the header is written as it was read, and the records start what follows it
    rw [encode_eq]
    dsimp only
    rw [hcount, ← hdeclared, leBytes_headerField (by omega), leBytes_headerField (by omega)]
    conv => rhs; rw [← take_append_header data]
    simpa only [List.prefix_append_right_inj] using hrecords

theorem decode_encode_append {configuration : Configuration}
    (h : Fits configuration.records.length) (rest : Bytes) :
    decode (configuration.encode ++ rest) = .ok configuration := by
  obtain ⟨tag, records⟩ := configuration
  have htag := tag.length_toBytes
  have hcount : records.length < UInt32.size := by
    have := h
    simp only [Fits, declaredLength] at this
    omega
  have hdata : encode ⟨tag, records⟩ ++ rest = tag.toBytes ++
      (Bytes.leBytes 4 (declaredLength records.length) ++
        (Bytes.leBytes 4 records.length ++ (records.flatMap Record.toBytes ++ rest))) := by
    simp [encode_eq]
  generalize encode ⟨tag, records⟩ ++ rest = data at hdata
  have hlen : ¬ data.length < 16 := by
    rw [hdata]
    simp [htag]
    omega
  have hdeclared : headerField data 8 = declaredLength records.length := by
    rw [hdata, headerField_append htag h]
  have hfield : headerField data 12 = records.length := by
    rw [hdata, ← List.append_assoc, headerField_append (by simp) hcount]
  have hread : Record.readMany records.length (data.drop 16) = some records := by
    rw [hdata, ← List.append_assoc, ← List.append_assoc, List.drop_left' (by simp)]
    exact Record.readMany_eq_some_iff.2 ⟨rfl, List.prefix_append _ _⟩
  have htake : data.take 8 = tag.toBytes := by
    rw [hdata, List.take_left' htag]
  unfold decode
  rw [dif_neg hlen]
  simp [hdeclared, hfield, hread, htake]

/-- **Data holds a configuration** iff it starts with the encoding of it. -/
theorem decode_eq_ok_iff {data : Bytes} {configuration : Configuration} :
    decode data = .ok configuration ↔
      Fits configuration.records.length ∧ configuration.encode <+: data := by
  refine ⟨encode_isPrefix, ?_⟩
  rintro ⟨hfits, rest, rfl⟩
  exact decode_encode_append hfits rest

theorem decode_of_isPrefix {data data' : Bytes} {configuration : Configuration}
    (h : decode data = .ok configuration) (hd : data <+: data') :
    decode data' = .ok configuration := by
  obtain ⟨hfits, hpre⟩ := decode_eq_ok_iff.1 h
  exact decode_eq_ok_iff.2 ⟨hfits, hpre.trans hd⟩

theorem decode_toAccount {configuration : Configuration} (h : Fits configuration.records.length)
    (owner : Address) :
    decode (configuration.toAccount owner).data = .ok configuration :=
  decode_eq_ok_iff.2 ⟨h, List.prefix_rfl⟩

end Configuration

end ExtraAccounts
