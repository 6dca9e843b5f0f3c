import ExtraAccounts.Proofs.ConfigurationFormat

/-!
# Where a configuration stands in its data

`Configuration.LaidOut` says of a configuration and data where each part of the one stands in the
other, with no reader: the tag in the first eight bytes, the declared length and the record count in
the two fields of the header, and the record with index `i` in the 35 bytes from `16 + 35 * i` on.

* `decode_eq_ok_iff_laidOut`: data is accepted iff a configuration is laid out in it, and that one
  is read.
* `decode_by_layout`: each error stands for one condition on the length and the header, the
  conditions exclude each other in the order of the checks, and what follows the records does not
  count. Once the checks have passed no record is missing: a reader that stops where the data ends
  (`Record.readAvailable`) reads them all.
* `encode_decode_inverse`: what was written is read back iff its declared length fits four bytes;
  otherwise it is refused for that length. What was read is written back as it was.
-/

namespace ExtraAccounts

/-! ## Records -/

namespace Record

/-- The record stands in the 35 bytes at an offset of the data, flag bytes included. -/
structure StandsAt (record : Record) (data : Bytes) (offset : Nat) : Prop where
  discriminator : data[offset]? = some record.discriminator
  config : (data.drop (offset + 1)).take 32 = record.config.toBytes
  signerByte : data[offset + 33]? = some record.signerByte
  writableByte : data[offset + 34]? = some record.writableByte

/-- The first 35 bytes, cut at the fields of a record. -/
theorem take_fields (bytes : Bytes) :
    bytes.take 35 = bytes[0]?.toList ++ ((bytes.drop 1).take 32 ++
      (bytes[33]?.toList ++ bytes[34]?.toList)) := by
  have hone : ∀ i, (bytes.drop i).take 1 = bytes[i]?.toList := by
    intro i
    rw [List.take_one, List.head?_drop]
  rw [← hone 0, ← hone 33, ← hone 34, show 35 = 1 + (32 + (1 + 1)) by rfl, List.take_add,
    List.take_add, List.take_add, List.drop_drop, List.drop_drop, List.drop_zero]

theorem standsAt_iff {record : Record} {data : Bytes} {offset : Nat} :
    record.StandsAt data offset ↔ (data.drop offset).take 35 = record.toBytes := by
  have hat : ∀ i, data[offset + i]? = (data.drop offset)[i]? := by
    intro i
    rw [List.getElem?_drop]
  constructor
  · rintro ⟨hd, hc, hs, hw⟩
    rw [take_fields, List.drop_drop, ← hat 0, ← hat 33, ← hat 34, hc, hs, hw, Nat.add_zero, hd]
    simp [toBytes]
  · intro h
    have hlen := record.config.length_toBytes
    have hfield : ∀ i < 35, data[offset + i]? = record.toBytes[i]? := by
      intro i hi
      rw [hat, ← h, List.getElem?_take_of_lt hi]
    refine ⟨hfield 0 (by omega), ?_, ?_, ?_⟩
    · have hcut := congrArg (fun bytes => (bytes.drop 1).take 32) h
      simp only [List.drop_take, List.take_take, List.drop_drop] at hcut
      rw [show min 32 (35 - 1) = 32 by rfl] at hcut
      rw [hcut, toBytes, List.cons_append, List.drop_one, List.tail_cons, List.take_left' hlen]
    · rw [hfield 33 (by omega)]
      simp [toBytes, hlen]
    · rw [hfield 34 (by omega)]
      simp [toBytes, hlen]

theorem standsAt_drop {record : Record} {data : Bytes} {start offset : Nat} :
    record.StandsAt (data.drop start) offset ↔ record.StandsAt data (start + offset) := by
  rw [standsAt_iff, standsAt_iff, List.drop_drop]

/-- Data starts with records written one after the other iff each stands at its own offset. -/
theorem flatMap_isPrefix_iff {records : List Record} {data : Bytes} :
    records.flatMap toBytes <+: data ↔
      ∀ i (h : i < records.length), records[i].StandsAt data (35 * i) := by
  induction records generalizing data with
  | nil =>
    constructor
    · intro _ i h
      simp at h
    · intro _
      exact List.nil_prefix
  | cons record later ih =>
    have hnext : ∀ i, 35 * (i + 1) = 35 + 35 * i := by
      intro i
      omega
    rw [List.flatMap_cons]
    constructor
    · rintro ⟨rest, rfl⟩ i hi
      rw [List.append_assoc]
      cases i with
      | zero =>
        refine standsAt_iff.2 ?_
        rw [Nat.mul_zero, List.drop_zero, List.take_left' record.length_toBytes]
        rfl
      | succ i =>
        rw [hnext, ← standsAt_drop, List.drop_left' record.length_toBytes]
        exact ih.1 (List.prefix_append _ _) i (by simpa using hi)
    · intro h
      have hfirst := standsAt_iff.1 (h 0 (by simp))
      rw [Nat.mul_zero, List.drop_zero] at hfirst
      have hlater : later.flatMap toBytes <+: data.drop 35 := by
        refine ih.2 fun i hi => standsAt_drop.2 ?_
        rw [← hnext]
        exact h (i + 1) (by simpa using hi)
      have hdata := (List.prefix_append_right_inj (data.take 35)).2 hlater
      rw [List.take_append_drop, hfirst] at hdata
      exact hdata

/-- The records at the front of the data, at most `count`. It stops early where the data ends. -/
def readAvailable : (count : Nat) → (data : Bytes) → List Record
  | 0, _ => []
  | count + 1, data =>
    match data.block? 35 0 with
    | none => []
    | some block => ofBlock block :: readAvailable count (data.drop 35)

/-- Data that is long enough for its records has them all, and other data is refused. -/
theorem readMany_eq (count : Nat) (data : Bytes) :
    readMany count data =
      if 35 * count ≤ data.length then some (readAvailable count data) else none := by
  induction count generalizing data with
  | zero => simp [readMany, readAvailable]
  | succ count ih =>
    rw [readMany, readAvailable]
    cases hb : data.block? 35 0 with
    | none =>
      have hshort := Bytes.block?_eq_none_iff.1 hb
      rw [if_neg (by omega)]
      rfl
    | some block =>
      obtain ⟨hle, -⟩ := Bytes.block?_eq_some_iff.1 hb
      have hlen : (data.drop 35).length = data.length - 35 := List.length_drop
      rw [ih, hlen]
      by_cases h : 35 * count ≤ data.length - 35
      · rw [if_pos h, if_pos (by omega)]
        rfl
      · rw [if_neg h, if_neg (by omega)]
        rfl

end Record

/-! ## Configurations -/

namespace Configuration

theorem declaredLength_eq (count : Nat) : declaredLength count = 35 * count + 4 := by
  rw [declaredLength, Nat.mul_comm]

/-- The configuration stands in the data, and nothing else does before the end of its records. -/
structure LaidOut (configuration : Configuration) (data : Bytes) : Prop where
  header : 16 ≤ data.length
  tag : data.take 8 = configuration.tag.toBytes
  declared : Bytes.leNat ((data.drop 8).take 4) = 35 * configuration.records.length + 4
  count : Bytes.leNat ((data.drop 12).take 4) = configuration.records.length
  records : ∀ i (h : i < configuration.records.length),
    configuration.records[i].StandsAt data (16 + 35 * i)

/-- The four ways in which decoding ends, in the order of the checks. -/
theorem decode_cases (data : Bytes) :
    (data.length < 16 ∧ decode data = .error (.headerMissing data.length)) ∨
    (16 ≤ data.length ∧ headerField data 8 ≠ 35 * headerField data 12 + 4 ∧
      decode data =
        .error (.wrongLength (headerField data 8) (35 * headerField data 12 + 4))) ∨
    (16 ≤ data.length ∧ headerField data 8 = 35 * headerField data 12 + 4 ∧
      data.length - 16 < 35 * headerField data 12 ∧
      decode data = .error (.recordsMissing (headerField data 12) (data.length - 16))) ∨
    (16 ≤ data.length ∧ headerField data 8 = 35 * headerField data 12 + 4 ∧
      35 * headerField data 12 ≤ data.length - 16 ∧
      ∃ tag : Block 8, data.take 8 = tag.toBytes ∧
        decode data =
          .ok { tag, records := Record.readAvailable (headerField data 12) (data.drop 16) }) := by
  have hexpected := declaredLength_eq (headerField data 12)
  have hlen : (data.drop 16).length = data.length - 16 := List.length_drop
  by_cases h16 : data.length < 16
  · left
    exact ⟨h16, by rw [decode, dif_pos h16]⟩
  right
  by_cases hdeclared : headerField data 8 = 35 * headerField data 12 + 4
  · right
    by_cases hfit : 35 * headerField data 12 ≤ data.length - 16
    · right
      have hread := Record.readMany_eq (headerField data 12) (data.drop 16)
      rw [hlen, if_pos hfit] at hread
      refine ⟨by omega, hdeclared, hfit,
        ⟨data.take 8, by simp only [List.length_take]; omega⟩, rfl, ?_⟩
      simp [decode, h16, hexpected, hdeclared, hread]
    · left
      have hread := Record.readMany_eq (headerField data 12) (data.drop 16)
      rw [hlen, if_neg hfit] at hread
      refine ⟨by omega, hdeclared, by omega, ?_⟩
      simp [decode, h16, hexpected, hdeclared, hread]
  · left
    refine ⟨by omega, hdeclared, ?_⟩
    simp [decode, h16, hexpected, hdeclared]

/-- **Data is accepted** iff a configuration is laid out in it. -/
theorem decode_eq_ok_iff_laidOut {data : Bytes} {configuration : Configuration} :
    decode data = .ok configuration ↔ configuration.LaidOut data := by
  constructor
  · intro h
    obtain ⟨-, hd⟩ | ⟨-, -, hd⟩ | ⟨-, -, -, hd⟩ | ⟨hheader, hdeclared, hfit, tag, htag, hd⟩ :=
      decode_cases data
    · rw [hd] at h
      cases h
    · rw [hd] at h
      cases h
    · rw [hd] at h
      cases h
    · rw [hd] at h
      cases h
      have hread := Record.readMany_eq (headerField data 12) (data.drop 16)
      rw [if_pos (by simpa using hfit)] at hread
      obtain ⟨hcount, hrecords⟩ := Record.readMany_eq_some_iff.1 hread
      refine ⟨hheader, htag, ?_, hcount.symm, fun i hi => ?_⟩
      · rw [hcount]
        exact hdeclared
      · exact Record.standsAt_drop.1 (Record.flatMap_isPrefix_iff.1 hrecords i hi)
  · rintro ⟨hheader, htag, hdeclared, hcount, hrecords⟩
    have hread : Record.readMany configuration.records.length (data.drop 16) =
        some configuration.records := by
      refine Record.readMany_eq_some_iff.2 ⟨rfl, Record.flatMap_isPrefix_iff.2 fun i hi => ?_⟩
      exact Record.standsAt_drop.2 (hrecords i hi)
    have hexpected := declaredLength_eq configuration.records.length
    have h16 : ¬ data.length < 16 := by omega
    unfold decode
    rw [dif_neg h16]
    simp [headerField, hcount, hdeclared, hexpected, hread, htag]

/-! ## Outcomes -/

section
variable {data : Bytes}

theorem decode_eq_headerMissing_iff {len : Nat} :
    decode data = .error (.headerMissing len) ↔ data.length < 16 ∧ len = data.length := by
  rcases decode_cases data with ⟨h, hd⟩ | ⟨h, -, hd⟩ | ⟨h, -, -, hd⟩ | ⟨h, -, -, tag, -, hd⟩ <;>
    rw [hd] <;>
    simp only [Except.error.injEq, DecodeError.headerMissing.injEq, reduceCtorEq, false_iff] <;>
    omega

theorem decode_eq_wrongLength_iff {declared expected : Nat} :
    decode data = .error (.wrongLength declared expected) ↔
      16 ≤ data.length ∧ headerField data 8 ≠ 35 * headerField data 12 + 4 ∧
        declared = headerField data 8 ∧ expected = 35 * headerField data 12 + 4 := by
  rcases decode_cases data with ⟨h, hd⟩ | ⟨h, hw, hd⟩ | ⟨h, hw, -, hd⟩ | ⟨h, hw, -, tag, -, hd⟩ <;>
    rw [hd] <;>
    simp only [Except.error.injEq, DecodeError.wrongLength.injEq, reduceCtorEq, false_iff] <;>
    omega

theorem decode_eq_recordsMissing_iff {count available : Nat} :
    decode data = .error (.recordsMissing count available) ↔
      16 ≤ data.length ∧ headerField data 8 = 35 * headerField data 12 + 4 ∧
        data.length - 16 < 35 * headerField data 12 ∧
        count = headerField data 12 ∧ available = data.length - 16 := by
  rcases decode_cases data with
      ⟨h, hd⟩ | ⟨h, hw, hd⟩ | ⟨h, hw, hr, hd⟩ | ⟨h, hw, hr, tag, -, hd⟩ <;>
    rw [hd] <;>
    simp only [Except.error.injEq, DecodeError.recordsMissing.injEq, reduceCtorEq, false_iff] <;>
    omega

theorem exists_decode_iff :
    (∃ configuration, decode data = .ok configuration) ↔
      16 ≤ data.length ∧ headerField data 8 = 35 * headerField data 12 + 4 ∧
        35 * headerField data 12 ≤ data.length - 16 := by
  rcases decode_cases data with
      ⟨h, hd⟩ | ⟨h, hw, hd⟩ | ⟨h, hw, hr, hd⟩ | ⟨h, hw, hr, tag, -, hd⟩ <;>
    rw [hd] <;>
    simp only [Except.ok.injEq, exists_eq', reduceCtorEq, exists_false, false_iff, true_iff] <;>
    omega

/-- A reader that stops where the data ends reads every record of accepted data. -/
theorem readAvailable_of_decode {configuration : Configuration}
    (h : decode data = .ok configuration) :
    Record.readAvailable (headerField data 12) (data.drop 16) = configuration.records := by
  rcases decode_cases data with ⟨-, hd⟩ | ⟨-, -, hd⟩ | ⟨-, -, -, hd⟩ | ⟨-, -, -, tag, -, hd⟩ <;>
    rw [hd] at h <;> cases h
  rfl

/-- A length that is wrong stays wrong when more data follows. -/
theorem decode_append_of_wrongLength {declared expected : Nat}
    (h : decode data = .error (.wrongLength declared expected)) (later : Bytes) :
    decode (data ++ later) = .error (.wrongLength declared expected) := by
  obtain ⟨h16, hwrong, hdeclared, hexpected⟩ := decode_eq_wrongLength_iff.1 h
  have hpre : data <+: data ++ later := List.prefix_append data later
  have hlength := headerField_of_isPrefix hpre (show 8 + 4 ≤ data.length by omega)
  have hcount := headerField_of_isPrefix hpre (show 12 + 4 ≤ data.length by omega)
  apply decode_eq_wrongLength_iff.2
  rw [hlength, hcount]
  refine ⟨?_, hwrong, hdeclared, hexpected⟩
  have := hpre.length_le
  omega

theorem length_encode_eq (configuration : Configuration) :
    configuration.encode.length = 16 + 35 * configuration.records.length := by
  rw [length_encode, byteLength, Nat.mul_comm]

/-- What was read is written back as it was, without what follows the records. -/
theorem encode_eq_take {configuration : Configuration} (h : decode data = .ok configuration) :
    configuration.encode = data.take (16 + 35 * configuration.records.length) := by
  have hpre := (encode_isPrefix h).2
  rw [← length_encode_eq]
  exact List.prefix_iff_eq_take.1 hpre

/-- What follows the records does not count. -/
theorem decode_of_take_eq {configuration : Configuration} (h : decode data = .ok configuration)
    {other : Bytes}
    (ho : other.take (16 + 35 * configuration.records.length) =
      data.take (16 + 35 * configuration.records.length)) :
    decode other = .ok configuration := by
  apply decode_eq_ok_iff.2
  refine ⟨(encode_isPrefix h).1, ?_⟩
  rw [encode_eq_take h, ← ho]
  exact List.take_prefix _ other

end

/-- **Decoding accepts exactly the layout of a configuration.** Each error stands for one condition,
checked after those of the errors before it. Data that passes holds a configuration, of which no
record is missing. More data changes neither a wrong length nor, behind the records, a success. -/
theorem decode_by_layout (data : Bytes) :
    let declared := Bytes.leNat ((data.drop 8).take 4)
    let count := Bytes.leNat ((data.drop 12).take 4)
    let available := data.length - 16
    (∀ len, decode data = .error (.headerMissing len) ↔
      data.length < 16 ∧ len = data.length) ∧
    (∀ found expected, decode data = .error (.wrongLength found expected) ↔
      16 ≤ data.length ∧ declared ≠ 35 * count + 4 ∧
        found = declared ∧ expected = 35 * count + 4) ∧
    (∀ wanted left, decode data = .error (.recordsMissing wanted left) ↔
      16 ≤ data.length ∧ declared = 35 * count + 4 ∧ available < 35 * count ∧
        wanted = count ∧ left = available) ∧
    ((∃ configuration, decode data = .ok configuration) ↔
      16 ≤ data.length ∧ declared = 35 * count + 4 ∧ 35 * count ≤ available) ∧
    (∀ configuration, decode data = .ok configuration ↔ configuration.LaidOut data) ∧
    (∀ configuration, decode data = .ok configuration →
      Record.readAvailable count (data.drop 16) = configuration.records) ∧
    (∀ found expected later, decode data = .error (.wrongLength found expected) →
      decode (data ++ later) = .error (.wrongLength found expected)) ∧
    (∀ configuration other, decode data = .ok configuration →
      other.take (16 + 35 * count) = data.take (16 + 35 * count) →
      decode other = .ok configuration) := by
  intro declared count available
  refine ⟨fun len => decode_eq_headerMissing_iff, fun found expected => decode_eq_wrongLength_iff,
    fun wanted left => decode_eq_recordsMissing_iff, exists_decode_iff,
    fun configuration => decode_eq_ok_iff_laidOut, fun configuration h => readAvailable_of_decode h,
    fun found expected later h => decode_append_of_wrongLength h later,
    fun configuration other h ho => ?_⟩
  have hcount : count = configuration.records.length := (decode_eq_ok_iff_laidOut.1 h).count
  rw [hcount] at ho
  exact decode_of_take_eq h ho

/-! ## There and back -/

/-- A length that does not fit its four bytes is refused when it is read back. -/
theorem decode_encode_of_not_fits {configuration : Configuration}
    (hcount : configuration.records.length < UInt32.size)
    (h : ¬ Fits configuration.records.length) :
    decode configuration.encode =
      .error (.wrongLength ((35 * configuration.records.length + 4) % UInt32.size)
        (35 * configuration.records.length + 4)) := by
  have hexpected := declaredLength_eq configuration.records.length
  have htag := configuration.tag.length_toBytes
  have hdeclared : headerField configuration.encode 8 =
      (35 * configuration.records.length + 4) % UInt32.size := by
    rw [encode_eq, headerField_append_mod htag, hexpected]
  have hfield : headerField configuration.encode 12 = configuration.records.length := by
    rw [encode_eq, ← List.append_assoc, headerField_append (by simp) hcount]
  rw [Fits, hexpected] at h
  apply decode_eq_wrongLength_iff.2
  rw [hdeclared, hfield, length_encode_eq]
  refine ⟨by omega, ?_, rfl, rfl⟩
  -- a remainder is smaller than what does not fit
  have := Nat.mod_lt (35 * configuration.records.length + 4) (show 0 < UInt32.size by decide)
  omega

/-- **Writing and reading configurations are inverse.** A configuration of `n` records is written in
`16 + 35 * n` bytes. It is read back iff its declared length fits four bytes, which is so for up to
122713351 records; with more it is refused for that length, and never read as another one. Data that
holds a configuration starts with what is written for it. -/
theorem encode_decode_inverse (configuration : Configuration) :
    let n := configuration.records.length
    configuration.byteLength = 16 + 35 * n ∧ configuration.encode.length = 16 + 35 * n ∧
    (n < UInt32.size →
      (decode configuration.encode = .ok configuration ↔ 35 * n + 4 < UInt32.size) ∧
      (122713351 < n → decode configuration.encode =
        .error (.wrongLength ((35 * n + 4) % UInt32.size) (35 * n + 4)))) ∧
    (35 * n + 4 < UInt32.size ↔ n ≤ 122713351) ∧
    (∀ data, decode data = .ok configuration →
      configuration.encode = data.take (16 + 35 * n) ∧
      (configuration.encode = data ↔ data.drop (16 + 35 * n) = [])) := by
  intro n
  have hfits : Fits n ↔ 35 * n + 4 < UInt32.size := by
    rw [Fits, declaredLength_eq]
  have hsize : UInt32.size = 4294967296 := rfl
  refine ⟨by rw [byteLength, Nat.mul_comm], length_encode_eq configuration,
    fun hcount => ⟨?_, fun hlarge => ?_⟩, by omega, fun data h => ?_⟩
  · rw [decode_eq_ok_iff, hfits]
    exact and_iff_left List.prefix_rfl
  · apply decode_encode_of_not_fits hcount
    rw [hfits]
    omega
  · have htake := encode_eq_take h
    refine ⟨htake, fun he => ?_, fun hd => ?_⟩
    · rw [← he]
      exact List.drop_of_length_le (Nat.le_of_eq (length_encode_eq configuration))
    · rw [htake]
      exact List.take_of_length_le (List.drop_eq_nil_iff.1 hd)

end Configuration

end ExtraAccounts
