import SubConverter.Lib.PrefixScan
import SubConverter.Statistics.Accepted

set_option autoImplicit false

namespace SubConverter.Statistics

open Wire

structure WalRecord where
  generation : UInt64
  sequence : UInt64
  payload : Bytes
deriving DecidableEq, Repr

def walBody (record : WalRecord) : Bytes :=
  kWalMagic ++ (encodeU32 kWalPatchType ++ (encodeU64 record.generation ++ (encodeU64 record.sequence ++
    (encodeU32 (UInt32.ofNat record.payload.length) ++ record.payload))))

def encodeRecord (record : WalRecord) : Bytes :=
  walBody record ++ encodeU64 (checksum (walBody record))

def walRecordBytes (patch : DirtyPatch) (generation sequence : UInt64) : Bytes :=
  if (encodePatchPayload patch).length > kMaxWalPayloadBytes ∨ (encodePatchPayload patch).length > 4294967295 then []
  else encodeRecord { generation, sequence, payload := encodePatchPayload patch }

def decodeRecordFields : Decoder (WalRecord × UInt64) := do
  let magic ← take 4
  require (magic = kWalMagic)
  let type ← decodeU32
  require (type = kWalPatchType)
  let generation ← decodeU64
  let sequence ← decodeU64
  let payloadSize ← decodeU32
  let left ← remaining
  require (payloadSize.toNat ≤ kMaxWalPayloadBytes ∧ payloadSize.toNat ≤ kMaxPayloadBytes ∧
    payloadSize.toNat ≤ left - min left 8)
  let payload ← take payloadSize.toNat
  let storedChecksum ← decodeU64
  pure ({ generation, sequence, payload }, storedChecksum)

/-- One turn of the loop of `load`, up to the comparison of the checksums. -/
def decodeRecord (input : Bytes) : Option (WalRecord × Bytes) :=
  match decodeRecordFields.run input with
  | none => none
  | some ((record, storedChecksum), rest) =>
    if storedChecksum ≠ checksum (input.take (input.length - rest.length - 8)) then none else some (record, rest)

/-- The rest of the turn: whether the record is valid after `best`, and what it makes of it. A record
that `best` already covers is checked and left out. -/
def Checkpoint.accept (best : Checkpoint) (record : WalRecord) : Option Checkpoint :=
  if record.generation ≠ best.generation then none
  else if record.sequence ≤ best.sequence then
    if (decodeAndApplyPatch record.payload best.image).1 then some best else none
  else if record.sequence ≠ best.sequence + 1 then none
  else if (decodeAndApplyPatch record.payload best.image).1 then
    some { best with
      sequence := record.sequence
      image := (decodeAndApplyPatch record.payload best.image).2 }
  else none

def Checkpoint.next (best : Checkpoint) (input : Bytes) : Option (Checkpoint × Bytes) :=
  (decodeRecord input).bind fun (record, rest) => (best.accept record).map (·, rest)

def Checkpoint.replay (best : Checkpoint) (wal : Bytes) : PrefixScan.Result Checkpoint UInt8 :=
  PrefixScan.scan Checkpoint.next best wal

theorem length_walBody (record : WalRecord) : (walBody record).length = 28 + record.payload.length := by
  have magic : kWalMagic.length = 4 := rfl
  simp only [walBody, List.length_append, encodeU32, encodeU64, length_leBytes, magic]
  omega

theorem length_encodeRecord (record : WalRecord) :
    (encodeRecord record).length = 36 + record.payload.length := by
  rw [encodeRecord, List.length_append, length_walBody, encodeU64, length_leBytes]
  omega

theorem run_decodeRecordFields (record : WalRecord) (storedChecksum : UInt64) (rest : Bytes)
    (fits : record.payload.length ≤ kMaxWalPayloadBytes) :
    decodeRecordFields.run (walBody record ++ (encodeU64 storedChecksum ++ rest)) =
      some ((record, storedChecksum), rest) := by
  have limit : kMaxWalPayloadBytes = 8388608 := by decide
  have larger : kMaxWalPayloadBytes ≤ kMaxPayloadBytes := by decide
  have size : (UInt32.ofNat record.payload.length).toNat = record.payload.length := u32_roundtrip (by omega)
  have tail : (encodeU64 storedChecksum).length = 8 := length_leBytes 8 _
  have magic : Reads (take 4) kWalMagic kWalMagic := reads_take kWalMagic
  have body : Reads (take (UInt32.ofNat record.payload.length).toNat) record.payload record.payload := by
    rw [size]
    exact reads_take record.payload
  have room : (UInt32.ofNat record.payload.length).toNat ≤ kMaxWalPayloadBytes ∧
      (UInt32.ofNat record.payload.length).toNat ≤ kMaxPayloadBytes ∧
      (UInt32.ofNat record.payload.length).toNat ≤
        (record.payload ++ (encodeU64 storedChecksum ++ rest)).length -
          min (record.payload ++ (encodeU64 storedChecksum ++ rest)).length 8 := by
    rw [List.length_append, List.length_append, tail, size]
    omega
  have final := Reads.map (fun stored : UInt64 => (record, stored)) (reads_u64 storedChecksum) rest
  simp only [walBody, List.append_assoc]
  unfold decodeRecordFields
  rw [magic.run_bind, run_require_bind rfl, (reads_u32 _).run_bind, run_require_bind rfl,
    (reads_u64 _).run_bind, (reads_u64 _).run_bind, (reads_u32 _).run_bind,
    run_remaining_bind, run_require_bind room, body.run_bind]
  exact final

theorem decodeRecord_encodeRecord (record : WalRecord) (rest : Bytes)
    (fits : record.payload.length ≤ kMaxWalPayloadBytes) :
    decodeRecord (encodeRecord record ++ rest) = some (record, rest) := by
  have fields := run_decodeRecordFields record (checksum (walBody record)) rest fits
  have tail : (encodeU64 (checksum (walBody record))).length = 8 := length_leBytes 8 _
  have checked : (walBody record ++ (encodeU64 (checksum (walBody record)) ++ rest)).take
      ((walBody record ++ (encodeU64 (checksum (walBody record)) ++ rest)).length - rest.length - 8) =
      walBody record := by
    have cut : (walBody record ++ (encodeU64 (checksum (walBody record)) ++ rest)).length - rest.length - 8 =
        (walBody record).length := by
      rw [List.length_append, List.length_append, tail]
      omega
    rw [cut, List.take_left]
  rw [encodeRecord, List.append_assoc, decodeRecord, fields]
  simp only [checked]
  exact if_neg (by simp)

theorem decodeU32_sound {input rest : Bytes} {value : UInt32} (ran : decodeU32.run input = some (value, rest)) :
    input = encodeU32 value ++ rest := by
  obtain ⟨bytes, middle, taken, made⟩ := bind_run ran
  obtain ⟨width, rfl⟩ := take_sound taken
  simp only [StateT.run_pure, Option.pure_def, Option.some.injEq, Prod.mk.injEq] at made
  obtain ⟨rfl, rfl⟩ := made
  have bound := leValue_lt bytes
  rw [width] at bound
  have back : (UInt32.ofNat (leValue bytes)).toNat = leValue bytes := u32_roundtrip bound
  rw [encodeU32, back, ← width, leBytes_leValue]

theorem decodeU64_sound {input rest : Bytes} {value : UInt64} (ran : decodeU64.run input = some (value, rest)) :
    input = encodeU64 value ++ rest := by
  obtain ⟨bytes, middle, taken, made⟩ := bind_run ran
  obtain ⟨width, rfl⟩ := take_sound taken
  simp only [StateT.run_pure, Option.pure_def, Option.some.injEq, Prod.mk.injEq] at made
  obtain ⟨rfl, rfl⟩ := made
  have bound := leValue_lt bytes
  rw [width] at bound
  have back : (UInt64.ofNat (leValue bytes)).toNat = leValue bytes := by
    rw [UInt64.toNat_ofNat']
    exact Nat.mod_eq_of_lt bound
  rw [encodeU64, back, ← width, leBytes_leValue]

theorem decodeRecordFields_sound {input rest : Bytes} {record : WalRecord} {storedChecksum : UInt64}
    (whole : decodeRecordFields.run input = some ((record, storedChecksum), rest)) :
    input = walBody record ++ (encodeU64 storedChecksum ++ rest) ∧
      record.payload.length ≤ kMaxWalPayloadBytes := by
  obtain ⟨magic, input1, read, ran⟩ := bind_run whole
  have magicBytes := (take_sound read).2
  obtain ⟨_, input2, read, ran⟩ := bind_run ran
  obtain ⟨isMagic, same2⟩ := require_run read
  obtain ⟨type, input3, read, ran⟩ := bind_run ran
  have typeBytes := decodeU32_sound read
  obtain ⟨_, input4, read, ran⟩ := bind_run ran
  obtain ⟨isPatch, same4⟩ := require_run read
  obtain ⟨generation, input5, read, ran⟩ := bind_run ran
  have generationBytes := decodeU64_sound read
  obtain ⟨sequence, input6, read, ran⟩ := bind_run ran
  have sequenceBytes := decodeU64_sound read
  obtain ⟨payloadSize, input7, read, ran⟩ := bind_run ran
  have sizeBytes := decodeU32_sound read
  rw [run_remaining_bind] at ran
  obtain ⟨_, input8, read, ran⟩ := bind_run ran
  obtain ⟨room, same8⟩ := require_run read
  obtain ⟨payload, input9, read, ran⟩ := bind_run ran
  obtain ⟨size, payloadBytes⟩ := take_sound read
  obtain ⟨stored, input10, read, ran⟩ := bind_run ran
  have storedBytes := decodeU64_sound read
  simp only [StateT.run_pure, Option.pure_def, Option.some.injEq, Prod.mk.injEq] at ran
  obtain ⟨⟨rfl, rfl⟩, rfl⟩ := ran
  have width : UInt32.ofNat payload.length = payloadSize := by
    rw [size, UInt32.ofNat_toNat]
  refine ⟨?_, size ▸ room.1⟩
  rw [magicBytes, ← same2, typeBytes, ← same4, generationBytes, sequenceBytes, sizeBytes, ← same8,
    payloadBytes, storedBytes, isMagic, isPatch]
  simp only [walBody, width, List.append_assoc]

theorem decodeRecord_sound {input rest : Bytes} {record : WalRecord}
    (decoded : decodeRecord input = some (record, rest)) :
    input = encodeRecord record ++ rest ∧ record.payload.length ≤ kMaxWalPayloadBytes := by
  unfold decodeRecord at decoded
  split at decoded
  · contradiction
  · rename_i found storedChecksum remainder ran
    obtain ⟨layout, fits⟩ := decodeRecordFields_sound ran
    split at decoded
    · contradiction
    · rename_i matching
      rw [ne_eq, not_not] at matching
      simp only [Option.some.injEq, Prod.mk.injEq] at decoded
      obtain ⟨rfl, rfl⟩ := decoded
      have tail : (encodeU64 storedChecksum).length = 8 := length_leBytes 8 _
      have cut : input.length - remainder.length - 8 = (walBody found).length := by
        rw [layout, List.length_append, List.length_append, tail]
        omega
      rw [cut, layout, List.take_left] at matching
      refine ⟨?_, fits⟩
      rw [layout, matching, encodeRecord, List.append_assoc]

theorem decodeRecord_take (record : WalRecord) (size : Nat) (fits : record.payload.length ≤ kMaxWalPayloadBytes)
    (short : size < (encodeRecord record).length) : decodeRecord ((encodeRecord record).take size) = none := by
  cases decoded : decodeRecord ((encodeRecord record).take size) with
  | none => rfl
  | some pair =>
    obtain ⟨found, rest⟩ := pair
    obtain ⟨layout, foundFits⟩ := decodeRecord_sound decoded
    have whole : encodeRecord record = encodeRecord found ++ (rest ++ (encodeRecord record).drop size) := by
      rw [← List.append_assoc, ← layout, List.take_append_drop]
    have first := decodeRecord_encodeRecord found (rest ++ (encodeRecord record).drop size) foundFits
    have second := decodeRecord_encodeRecord record [] fits
    rw [List.append_nil, whole] at second
    rw [first] at second
    have nothing := congrArg Prod.snd (Option.some.inj second)
    have dropped : (encodeRecord record).drop size = [] := (List.append_eq_nil_iff.mp nothing).2
    rw [List.drop_eq_nil_iff] at dropped
    omega

theorem next_framed : PrefixScan.Framed Checkpoint.next where
  sound := by
    intro best best' input rest read
    obtain ⟨⟨record, after⟩, decoded, accepted⟩ := Option.bind_eq_some_iff.mp read
    obtain ⟨moved, -, same⟩ := Option.map_eq_some_iff.mp accepted
    obtain ⟨rfl, rfl⟩ := Prod.mk.inj same
    obtain ⟨layout, -⟩ := decodeRecord_sound decoded
    refine ⟨encodeRecord record, ?_, layout⟩
    intro empty
    have length := length_encodeRecord record
    rw [empty, List.length_nil] at length
    omega
  frame := by
    intro best best' front rest read other
    obtain ⟨⟨record, after⟩, decoded, accepted⟩ := Option.bind_eq_some_iff.mp read
    obtain ⟨moved, found, same⟩ := Option.map_eq_some_iff.mp accepted
    obtain ⟨rfl, rfl⟩ := Prod.mk.inj same
    obtain ⟨layout, fits⟩ := decodeRecord_sound decoded
    have record : front = encodeRecord record := List.append_cancel_right layout
    rw [Checkpoint.next, record, decodeRecord_encodeRecord _ other fits]
    simp [found]

end SubConverter.Statistics
