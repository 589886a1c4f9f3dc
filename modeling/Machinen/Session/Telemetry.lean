import Machinen.Session.Wire

/-! The telemetry of a session on the wire. The decoder does not compare the lengths in a payload
with the room it has for the names, and adds the first of them to the length of the header in
eight bits. -/
namespace Machinen.Session

def telemetryHeaderLength : Nat := 14
def telemetryNameCapacity : Nat := 127

inductive Activity where
  | unknown | idle | working
deriving DecidableEq, Repr

def Activity.toInt : Activity → UInt8
  | .unknown => 0
  | .idle => 1
  | .working => 2

def Activity.fromInt : UInt8 → Option Activity
  | 0 => some .unknown
  | 1 => some .idle
  | 2 => some .working
  | _ => none

/-- A name in its buffer: the bytes up to its length. -/
abbrev Name := { bytes : Bytes // bytes.length ≤ telemetryNameCapacity }

structure Telemetry where
  activity : Activity
  shellPid : Int32
  processPid : Int32
  shellName : Name
  command : Name
deriving DecidableEq

def readInt (bytes : Bytes) : Int32 := (UInt32.ofNat (Bytes.ofBe bytes)).toInt32

def writeInt (value : Int32) : Bytes := Bytes.be 4 value.toUInt32.toNat

/-- `reserved` are the bytes after the first one. -/
def telemetryBytes (reserved : Bytes) (telemetry : Telemetry) : Bytes :=
  telemetry.activity.toInt :: (reserved ++ (writeInt telemetry.shellPid ++ (writeInt telemetry.processPid ++
    (UInt8.ofNat telemetry.shellName.1.length :: UInt8.ofNat telemetry.command.1.length ::
      (telemetry.shellName.1 ++ telemetry.command.1)))))

def encodeTelemetry (telemetry : Telemetry) : Bytes := telemetryBytes [0, 0, 0] telemetry

def copyName (bytes : Bytes) : Option Name :=
  if fits : bytes.length ≤ telemetryNameCapacity then some ⟨bytes, fits⟩ else none

/-- A trap is the outer `none`, an error the inner one. -/
def decodeTelemetry (payload : Bytes) : Option (Option Telemetry) :=
  if payload.length < telemetryHeaderLength then some none
  else match Activity.fromInt (payload.getD 0 0) with
    | none => some none
    | some activity =>
      let shellLength := (payload.getD 12 0).toNat
      let commandLength := (payload.getD 13 0).toNat
      -- the sum of a constant and an u8 is an u8
      if 256 ≤ telemetryHeaderLength + shellLength then none
      else
        let shellEnd := telemetryHeaderLength + shellLength
        let commandEnd := shellEnd + commandLength
        if commandEnd ≠ payload.length then some none
        else do
          let shellName ← copyName (← Bytes.part payload telemetryHeaderLength shellEnd)
          let command ← copyName (← Bytes.part payload shellEnd commandEnd)
          return some {
            activity := activity
            shellPid := readInt (Bytes.slice payload 4 4)
            processPid := readInt (Bytes.slice payload 8 4)
            shellName := shellName
            command := command }

/-- A payload with a known activity whose first length does not fit into eight bits with that of
the header, or which is as long as its lengths say with a name that is too long for its buffer. -/
def Overlong (payload : Bytes) : Prop :=
  telemetryHeaderLength ≤ payload.length ∧ (Activity.fromInt (payload.getD 0 0)).isSome ∧
    (256 ≤ telemetryHeaderLength + (payload.getD 12 0).toNat ∨
      payload.length = telemetryHeaderLength + (payload.getD 12 0).toNat + (payload.getD 13 0).toNat ∧
        (telemetryNameCapacity < (payload.getD 12 0).toNat ∨
          telemetryNameCapacity < (payload.getD 13 0).toNat))

instance (payload : Bytes) : Decidable (Overlong payload) := inferInstanceAs (Decidable (_ ∧ _ ∧ _))

theorem Activity.fromInt_toInt (activity : Activity) : fromInt activity.toInt = some activity := by
  cases activity <;> rfl

theorem Activity.toInt_of_fromInt {byte : UInt8} {activity : Activity}
    (read : fromInt byte = some activity) : activity.toInt = byte := by
  unfold fromInt at read
  split at read
  · exact Option.some.inj read ▸ rfl
  · exact Option.some.inj read ▸ rfl
  · exact Option.some.inj read ▸ rfl
  · exact nomatch read

theorem readInt_writeInt (value : Int32) : readInt (writeInt value) = value := by
  unfold readInt writeInt
  rw [Bytes.ofBe_be 4 _ value.toUInt32.toNat_lt, UInt32.ofNat_toNat, Int32.toInt32_toUInt32]

theorem writeInt_readInt {bytes : Bytes} (four : bytes.length = 4) : writeInt (readInt bytes) = bytes := by
  have lt := Bytes.ofBe_lt bytes
  have back := Bytes.be_ofBe bytes
  rw [four] at lt back
  have small : bytes.ofBe < 2 ^ 32 := lt
  unfold writeInt readInt
  rw [UInt32.toUInt32_toInt32, UInt32.toNat_ofNat', Nat.mod_eq_of_lt small, back]

theorem writeInt_length (value : Int32) : (writeInt value).length = 4 := Bytes.be_length ..

/-! What the decoder does with a payload of known parts -/

section Parts

variable {reserved shell process : Bytes} (three : reserved.length = 3) (four : shell.length = 4)
  (four' : process.length = 4) (first shellLength commandLength : UInt8) (rest : Bytes)

def telemetryParts (first : UInt8) (reserved shell process : Bytes) (shellLength commandLength : UInt8)
    (rest : Bytes) : Bytes :=
  first :: (reserved ++ (shell ++ (process ++ (shellLength :: commandLength :: rest))))

theorem parts_of_long {payload : Bytes} (long : telemetryHeaderLength ≤ payload.length) :
    ∃ first reserved shell process shellLength commandLength rest,
      payload = telemetryParts first reserved shell process shellLength commandLength rest ∧
        reserved.length = 3 ∧ shell.length = 4 ∧ process.length = 4 := by
  have split : payload = payload.take 14 ++ payload.drop 14 := (List.take_append_drop 14 payload).symm
  have length : (payload.take 14).length = 14 := List.length_take_of_le long
  generalize payload.take 14 = front at split length
  match front, length with
  | [a, b, c, d, e, f, g, h, i, j, k, l, m, n], _ =>
    exact ⟨a, [b, c, d], [e, f, g, h], [i, j, k, l], m, n, payload.drop 14, split, rfl, rfl, rfl⟩

include three four four'

theorem parts_bytes :
    telemetryHeaderLength + rest.length =
        (telemetryParts first reserved shell process shellLength commandLength rest).length ∧
      (telemetryParts first reserved shell process shellLength commandLength rest).getD 0 0 = first ∧
      (telemetryParts first reserved shell process shellLength commandLength rest).getD 12 0 = shellLength ∧
      (telemetryParts first reserved shell process shellLength commandLength rest).getD 13 0 =
        commandLength ∧
      Bytes.slice (telemetryParts first reserved shell process shellLength commandLength rest) 4 4 = shell ∧
      Bytes.slice (telemetryParts first reserved shell process shellLength commandLength rest) 8 4 =
        process ∧
      telemetryParts first reserved shell process shellLength commandLength rest =
        (first :: (reserved ++ (shell ++ (process ++ [shellLength, commandLength])))) ++ rest := by
  match reserved, three, shell, four, process, four' with
  | [a, b, c], _, [d, e, f, g], _, [h, i, j, k], _ =>
    refine ⟨?_, rfl, rfl, rfl, rfl, rfl, rfl⟩
    simp only [telemetryParts, telemetryHeaderLength, List.length_cons, List.length_append, List.length_nil]
    omega

theorem decode_parts : decodeTelemetry (telemetryParts first reserved shell process shellLength
    commandLength rest) =
    match Activity.fromInt first with
    | none => some none
    | some activity =>
      if 256 ≤ telemetryHeaderLength + shellLength.toNat then none
      else if shellLength.toNat + commandLength.toNat ≠ rest.length then some none
      else do
        let shellName ← copyName (rest.take shellLength.toNat)
        let command ← copyName (rest.drop shellLength.toNat)
        return some ⟨activity, readInt shell, readInt process, shellName, command⟩ := by
  obtain ⟨length, head, twelve, thirteen, pid, pid', split⟩ :=
    parts_bytes three four four' first shellLength commandLength rest
  unfold decodeTelemetry
  rw [← length, head, twelve, thirteen, pid, pid', if_neg (by omega)]
  split
  · rfl
  dsimp only
  split
  · rfl
  by_cases whole : shellLength.toNat + commandLength.toNat = rest.length
  · rw [if_neg (by omega), if_neg (not_not.mpr whole), split]
    have before : (first :: (reserved ++ (shell ++ (process ++ [shellLength, commandLength])))).length =
      telemetryHeaderLength := by
      simp only [List.length_cons, List.length_append, List.length_nil, three, four, four',
        telemetryHeaderLength]
    have name := (Bytes.part_shift (first :: (reserved ++
      (shell ++ (process ++ [shellLength, commandLength])))) rest 0
      shellLength.toNat).trans (Bytes.part_some ⟨Nat.zero_le _, by omega⟩)
    have command := (Bytes.part_shift (first :: (reserved ++
      (shell ++ (process ++ [shellLength, commandLength])))) rest
      shellLength.toNat (shellLength.toNat + commandLength.toNat)).trans
        (Bytes.part_some ⟨Nat.le_add_right .., by omega⟩)
    rw [before, Nat.add_zero] at name
    rw [before, ← Nat.add_assoc] at command
    have tail : Bytes.slice rest shellLength.toNat
      (shellLength.toNat + commandLength.toNat - shellLength.toNat) =
        rest.drop shellLength.toNat := List.take_of_length_le (by rw [List.length_drop]; omega)
    rw [name, command, tail]
    rfl
  · rw [if_pos (by omega), if_pos whole]

end Parts

theorem copyName_some {bytes : Bytes} (fits : bytes.length ≤ telemetryNameCapacity) :
    copyName bytes = some ⟨bytes, fits⟩ := dif_pos fits

theorem byte_length {bytes : Bytes} {length : UInt8} (same : bytes.length = length.toNat) :
    UInt8.ofNat bytes.length = length := by
  rw [same, UInt8.ofNat_toNat]

theorem decode_says {payload : Bytes} {telemetry : Telemetry}
    (decoded : decodeTelemetry payload = some (some telemetry)) :
    ∃ reserved : Bytes, reserved.length = 3 ∧ payload = telemetryBytes reserved telemetry := by
  by_cases long : telemetryHeaderLength ≤ payload.length
  · obtain ⟨first, reserved, shell, process, shellLength, commandLength, rest, rfl, three, four, four'⟩ :=
      parts_of_long long
    rw [decode_parts three four four'] at decoded
    refine ⟨reserved, three, ?_⟩
    split at decoded
    · exact nomatch decoded
    rename_i activity known
    split at decoded
    · exact nomatch decoded
    split at decoded
    · exact nomatch decoded
    rename_i whole
    obtain ⟨shellName, copied, decoded⟩ := Option.bind_eq_some_iff.mp decoded
    obtain ⟨command, copied', decoded⟩ := Option.bind_eq_some_iff.mp decoded
    unfold copyName at copied copied'
    split at copied
    · split at copied'
      · cases copied
        cases copied'
        cases decoded
        have name : (rest.take shellLength.toNat).length = shellLength.toNat :=
          List.length_take_of_le (by omega)
        have command : (rest.drop shellLength.toNat).length = commandLength.toNat := by
          rw [List.length_drop]
          omega
        unfold telemetryBytes telemetryParts
        dsimp only
        rw [Activity.toInt_of_fromInt known, writeInt_readInt four, writeInt_readInt four',
          byte_length name, byte_length command, List.take_append_drop]
      · exact nomatch copied'
    · exact nomatch copied
  · unfold decodeTelemetry at decoded
    rw [if_pos (Nat.lt_of_not_le long)] at decoded
    exact nomatch decoded

theorem decode_encode (telemetry : Telemetry) :
    decodeTelemetry (encodeTelemetry telemetry) = some (some telemetry) := by
  obtain ⟨activity, shellPid, processPid, ⟨shellName, fits⟩, ⟨command, fits'⟩⟩ := telemetry
  have small : ∀ {n : Nat}, n ≤ telemetryNameCapacity → (UInt8.ofNat n).toNat = n := by
    intro n small
    unfold telemetryNameCapacity at small
    rw [UInt8.toNat_ofNat']
    omega
  have three : ([0, 0, 0] : Bytes).length = 3 := rfl
  have parts := decode_parts three (writeInt_length shellPid) (writeInt_length processPid) activity.toInt
    (UInt8.ofNat shellName.length) (UInt8.ofNat command.length) (shellName ++ command)
  rw [Activity.fromInt_toInt, small fits, small fits', List.take_left, List.drop_left,
    List.length_append] at parts
  dsimp only at parts
  unfold telemetryHeaderLength telemetryNameCapacity at *
  rw [if_neg (by omega), if_neg (by omega), copyName_some fits, copyName_some fits', readInt_writeInt,
    readInt_writeInt] at parts
  exact parts

theorem decode_traps_iff (payload : Bytes) : decodeTelemetry payload = none ↔ Overlong payload := by
  by_cases long : telemetryHeaderLength ≤ payload.length
  · obtain ⟨first, reserved, shell, process, shellLength, commandLength, rest, rfl, three, four, four'⟩ :=
      parts_of_long long
    obtain ⟨length, head, twelve, thirteen, -⟩ :=
      parts_bytes three four four' first shellLength commandLength rest
    rw [decode_parts three four four']
    unfold Overlong
    rw [← length, head, twelve, thirteen]
    cases Activity.fromInt first with
    | none => exact iff_of_false nofun fun overlong => nomatch overlong.2.1
    | some activity =>
      dsimp only
      split
      · rename_i large
        exact iff_of_true rfl ⟨Nat.le_add_right .., rfl, .inl large⟩
      rename_i small
      split
      · rename_i other
        refine iff_of_false nofun fun overlong => ?_
        rcases overlong.2.2 with large | ⟨whole, -⟩
        · exact small large
        · exact other (by omega)
      rename_i whole
      have name : (rest.take shellLength.toNat).length = shellLength.toNat :=
        List.length_take_of_le (by omega)
      have command : (rest.drop shellLength.toNat).length = commandLength.toNat := by
        rw [List.length_drop]
        omega
      by_cases fits : shellLength.toNat ≤ telemetryNameCapacity ∧
        commandLength.toNat ≤ telemetryNameCapacity
      · rw [copyName_some (Nat.le_trans (Nat.le_of_eq name) fits.1),
          copyName_some (Nat.le_trans (Nat.le_of_eq command) fits.2)]
        refine iff_of_false nofun fun overlong => ?_
        rcases overlong.2.2 with large | ⟨-, long⟩
        · exact small large
        · omega
      · refine iff_of_true ?_ ⟨Nat.le_add_right .., rfl, .inr ⟨by omega, by omega⟩⟩
        by_cases first : shellLength.toNat ≤ telemetryNameCapacity
        · rw [copyName_some (Nat.le_trans (Nat.le_of_eq name) first)]
          have behind : copyName (rest.drop shellLength.toNat) = none := dif_neg (by omega)
          rw [behind]
          rfl
        · have behind : copyName (rest.take shellLength.toNat) = none := dif_neg (by omega)
          rw [behind]
          rfl
  · unfold decodeTelemetry
    rw [if_pos (Nat.lt_of_not_le long)]
    exact iff_of_false nofun fun overlong => long overlong.1

/-- A payload is refused, or it is read as it was written, just when its lengths fit in the
buffers of the decoder and in its sum; and what the worker writes is read back. -/
theorem telemetry_total (payload : Bytes) :
    ((∃ result, decodeTelemetry payload = some result ∧ ∀ telemetry, result = some telemetry →
      ∃ reserved : Bytes, reserved.length = 3 ∧ payload = telemetryBytes reserved telemetry) ↔
        ¬ Overlong payload) ∧
    ∀ telemetry, decodeTelemetry (encodeTelemetry telemetry) = some (some telemetry) := by
  refine ⟨?_, decode_encode⟩
  rw [← decode_traps_iff]
  constructor
  · rintro ⟨result, decoded, -⟩ traps
    exact nomatch decoded.symm.trans traps
  · intro goes
    obtain ⟨result, decoded⟩ := Option.ne_none_iff_exists'.mp goes
    exact ⟨result, decoded, fun telemetry same => decode_says (same ▸ decoded)⟩

/-- A name of 128 bytes goes behind its buffer, and 14 + 242 does not fit into eight bits. -/
theorem long_name_traps :
    decodeTelemetry (List.replicate 12 0 ++ (128 :: 0 :: List.replicate 128 0x61)) = none ∧
      decodeTelemetry (List.replicate 12 0 ++ [242, 0]) = none := by
  decide +kernel

end Machinen.Session
