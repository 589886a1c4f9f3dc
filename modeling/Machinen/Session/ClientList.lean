import Machinen.Session.Telemetry
import Machinen.Lib.Decimal
import Machinen.Session.Delivery

/-! The list of attached clients on the wire: the worker's table of viewers, written as records
with their lengths inside, and the reader on the other side of the control connection. -/
namespace Machinen.Session
open Worker

structure AttachedClient where
  id : Nat
  name : Bytes
  fits : name.length ≤ clientNameCapacity
  pid : Option Int32
  connectedAtMs : Int64
  writer : Bool
  resize : Bool
  readOnly : Bool

/-- What is printed for a client without a name. -/
def unnamed (id : Nat) : Bytes := [0x63, 0x6c, 0x69, 0x65, 0x6e, 0x74, 0x20] ++ Decimal.encode id

def readLong (bytes : Bytes) : Int64 := (UInt64.ofNat (Bytes.ofBe bytes)).toInt64

/-- The fields of one item; the name is printed or copied to its buffer, or behind it. A trap is the
outer `none`, an error the inner one. -/
def nameClient (id : Nat) (pid : Int32) (connectedAtMs : Int64) (requested granted : UInt8)
    (encodedName : Bytes) : Option (Option AttachedClient) :=
  let name := if encodedName = [] then unnamed id else encodedName
  if fits : name.length ≤ clientNameCapacity then
    some (some {
      id := id
      name := name
      fits := fits
      pid := if 0 < pid then some pid else none
      connectedAtMs := connectedAtMs
      writer := granted &&& 1 != 0
      resize := granted &&& 2 != 0
      readOnly := requested &&& 3 == 0 })
  else if encodedName = [] then some none
  else none

/-- The item from the offset on, and where it ends; `taken` clients have been read before it. -/
def decodeItem (payload : Bytes) (offset taken : Nat) : Option (Option (AttachedClient × Nat)) :=
  if payload.length < offset then none
  else if payload.length - offset < clientListItemHeaderLength then some none
  else do
    let nameLength := (← payload[offset + 22]?).toNat
    let itemEnd := offset + clientListItemHeaderLength + nameLength
    if 2 ^ 16 ≤ itemEnd then none
    else if clientNameCapacity < nameLength ∨ payload.length < itemEnd then return none
    else
      let id := Bytes.ofBe (← Bytes.part payload offset (offset + 8))
      let pid := readInt (← Bytes.part payload (offset + 8) (offset + 12))
      let requested ← payload[offset + 20]?
      let granted ← payload[offset + 21]?
      let encodedName ← Bytes.part payload (offset + clientListItemHeaderLength) itemEnd
      if !(ByteArray.mk encodedName.toArray).validateUTF8 then return none
      else if maxAttachedClients ≤ taken then none
      else
        let connectedAtMs := readLong (← Bytes.part payload (offset + 12) (offset + 20))
        return (← nameClient id pid connectedAtMs requested granted encodedName).map (·, itemEnd)

def decodeItems (payload : Bytes) : Nat → Nat → List AttachedClient → Option (Option (List AttachedClient))
  | 0, offset, items => some (if offset = payload.length then some items else none)
  | count + 1, offset, items =>
    match decodeItem payload offset items.length with
    | none => none
    | some none => some none
    | some (some (client, itemEnd)) => decodeItems payload count itemEnd (items ++ [client])

def decodeAttachedClients (payload : Bytes) : Option (Option (List AttachedClient)) :=
  match payload with
  | [] => some none
  | expectedCount :: _ =>
    if maxViewerClients < expectedCount.toNat then some none
    else if 2 ^ 16 ≤ payload.length then none
    else decodeItems payload expectedCount.toNat clientListHeaderLength []

/-- Where `count` items end that start at the offset, by their own lengths. -/
def listEnd (payload : Bytes) : Nat → Nat → Nat
  | 0, offset => offset
  | count + 1, offset =>
    listEnd payload count (offset + clientListItemHeaderLength + (payload.getD (offset + 22) 0).toNat)

/-- What the reader is to know of a client of the worker. -/
structure Shows (client : Client) (item : AttachedClient) : Prop where
  id : item.id = client.clientId
  name : item.name = if client.clientName = [] then unnamed client.clientId else client.clientName
  pid : item.pid = (let pid := (UInt32.ofNat client.clientPid).toInt32; if 0 < pid then some pid else none)
  connectedAtMs : item.connectedAtMs = (UInt64.ofNat client.connectedAtMs).toInt64
  writer : item.writer = client.granted .writer
  resize : item.resize = client.granted .resize
  readOnly : item.readOnly = (!client.requested .writer && !client.requested .resize)

structure Client.Named (client : Client) : Prop where
  id : client.clientId ≤ maxClientId
  short : client.clientName.length ≤ clientNameCapacity
  text : (ByteArray.mk client.clientName.toArray).validateUTF8 = true

section Parts

variable {id pid connected : Bytes} (eight : id.length = 8) (four : pid.length = 4)
  (eight' : connected.length = 8) (front : Bytes) (requested granted nameLength : UInt8) (rest : Bytes)

def itemParts (id pid connected : Bytes) (requested granted nameLength : UInt8) (rest : Bytes) : Bytes :=
  id ++ (pid ++ (connected ++ (requested :: granted :: nameLength :: rest)))

theorem parts_of_item {item : Bytes} (long : clientListItemHeaderLength ≤ item.length) :
    ∃ id pid connected requested granted nameLength rest,
      item = itemParts id pid connected requested granted nameLength rest ∧
        id.length = 8 ∧ pid.length = 4 ∧ connected.length = 8 := by
  have split : item = item.take 23 ++ item.drop 23 := (List.take_append_drop 23 item).symm
  have length : (item.take 23).length = 23 := List.length_take_of_le long
  generalize item.take 23 = head at split length
  match head, length with
  | [a, b, c, d, e, f, g, h, i, j, k, l, m, n, o, p, q, r, s, t, u, v, w], _ =>
    exact ⟨[a, b, c, d, e, f, g, h], [i, j, k, l], [m, n, o, p, q, r, s, t], u, v, w, item.drop 23, split,
      rfl, rfl, rfl⟩

include eight four eight'

theorem itemParts_length :
    (itemParts id pid connected requested granted nameLength rest).length =
      clientListItemHeaderLength + rest.length := by
  simp only [itemParts, clientListItemHeaderLength, List.length_append, List.length_cons, eight, four,
    eight']
  omega

theorem item_parts :
    Bytes.part (itemParts id pid connected requested granted nameLength rest) 0 8 = some id ∧
      Bytes.part (itemParts id pid connected requested granted nameLength rest) 8 12 = some pid ∧
      Bytes.part (itemParts id pid connected requested granted nameLength rest) 12 20 = some connected ∧
      (itemParts id pid connected requested granted nameLength rest)[20]? = some requested ∧
      (itemParts id pid connected requested granted nameLength rest)[21]? = some granted ∧
      (itemParts id pid connected requested granted nameLength rest)[22]? = some nameLength ∧
      (itemParts id pid connected requested granted nameLength rest).drop 23 = rest := by
  have length := itemParts_length eight four eight' requested granted nameLength rest
  unfold clientListItemHeaderLength at length
  rw [Bytes.part_some ⟨by omega, by omega⟩, Bytes.part_some ⟨by omega, by omega⟩,
    Bytes.part_some ⟨by omega, by omega⟩]
  match id, eight, pid, four, connected, eight' with
  | [_, _, _, _, _, _, _, _], _, [_, _, _, _], _, [_, _, _, _, _, _, _, _], _ =>
      exact ⟨rfl, rfl, rfl, rfl, rfl, rfl, rfl⟩

/-- The item after `front`, read by the offset where it starts. -/
theorem decodeItem_parts (taken : Nat)
    (short : (front ++ itemParts id pid connected requested granted nameLength rest).length ≤
      maxFramePayload) :
    decodeItem (front ++ itemParts id pid connected requested granted nameLength rest) front.length taken =
      if clientNameCapacity < nameLength.toNat ∨ rest.length < nameLength.toNat then some none
      else if !(ByteArray.mk (rest.take nameLength.toNat).toArray).validateUTF8 then some none
      else if maxAttachedClients ≤ taken then none
      else (nameClient (Bytes.ofBe id) (readInt pid) (readLong connected) requested granted
        (rest.take nameLength.toNat)).map
          (·.map (·, front.length + clientListItemHeaderLength + nameLength.toNat)) := by
  obtain ⟨first, second, third, twenty, next, last, tail⟩ :=
    item_parts eight four eight' requested granted nameLength rest
  have length := itemParts_length eight four eight' requested granted nameLength rest
  have byte := nameLength.toNat_lt
  generalize itemParts id pid connected requested granted nameLength rest = item at *
  rw [List.length_append] at short
  have at_ : ∀ k, (front ++ item)[front.length + k]? = item[k]? := fun k => by
    rw [List.getElem?_append_right (Nat.le_add_right ..), Nat.add_sub_cancel_left]
  have shifted := Bytes.part_shift front item
  unfold decodeItem
  rw [List.length_append, if_neg (by omega), if_neg (by omega), at_, last]
  dsimp only [Option.bind_eq_bind, Option.bind_some, bind]
  unfold maxFramePayload at short
  rw [if_neg (by omega)]
  by_cases long : clientNameCapacity < nameLength.toNat ∨ rest.length < nameLength.toNat
  · rw [if_pos (by omega), if_pos long]
    rfl
  · have name : Bytes.part (front ++ item) (front.length + clientListItemHeaderLength)
        (front.length + clientListItemHeaderLength + nameLength.toNat) =
          some (rest.take nameLength.toNat) := by
      rw [Nat.add_assoc, shifted, Bytes.part_some ⟨by omega, by omega⟩, Nat.add_sub_cancel_left]
      exact congrArg (fun tail => some (List.take nameLength.toNat tail)) tail
    have start := shifted 0 8
    rw [Nat.add_zero] at start
    rw [if_neg (by omega), if_neg long, start, shifted, shifted, at_, at_, first, second, third, twenty,
      next, name, Option.map_eq_bind]
    rfl

end Parts

theorem unnamed_fits {id : Nat} (small : id < 256 ^ 8) : (unnamed id).length ≤ clientNameCapacity := by
  have digits : (Decimal.encode id).length ≤ 19 + 1 :=
    Decimal.encode_length (Nat.lt_trans small (by decide))
  unfold unnamed clientNameCapacity
  rw [List.length_append]
  simp only [List.length_cons, List.length_nil]
  omega

theorem mask_writer (flags : LeaseFlags) : (flags.mask &&& 1 != 0) = flags .writer := by
  unfold LeaseFlags.mask
  cases flags .writer <;> cases flags .resize <;> rfl

theorem mask_resize (flags : LeaseFlags) : (flags.mask &&& 2 != 0) = flags .resize := by
  unfold LeaseFlags.mask
  cases flags .writer <;> cases flags .resize <;> rfl

theorem mask_none (flags : LeaseFlags) : (flags.mask &&& 3 == 0) = (!flags .writer && !flags .resize) := by
  unfold LeaseFlags.mask
  cases flags .writer <;> cases flags .resize <;> rfl

theorem nameClient_some {id : Nat} (small : id < 256 ^ 8) (pid : Int32) (connectedAtMs : Int64)
    (requested granted : UInt8) {encodedName : Bytes} (short : encodedName.length ≤ clientNameCapacity) :
    ∃ item, nameClient id pid connectedAtMs requested granted encodedName = some (some item) ∧
      item.id = id ∧ item.name = (if encodedName = [] then unnamed id else encodedName) ∧
      item.pid = (if 0 < pid then some pid else none) ∧ item.connectedAtMs = connectedAtMs ∧
      item.writer = (granted &&& 1 != 0) ∧ item.resize = (granted &&& 2 != 0) ∧
      item.readOnly = (requested &&& 3 == 0) := by
  have fits : (if encodedName = [] then unnamed id else encodedName).length ≤ clientNameCapacity := by
    split
    · exact unnamed_fits small
    · exact short
  exact ⟨_, dif_pos fits, rfl, rfl, rfl, rfl, rfl, rfl, rfl⟩

theorem readInt_be (n : Nat) : readInt (Bytes.be 4 n) = (UInt32.ofNat n).toInt32 := by
  have same : UInt32.ofNat (n % 256 ^ 4) = UInt32.ofNat n := by
    apply UInt32.toNat_inj.mp
    rw [UInt32.toNat_ofNat', UInt32.toNat_ofNat']
    exact Nat.mod_mod n (2 ^ 32)
  unfold readInt
  rw [Bytes.ofBe_be_mod, same]

theorem readLong_be (n : Nat) : readLong (Bytes.be 8 n) = (UInt64.ofNat n).toInt64 := by
  have same : UInt64.ofNat (n % 256 ^ 8) = UInt64.ofNat n := by
    apply UInt64.toNat_inj.mp
    rw [UInt64.toNat_ofNat', UInt64.toNat_ofNat']
    exact Nat.mod_mod n (2 ^ 64)
  unfold readLong
  rw [Bytes.ofBe_be_mod, same]

theorem attachedClient_parts (client : Client) : attachedClient client =
    itemParts (Bytes.be 8 client.clientId) (Bytes.be 4 client.clientPid) (Bytes.be 8 client.connectedAtMs)
      client.requested.mask client.granted.mask (UInt8.ofNat client.clientName.length) client.clientName :=
  rfl

theorem attachedClient_length (client : Client) :
    (attachedClient client).length = clientListItemHeaderLength + client.clientName.length := by
  rw [attachedClient_parts, itemParts_length (Bytes.be_length ..) (Bytes.be_length ..) (Bytes.be_length ..)]

theorem decodeItem_attached {client : Client} (named : client.Named) (front more : Bytes) {taken : Nat}
    (room : taken < maxAttachedClients)
    (short : (front ++ (attachedClient client ++ more)).length ≤ maxFramePayload) :
    ∃ item, decodeItem (front ++ (attachedClient client ++ more)) front.length taken =
      some (some (item, (front ++ attachedClient client).length)) ∧ Shows client item := by
  have small : client.clientId < 256 ^ 8 := Nat.lt_of_le_of_lt named.id (by decide)
  have length : (UInt8.ofNat client.clientName.length).toNat = client.clientName.length := by
    have := named.short
    unfold clientNameCapacity at this
    rw [UInt8.toNat_ofNat']
    omega
  have parts : attachedClient client ++ more =
      itemParts (Bytes.be 8 client.clientId) (Bytes.be 4 client.clientPid) (Bytes.be 8 client.connectedAtMs)
        client.requested.mask client.granted.mask (UInt8.ofNat client.clientName.length)
          (client.clientName ++ more) := by
    rw [attachedClient_parts]
    simp only [itemParts, List.append_assoc, List.cons_append]
  obtain ⟨item, copied, id, name, pid, at_, writer, resize, readOnly⟩ := nameClient_some small
    (readInt (Bytes.be 4 client.clientPid)) (readLong (Bytes.be 8 client.connectedAtMs))
      client.requested.mask
    client.granted.mask named.short
  rw [parts] at short ⊢
  rw [decodeItem_parts (Bytes.be_length ..) (Bytes.be_length ..) (Bytes.be_length ..) _ _ _ _ _ _ short,
    length,
    if_neg (by rw [List.length_append]; exact fun long => by have := named.short; omega), List.take_left,
    named.text, if_neg nofun, if_neg (Nat.not_le_of_lt room), Bytes.ofBe_be 8 _ small, copied,
    Nat.add_assoc,
    ← attachedClient_length, ← List.length_append]
  refine ⟨item, rfl, id, name, pid.trans ?_, at_.trans ?_, writer.trans (mask_writer _),
    resize.trans (mask_resize _), readOnly.trans (mask_none _)⟩
  · rw [readInt_be]
  · exact readLong_be _

theorem decodeItems_attached (clients : List Client) (named : ∀ client ∈ clients, client.Named)
    (front : Bytes)
    (items : List AttachedClient) (room : items.length + clients.length ≤ maxAttachedClients)
    (short : (front ++ clients.flatMap attachedClient).length ≤ maxFramePayload) :
    ∃ more, decodeItems (front ++ clients.flatMap attachedClient) clients.length front.length items =
      some (some (items ++ more)) ∧ List.Forall₂ Shows clients more := by
  induction clients generalizing front items with
  | nil => exact ⟨[], by simp [decodeItems], .nil⟩
  | cons client rest ih =>
    rw [List.length_cons] at room
    rw [List.flatMap_cons] at short ⊢
    have space : items.length < maxAttachedClients := by omega
    obtain ⟨item, decoded, shows⟩ := decodeItem_attached (named client List.mem_cons_self) front
      (rest.flatMap attachedClient) space short
    have joined : front ++ (attachedClient client ++ rest.flatMap attachedClient) =
        (front ++ attachedClient client) ++ rest.flatMap attachedClient := (List.append_assoc ..).symm
    rw [joined] at short decoded ⊢
    obtain ⟨more, later, all⟩ := ih (fun other listed => named other (List.mem_cons_of_mem client listed))
      (front ++ attachedClient client) (items ++ [item])
        (by rw [List.length_append, List.length_singleton]; omega) short
    refine ⟨item :: more, ?_, .cons shows all⟩
    rw [List.length_cons, decodeItems, decoded]
    dsimp only
    rw [later, List.append_assoc, List.singleton_append]

def clientsPayload (clients : List Client) : Bytes :=
  UInt8.ofNat clients.length :: clients.flatMap attachedClient

theorem clientsPayload_short {clients : List Client} (named : ∀ client ∈ clients, client.Named) :
    (clientsPayload clients).length ≤ 1 + 150 * clients.length := by
  have items : (clients.flatMap attachedClient).length ≤ 150 * clients.length := by
    induction clients with
    | nil => exact Nat.le_refl 0
    | cons client rest ih =>
      have short := (named client List.mem_cons_self).short
      have later := ih fun other listed => named other (List.mem_cons_of_mem client listed)
      rw [List.flatMap_cons, List.length_append, attachedClient_length, List.length_cons]
      unfold clientNameCapacity at short
      unfold clientListItemHeaderLength
      omega
  rw [clientsPayload, List.length_cons]
  omega

theorem decode_clientsPayload {clients : List Client} (named : ∀ client ∈ clients, client.Named)
    (few : clients.length ≤ maxViewerClients) :
    ∃ items, decodeAttachedClients (clientsPayload clients) = some (some items) ∧
      List.Forall₂ Shows clients items := by
  have length := clientsPayload_short named
  have eight : clients.length ≤ 8 := few
  have short : ([UInt8.ofNat clients.length] ++ clients.flatMap attachedClient).length ≤
    maxFramePayload := by
    change (clientsPayload clients).length ≤ 32 * 1024
    omega
  obtain ⟨items, decoded, all⟩ := decodeItems_attached clients named [UInt8.ofNat clients.length] []
    (by rw [List.length_nil, Nat.zero_add]; exact few) short
  have count : (UInt8.ofNat clients.length).toNat = clients.length := by
    rw [UInt8.toNat_ofNat']
    omega
  refine ⟨items, ?_, all⟩
  unfold clientsPayload decodeAttachedClients
  dsimp only
  rw [count, if_neg (Nat.not_lt.mpr few), if_neg
    (by change ¬ 2 ^ 16 ≤ (clientsPayload clients).length; omega)]
  exact decoded

theorem decodeItem_total {payload : Bytes} {offset taken : Nat} (inside : offset ≤ payload.length)
    (short : payload.length ≤ maxFramePayload) (room : taken < maxAttachedClients) :
    decodeItem payload offset taken = some none ∨ ∃ client stop,
    decodeItem payload offset taken = some (some (client, stop)) ∧
      stop = offset + clientListItemHeaderLength + (payload.getD (offset + 22) 0).toNat ∧
        stop ≤ payload.length := by
  by_cases long : clientListItemHeaderLength ≤ (payload.drop offset).length
  · obtain ⟨id, pid, connected, requested, granted, nameLength, rest, split, eight, four, eight'⟩ :=
      parts_of_item long
    have front : (payload.take offset).length = offset := List.length_take_of_le inside
    have whole : payload = payload.take offset ++
      itemParts id pid connected requested granted nameLength rest := by
      rw [← split, List.take_append_drop]
    have last := (item_parts eight four eight' requested granted nameLength rest).2.2.2.2.2.1
    have byte : payload.getD (offset + 22) 0 = nameLength := by
      rw [← split, List.getElem?_drop] at last
      rw [List.getD_eq_getElem?_getD, last, Option.getD_some]
    have length : payload.length = offset + (clientListItemHeaderLength + rest.length) := by
      rw [← itemParts_length eight four eight' requested granted nameLength rest, ← split, List.length_drop]
      omega
    have read := decodeItem_parts eight four eight' (payload.take offset) requested granted nameLength rest
      taken (whole ▸ short)
    rw [← whole, front] at read
    rw [read, byte]
    split
    · exact .inl rfl
    rename_i fits
    split
    · exact .inl rfl
    rw [if_neg (Nat.not_le_of_lt room)]
    have name : (rest.take nameLength.toNat).length ≤ clientNameCapacity := by
      rw [List.length_take]
      omega
    have small : Bytes.ofBe id < 256 ^ 8 := eight ▸ Bytes.ofBe_lt id
    obtain ⟨item, copied, -⟩ := nameClient_some small (readInt pid) (readLong connected) requested granted
      name
    rw [copied]
    exact .inr ⟨item, _, rfl, rfl, by omega⟩
  · left
    rw [List.length_drop] at long
    unfold decodeItem
    rw [if_neg (by omega), if_pos (by omega)]

theorem decodeItems_total {payload : Bytes} (short : payload.length ≤ maxFramePayload) (count offset : Nat)
    (items : List AttachedClient) (inside : offset ≤ payload.length)
    (room : items.length + count ≤ maxAttachedClients) :
    decodeItems payload count offset items = some none ∨
      (decodeItems payload count offset items).isSome ∧ listEnd payload count offset = payload.length := by
  induction count generalizing offset items with
  | zero =>
    unfold decodeItems listEnd
    split
    · rename_i same
      exact .inr ⟨rfl, same⟩
    · exact .inl rfl
  | succ count ih =>
    have space : items.length < maxAttachedClients := by omega
    unfold decodeItems listEnd
    rcases decodeItem_total inside short space with refused | ⟨client, stop, read, rfl, inside'⟩
    · rw [refused]
      exact .inl rfl
    · rw [read]
      exact ih _ _ inside' (by rw [List.length_append, List.length_singleton]; omega)

theorem decodeAttachedClients_total {payload : Bytes} (short : payload.length ≤ maxFramePayload) :
    decodeAttachedClients payload ≠ none ∧
      (listEnd payload (payload.getD 0 0).toNat clientListHeaderLength ≠ payload.length →
        decodeAttachedClients payload = some none) := by
  unfold decodeAttachedClients
  match payload with
  | [] => exact ⟨nofun, fun _ => rfl⟩
  | count :: rest =>
    dsimp only
    split
    · exact ⟨nofun, fun _ => rfl⟩
    rename_i few
    unfold maxFramePayload at short
    rw [if_neg (by omega), List.getD_cons_zero]
    have inside : clientListHeaderLength ≤ (count :: rest).length := Nat.le_add_left 1 rest.length
    rcases decodeItems_total short count.toNat _ [] inside
      (by rw [List.length_nil, Nat.zero_add]; exact Nat.not_lt.mp few)
      with refused | ⟨taken, same⟩
    · rw [refused]
      exact ⟨nofun, fun _ => rfl⟩
    · refine ⟨fun traps => ?_, fun other => absurd same other⟩
      rw [traps] at taken
      exact nomatch taken

end Machinen.Session
