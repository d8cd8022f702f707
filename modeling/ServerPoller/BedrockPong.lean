import ServerPoller.Lib.Decimals
import ServerPoller.Lib.Numerals
import ServerPoller.Lib.Pieces
import ServerPoller.Lib.Utf8Lossy

/-! The parser of the answers of Bedrock servers: which datagrams it accepts, and what it reads from one that is
put together as documented. -/

namespace ServerPoller
open Numerals RustText Utf8

def raknetMagic : List UInt8 :=
  [0x00, 0xff, 0xff, 0x00, 0xfe, 0xfe, 0xfe, 0xfe, 0xfd, 0xfd, 0xfd, 0xfd, 0x12, 0x34, 0x56, 0x78]

def unconnectedPongId : UInt8 := 0x1c

structure BedrockStatus where
  edition : String
  motd : String
  version : String
  onlinePlayers : Option Int64
  maxPlayers : Option Int64
  motdLine2 : String
  gamemode : String
  deriving DecidableEq, Repr

/-- An access beyond the end; the task would panic. -/
structure OutOfRange where
  stop : Nat
  deriving DecidableEq, Repr

def element {α : Type} (l : List α) (i : Nat) : Except OutOfRange α :=
  match l[i]? with
  | some a => .ok a
  | none => .error ⟨i⟩

def range {α : Type} (l : List α) (start stop : Nat) : Except OutOfRange (List α) :=
  if start ≤ stop ∧ stop ≤ l.length then .ok ((l.drop start).take (stop - start)) else .error ⟨stop⟩

/-- The end of `parse_pong`, with the fields between the semicolons. -/
def statusOfParts (parts : List Text) : Except OutOfRange (Option BedrockStatus) :=
  if parts.length < 6 then .ok none
  else do
    let online ← element parts 4
    let max ← element parts 5
    let edition ← element parts 0
    let motd ← element parts 1
    let version ← element parts 3
    pure (some
      { edition := String.ofList edition
        motd := String.ofList motd
        version := String.ofList version
        onlinePlayers := parseI64 (String.ofList online)
        maxPlayers := parseI64 (String.ofList max)
        motdLine2 := String.ofList (parts[7]?.getD [])
        gamemode := String.ofList (parts[8]?.getD []) })

def parsePong (data : List UInt8) : Except OutOfRange (Option BedrockStatus) :=
  if data.length < 35 then .ok none
  else do
    let id ← element data 0
    if id ≠ unconnectedPongId then .ok none
    else do
      let high ← element data 33
      let low ← element data 34
      let stringLen := ofBeBytes [high, low]
      if data.length < 35 + stringLen then .ok none
      else do
        let motdPayload ← range data 35 (35 + stringLen)
        statusOfParts ((lossy motdPayload).splitOn ';')

def stringLength (data : List UInt8) : Nat := ofBeBytes ((data.drop 33).take 2)

def motdPayload (data : List UInt8) : List UInt8 := (data.drop 35).take (stringLength data)

/-- A datagram with the first byte of a pong and a payload of at least six fields. -/
structure PongShaped (data : List UInt8) : Prop where
  long : 35 ≤ data.length
  pong : data[0]? = some unconnectedPongId
  fits : 35 + stringLength data ≤ data.length
  fields : 6 ≤ ((motdPayload data).splitOn (byte ';')).length

theorem element_of_getElem? {α : Type} {l : List α} {i : Nat} {a : α} (there : l[i]? = some a) :
    element l i = .ok a := by
  rw [element, there]

def describedStatus (parts : List Text) : BedrockStatus where
  edition := String.ofList (parts[0]?.getD [])
  motd := String.ofList (parts[1]?.getD [])
  version := String.ofList (parts[3]?.getD [])
  onlinePlayers := parseI64 (String.ofList (parts[4]?.getD []))
  maxPlayers := parseI64 (String.ofList (parts[5]?.getD []))
  motdLine2 := String.ofList (parts[7]?.getD [])
  gamemode := String.ofList (parts[8]?.getD [])

theorem statusOfParts_eq (parts : List Text) :
    statusOfParts parts = .ok (if parts.length < 6 then none else some (describedStatus parts)) := by
  rw [statusOfParts]
  by_cases few : parts.length < 6
  · rw [if_pos few, if_pos few]
  · have there : ∀ {i}, i < 6 → element parts i = .ok (parts[i]?.getD []) := by
      intro i small
      refine element_of_getElem? ?_
      rw [List.getElem?_eq_getElem (by omega), Option.getD_some]
    rw [if_neg few, if_neg few, there (by decide), there (by decide), there (by decide), there (by decide),
      there (by decide)]
    rfl

section Datagram
variable {data : List UInt8}

theorem parsePong_short (short : data.length < 35) : parsePong data = .ok none := by
  rw [parsePong, if_pos short]

theorem parsePong_other (long : 35 ≤ data.length) (other : data[0]? ≠ some unconnectedPongId) :
    parsePong data = .ok none := by
  have first : data[0]? = some data[0] := List.getElem?_eq_getElem (by omega)
  have differs : data[0] ≠ unconnectedPongId := fun same => other (by rw [first, same])
  rw [parsePong, if_neg (Nat.not_lt.mpr long), element_of_getElem? first]
  exact if_pos differs

theorem parsePong_pong (long : 35 ≤ data.length) (pong : data[0]? = some unconnectedPongId) :
    parsePong data = if data.length < 35 + stringLength data then .ok none
      else statusOfParts ((lossy (motdPayload data)).splitOn ';') := by
  have high : data[33]? = some data[33] := List.getElem?_eq_getElem (by omega)
  have low : data[34]? = some data[34] := List.getElem?_eq_getElem (by omega)
  have length : stringLength data = ofBeBytes [data[33], data[34]] := by
    rw [stringLength, List.drop_eq_getElem_cons (by omega : 33 < data.length),
      List.drop_eq_getElem_cons (by omega : 34 < data.length)]
    rfl
  have run : parsePong data = if data.length < 35 + ofBeBytes [data[33], data[34]] then .ok none
      else range data 35 (35 + ofBeBytes [data[33], data[34]]) >>= fun payload =>
        statusOfParts ((lossy payload).splitOn ';') := by
    rw [parsePong, if_neg (Nat.not_lt.mpr long), element_of_getElem? pong, element_of_getElem? high,
      element_of_getElem? low]
    rfl
  rw [run, ← length]
  by_cases fits : 35 + stringLength data ≤ data.length
  · have inside : range data 35 (35 + stringLength data) = .ok (motdPayload data) := by
      rw [range, if_pos ⟨Nat.le_add_right _ _, fits⟩, Nat.add_sub_cancel_left, motdPayload]
    rw [inside]
    rfl
  · rw [if_pos (Nat.lt_of_not_le fits), if_pos (Nat.lt_of_not_le fits)]

theorem length_parts (payload : List UInt8) :
    ((lossy payload).splitOn ';').length = (payload.splitOn (byte ';')).length := by
  rw [Pieces.length_splitOn, Pieces.length_splitOn, count_lossy (by decide)]

theorem parsePong_shaped (shaped : PongShaped data) :
    parsePong data = .ok (some (describedStatus ((lossy (motdPayload data)).splitOn ';'))) := by
  have fields := shaped.fields
  rw [← length_parts] at fields
  rw [parsePong_pong shaped.long shaped.pong, if_neg (Nat.not_lt.mpr shaped.fits), statusOfParts_eq,
    if_neg (Nat.not_lt.mpr fields)]

theorem parsePong_unshaped (other : ¬PongShaped data) : parsePong data = .ok none := by
  by_cases long : 35 ≤ data.length
  · by_cases pong : data[0]? = some unconnectedPongId
    · rw [parsePong_pong long pong]
      by_cases fits : 35 + stringLength data ≤ data.length
      · have few : ((lossy (motdPayload data)).splitOn ';').length < 6 := by
          rw [length_parts]
          exact Nat.lt_of_not_le fun fields => other ⟨long, pong, fits, fields⟩
        rw [if_neg (Nat.not_lt.mpr fits), statusOfParts_eq, if_pos few]
      · rw [if_pos (Nat.lt_of_not_le fits)]
    · exact parsePong_other long pong
  · exact parsePong_short (Nat.lt_of_not_le long)

theorem parsePong_header {other : List UInt8} (same : ∀ i, i = 0 ∨ 33 ≤ i → other[i]? = data[i]?) :
    parsePong other = parsePong data := by
  have rest : other.drop 33 = data.drop 33 := by
    apply List.ext_getElem?
    intro i
    rw [List.getElem?_drop, List.getElem?_drop]
    exact same _ (.inr (Nat.le_add_right 33 i))
  have lengths := congrArg List.length rest
  rw [List.length_drop, List.length_drop] at lengths
  by_cases long : 35 ≤ data.length
  · have first := same 0 (.inl rfl)
    have stringLengths : stringLength other = stringLength data := by rw [stringLength, stringLength, rest]
    have payloads : motdPayload other = motdPayload data := by
      have tails : other.drop 35 = data.drop 35 := by
        rw [← List.drop_drop (i := 2) (j := 33), ← List.drop_drop (i := 2) (j := 33), rest]
      rw [motdPayload, motdPayload, tails, stringLengths]
    by_cases pong : data[0]? = some unconnectedPongId
    · have total : other.length = data.length := by omega
      rw [parsePong_pong long pong, parsePong_pong (total ▸ long) (first.trans pong), total, stringLengths, payloads]
    · rw [parsePong_other long pong, parsePong_other (by omega) (first ▸ pong)]
  · rw [parsePong_short (by omega), parsePong_short (by omega)]

end Datagram

def pongDatagram (time guid magic : List UInt8) (fields : List Text) (trailing : List UInt8) : List UInt8 :=
  let payload := bytes ([';'].intercalate fields)
  [unconnectedPongId] ++ time ++ guid ++ magic ++ toBeBytes 2 payload.length ++ payload ++ trailing

section Documented
variable {time guid magic : List UInt8} {fields : List Text}

/-- The fields come out again, whatever stands in the place of the magic bytes. -/
theorem parsePong_datagram (timeLength : time.length = 8) (guidLength : guid.length = 8)
    (magicLength : magic.length = 16) (six : 6 ≤ fields.length) (plain : ∀ field ∈ fields, ';' ∉ field)
    (short : size ([';'].intercalate fields) ≤ 65535) (trailing : List UInt8) :
    parsePong (pongDatagram time guid magic fields trailing) = .ok (some (describedStatus fields)) := by
  have some_ : fields ≠ [] := by
    rintro rfl
    exact absurd six (by decide)
  generalize payload_eq : bytes ([';'].intercalate fields) = payload at *
  have payloadLength : payload.length ≤ 65535 := by rwa [← payload_eq, length_bytes]
  generalize front_eq : [unconnectedPongId] ++ time ++ guid ++ magic = front
  have frontLength : front.length = 33 := by
    rw [← front_eq]
    simp [timeLength, guidLength, magicLength]
  have data : pongDatagram time guid magic fields trailing =
      front ++ (toBeBytes 2 payload.length ++ (payload ++ trailing)) := by
    rw [pongDatagram, payload_eq, front_eq, List.append_assoc, List.append_assoc]
  have length : stringLength (front ++ (toBeBytes 2 payload.length ++ (payload ++ trailing))) = payload.length := by
    rw [stringLength, List.drop_left' frontLength, List.take_left' (length_toBeBytes 2 _), ofBeBytes_toBeBytes]
    exact Nat.mod_eq_of_lt (Nat.lt_succ_of_le payloadLength)
  have whole : motdPayload (front ++ (toBeBytes 2 payload.length ++ (payload ++ trailing))) = payload := by
    have header : (front ++ toBeBytes 2 payload.length).length = 35 := by
      rw [List.length_append, frontLength, length_toBeBytes]
    rw [motdPayload, length, ← List.append_assoc, List.drop_left' header, List.take_left]
  have pong : (front ++ (toBeBytes 2 payload.length ++ (payload ++ trailing)))[0]? = some unconnectedPongId := by
    rw [← front_eq]
    rfl
  have total : (front ++ (toBeBytes 2 payload.length ++ (payload ++ trailing))).length =
      35 + payload.length + trailing.length := by
    simp only [List.length_append, frontLength, length_toBeBytes]
    omega
  have parts : (lossy payload).splitOn ';' = fields := by
    rw [← payload_eq, lossy_bytes, List.splitOn_intercalate ';' plain some_]
  rw [data, parsePong_pong (by omega) pong, if_neg (by omega), whole, parts, statusOfParts_eq,
    if_neg (Nat.not_lt.mpr six)]

/-- No access is out of range, what is accepted are exactly the datagrams of the shape of a pong, and the bytes
between the first and the payload length make no difference. -/
theorem pong_accepted (data : List UInt8) :
    (∃ result, parsePong data = .ok result) ∧
      ((∃ status, parsePong data = .ok (some status)) ↔ PongShaped data) ∧
      ∀ other : List UInt8, (∀ i, i = 0 ∨ 33 ≤ i → other[i]? = data[i]?) → parsePong other = parsePong data := by
  refine ⟨?_, ?_, fun other => parsePong_header⟩
  · by_cases shaped : PongShaped data
    · exact ⟨_, parsePong_shaped shaped⟩
    · exact ⟨_, parsePong_unshaped shaped⟩
  · constructor
    · rintro ⟨status, accepted⟩
      by_contra other
      exact absurd (Except.ok.inj (accepted.symm.trans (parsePong_unshaped other))) (Option.some_ne_none status)
    · intro shaped
      exact ⟨_, parsePong_shaped shaped⟩

/-- Six empty fields are read the same with the magic bytes and with zeros in their place. -/
theorem pong_accepted_zeros :
    let pong : List UInt8 → List UInt8 := fun magic =>
      pongDatagram (toBeBytes 8 0) (toBeBytes 8 0) magic [[], [], [], [], [], []] []
    parsePong (pong (toBeBytes 16 0)) = parsePong (pong raknetMagic) ∧
      ∃ status, parsePong (pong (toBeBytes 16 0)) = .ok (some status) := by
  intro pong
  refine ⟨(pong_accepted (pong raknetMagic)).2.2 _ ?_, (pong_accepted _).2.1.mpr ?_⟩
  · have later : (pong (toBeBytes 16 0)).drop 33 = (pong raknetMagic).drop 33 := by decide
    rintro i (rfl | header)
    · rfl
    · obtain ⟨j, rfl⟩ := Nat.exists_eq_add_of_le header
      rw [← List.getElem?_drop, later, List.getElem?_drop]
  · exact ⟨by decide, by decide, by decide, by decide⟩

/-- Six empty fields are accepted with zeros in the place of the magic bytes. -/
theorem accepted_without_magic :
    ∃ data status, parsePong data = .ok (some status) ∧ (data.drop 17).take 16 ≠ raknetMagic := by
  let fields : List Text := [[], [], [], [], [], []]
  refine ⟨pongDatagram (toBeBytes 8 0) (toBeBytes 8 0) (toBeBytes 16 0) fields [], describedStatus fields, ?_, ?_⟩
  · exact parsePong_datagram (length_toBeBytes 8 0) (length_toBeBytes 8 0) (length_toBeBytes 16 0) (by decide)
      (by decide) (by decide) []
  · decide

/-- The fields of the documented payload, the two counts as decimal texts. -/
structure DocumentedFields (fields : List Text) (online max : Int64) : Prop where
  six : 6 ≤ fields.length
  plain : ∀ field ∈ fields, ';' ∉ field
  online : ∃ text, fields[4]? = some text ∧ Decimal text online.toInt
  max : ∃ text, fields[5]? = some text ∧ Decimal text max.toInt
  short : size ([';'].intercalate fields) ≤ 65535

theorem parseI64_count {count : Int64} {text : Text} (decimal : Decimal text count.toInt) :
    parseI64 (String.ofList text) = some count := by
  rw [← String.toList_ofList (l := text)] at decimal
  rw [decimal.parseI64 ⟨count.le_toInt, count.toInt_lt⟩, Int64.ofInt_toInt]

/-- A documented pong is taken apart into what it was put together from. -/
theorem parsePong_documented (timeLength : time.length = 8) (guidLength : guid.length = 8) {online max : Int64}
    (documented : DocumentedFields fields online max) (trailing : List UInt8) :
    parsePong (pongDatagram time guid raknetMagic fields trailing) = .ok (some
      { edition := String.ofList (fields[0]?.getD [])
        motd := String.ofList (fields[1]?.getD [])
        version := String.ofList (fields[3]?.getD [])
        onlinePlayers := some online
        maxPlayers := some max
        motdLine2 := String.ofList (fields[7]?.getD [])
        gamemode := String.ofList (fields[8]?.getD []) }) := by
  obtain ⟨onlineText, fourth, onlineDecimal⟩ := documented.online
  obtain ⟨maxText, fifth, maxDecimal⟩ := documented.max
  rw [parsePong_datagram timeLength guidLength rfl documented.six documented.plain documented.short]
  rw [describedStatus, fourth, fifth, Option.getD_some, Option.getD_some, parseI64_count onlineDecimal,
    parseI64_count maxDecimal]

def sampleFields : List Text :=
  ["MCPE".toList, "My Server".toList, "527".toList, "1.19.1".toList, "5".toList, "20".toList, "12345".toList,
    "Second Line".toList, "Survival".toList, "1".toList, "19132".toList, "19133".toList, []]

theorem parsePong_documented_survival :
    parsePong (pongDatagram (toBeBytes 8 0) (toBeBytes 8 1) raknetMagic sampleFields [0x00]) = .ok (some
      { edition := "MCPE", motd := "My Server", version := "1.19.1", onlinePlayers := some 5, maxPlayers := some 20,
        motdLine2 := "Second Line", gamemode := "Survival" }) := by
  have documented : DocumentedFields sampleFields 5 20 :=
    ⟨by decide, by decide, ⟨_, rfl, decimal_toString 5⟩, ⟨_, rfl, decimal_toString 20⟩, by decide⟩
  rw [parsePong_documented (length_toBeBytes 8 0) (length_toBeBytes 8 1) documented]
  rfl

end Documented

end ServerPoller
