import ServerPoller.JavaStatus

/-! The framing of the Java status exchange in both directions: a server reads from the request what was put
into it, and of an answer exactly the body gets to the decoder. -/

namespace ServerPoller
open Numerals

structure HandshakeSeen where
  packetLength : Int32
  following : Nat
  packetId : Int32
  protocolVersion : Int32
  hostLength : Int32
  host : List UInt8
  port : Nat
  nextState : Int32
  leftOver : List UInt8

/-- A server that takes the packet apart field by field. -/
def serveHandshake (ending : String) (request : List UInt8) : Except String HandshakeSeen := do
  let (packetLength, packet) ← readVarint ending request
  let (packetId, rest) ← readVarint ending packet
  let (protocolVersion, rest) ← readVarint ending rest
  let (hostLength, rest) ← readVarint ending rest
  let (host, rest) ← readExact ending hostLength.toNatClampNeg rest
  let (port, rest) ← readExact ending 2 rest
  let (nextState, leftOver) ← readVarint ending rest
  pure
    { packetLength := packetLength
      following := packet.length
      packetId := packetId
      protocolVersion := protocolVersion
      hostLength := hostLength
      host := host
      port := ofBeBytes port
      nextState := nextState
      leftOver := leftOver }

theorem size_lt_javaHandshake (host : String) (port : UInt16) (protocolVersion : Int32) :
    Utf8.size host.toList < (javaHandshake host port protocolVersion).length := by
  simp only [javaHandshake, List.length_append, Utf8.length_bytes, List.length_singleton]
  omega

/-- The server sees the host, the port and the protocol version it was asked with, and nothing is left over. -/
theorem serveHandshake_request (ending host : String) (port : UInt16) (protocolVersion : Int32)
    (short : (javaHandshake host port protocolVersion).length < 2 ^ 31) :
    serveHandshake ending (buildJavaStatusRequests host port protocolVersion).1 = .ok
      { packetLength := Int32.ofNat (javaHandshake host port protocolVersion).length
        following := (javaHandshake host port protocolVersion).length
        packetId := 0
        protocolVersion := protocolVersion
        hostLength := Int32.ofNat (Utf8.size host.toList)
        host := Utf8.bytes host.toList
        port := port.toNat
        nextState := 1
        leftOver := [] } := by
  have hostShort := (size_lt_javaHandshake host port protocolVersion).trans short
  have hostLength : (Int32.ofNat (Utf8.size host.toList)).toNatClampNeg = Utf8.size host.toList :=
    Int32.toNatClampNeg_ofNat_of_lt hostShort
  have whole : javaHandshake host port protocolVersion =
      writeVarint 0 ++ (writeVarint protocolVersion ++ (writeVarint (Int32.ofNat (Utf8.size host.toList)) ++
        (Utf8.bytes host.toList ++ (toBeBytes 2 port.toNat ++ (writeVarint 1 ++ []))))) := by
    simp only [javaHandshake, writeVarint_zero, List.append_assoc, List.append_nil]
  have portRead : ofBeBytes (toBeBytes 2 port.toNat) = port.toNat := by
    rw [ofBeBytes_toBeBytes]
    exact Nat.mod_eq_of_lt port.toNat_lt
  have hostRead := readExact_of_length ending (Utf8.length_bytes host.toList)
  have portExact := readExact_of_length ending (length_toBeBytes 2 port.toNat)
  simp only [serveHandshake, buildJavaStatusRequests, readVarint_writeVarint, ok_bind]
  rw [whole]
  simp only [readVarint_writeVarint, ok_bind, hostLength, hostRead, portExact, portRead]
  rfl

def statusAnswer (body trailing : List UInt8) : List UInt8 :=
  let packet := writeVarint 0 ++ writeVarint (Int32.ofNat body.length) ++ body
  writeVarint (Int32.ofNat packet.length) ++ packet ++ trailing

theorem readStatus_answer (ending : String) (fromSlice : List UInt8 → Except String JavaStatusResponse)
    (body trailing : List UInt8) (short : body.length < 2 ^ 31) :
    readStatus ending fromSlice (statusAnswer body trailing) =
      (fromSlice body).mapError ("failed to decode status json: " ++ ·) := by
  have length : (Int32.ofNat body.length).toNatClampNeg = body.length := Int32.toNatClampNeg_ofNat_of_lt short
  have positive : ¬Int32.ofNat body.length < 0 := by
    rw [Int32.lt_iff_toInt_lt, toInt_ofLength short]
    exact Int.not_lt.mpr (Int.natCast_nonneg _)
  have bodyRead := readExact_of_length ending (rfl : body.length = body.length)
  simp only [readStatus, statusAnswer, List.append_assoc, readVarint_writeVarint, Except.mapError, ok_bind]
  rw [if_neg (not_not.mpr rfl), if_neg positive, length, bodyRead]
  rfl

/-- Both directions of the exchange. -/
theorem java_framing (ending : String) :
    (∀ (host : String) (port : UInt16) (protocolVersion : Int32),
      (javaHandshake host port protocolVersion).length < 2 ^ 31 →
      ∃ seen, serveHandshake ending (buildJavaStatusRequests host port protocolVersion).1 = .ok seen ∧
        seen.packetLength.toInt = seen.following ∧ seen.packetId = 0 ∧
        seen.protocolVersion = protocolVersion ∧
        seen.hostLength.toInt = (Utf8.bytes host.toList).length ∧ seen.host = Utf8.bytes host.toList ∧
        seen.port = port.toNat ∧ seen.nextState = 1 ∧ seen.leftOver = []) ∧
      ∀ (fromSlice : List UInt8 → Except String JavaStatusResponse) (body trailing : List UInt8),
        body.length < 2 ^ 31 →
        readStatus ending fromSlice (statusAnswer body trailing) =
          (fromSlice body).mapError ("failed to decode status json: " ++ ·) := by
  constructor
  · intro host port protocolVersion short
    have hostShort := (size_lt_javaHandshake host port protocolVersion).trans short
    refine ⟨_, serveHandshake_request ending host port protocolVersion short, toInt_ofLength short, rfl, rfl, ?_,
      rfl, rfl, rfl, rfl⟩
    rw [Utf8.length_bytes]
    exact toInt_ofLength hostShort
  · exact readStatus_answer ending

theorem length_javaHandshake_le (host : String) (port : UInt16) (protocolVersion : Int32) :
    (javaHandshake host port protocolVersion).length ≤ Utf8.size host.toList + 18 := by
  have version := length_writeVarint_le protocolVersion
  have hostLength := length_writeVarint_le (Int32.ofNat (Utf8.size host.toList))
  have state := length_writeVarint_le 1
  simp only [javaHandshake, List.length_append, Utf8.length_bytes, List.length_singleton, length_toBeBytes]
  omega

/-- The request with a negative protocol version, and an answer with a byte after it. -/
theorem java_framing_unknownVersion :
    (∃ seen, serveHandshake "closed" (buildJavaStatusRequests "play.luxorcraft.fun" 25565 (-1)).1 = .ok seen ∧
      seen.protocolVersion = -1 ∧ seen.port = 25565 ∧ seen.leftOver = []) ∧
      readStatus "closed" (fun _ => .error "eof") (statusAnswer [0x7b] [0x00]) =
        .error "failed to decode status json: eof" := by
  have size : Utf8.size "play.luxorcraft.fun".toList = 19 := by decide
  have bound := length_javaHandshake_le "play.luxorcraft.fun" 25565 (-1)
  obtain ⟨seen, served, _, _, version, _, _, port, _, left⟩ :=
    (java_framing "closed").1 "play.luxorcraft.fun" 25565 (-1) (by omega)
  exact ⟨⟨seen, served, version, port, left⟩,
    (java_framing "closed").2 (fun _ => .error "eof") [0x7b] [0x00] (by decide)⟩

end ServerPoller
