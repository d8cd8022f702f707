import ServerPoller.BedrockPong

/-! `ping_bedrock`: the unconnected ping that goes out, a server that takes it apart, and how much of its pong is
received. -/

namespace ServerPoller
open Numerals RustText Utf8

def unconnectedPingId : UInt8 := 0x01

def buildPingPacket (time guid : Int64) : List UInt8 :=
  [unconnectedPingId] ++ toBeBytes 8 time.toBitVec.toNat ++ raknetMagic ++ toBeBytes 8 guid.toBitVec.toNat

/-- The length of the buffer that `recv` fills; what does not fit of a datagram is lost. -/
def bedrockBuffer : Nat := 2048

/-- `exchange` is the socket: the datagram that is received after this one was sent, or nothing where an operation
fails or the time is over. -/
def pingBedrock (exchange : List UInt8 → Option (List UInt8)) (time guid : Int64) :
    Except OutOfRange (Option BedrockStatus) :=
  match exchange (buildPingPacket time guid) with
  | some datagram => parsePong (datagram.take bedrockBuffer)
  | none => .ok none

structure PingSeen where
  time : List UInt8
  guid : List UInt8
  deriving DecidableEq, Repr

/-- A server takes only datagrams of the documented layout. -/
def servePing (packet : List UInt8) : Option PingSeen :=
  if packet.length = 33 ∧ packet[0]? = some unconnectedPingId ∧ (packet.drop 9).take 16 = raknetMagic then
    some ⟨(packet.drop 1).take 8, packet.drop 25⟩
  else none

/-- It answers with the time of the ping, its own GUID and its fields. -/
def raknetServer (serverGuid : List UInt8) (fields : PingSeen → List Text) (trailing : List UInt8)
    (packet : List UInt8) : Option (List UInt8) :=
  (servePing packet).map fun seen => pongDatagram seen.time serverGuid raknetMagic (fields seen) trailing

theorem servePing_buildPingPacket (time guid : Int64) :
    servePing (buildPingPacket time guid) =
      some ⟨toBeBytes 8 time.toBitVec.toNat, toBeBytes 8 guid.toBitVec.toNat⟩ := by
  generalize timeBytes_eq : toBeBytes 8 time.toBitVec.toNat = timeBytes
  generalize guidBytes_eq : toBeBytes 8 guid.toBitVec.toNat = guidBytes
  have timeLength : timeBytes.length = 8 := timeBytes_eq ▸ length_toBeBytes 8 _
  have guidLength : guidBytes.length = 8 := guidBytes_eq ▸ length_toBeBytes 8 _
  have packet : buildPingPacket time guid = [unconnectedPingId] ++ (timeBytes ++ (raknetMagic ++ guidBytes)) := by
    rw [buildPingPacket, timeBytes_eq, guidBytes_eq, List.append_assoc, List.append_assoc]
  have head : ([unconnectedPingId] ++ timeBytes).length = 9 := by rw [List.length_append, timeLength]; rfl
  have front : (([unconnectedPingId] ++ timeBytes) ++ raknetMagic).length = 25 := by
    rw [List.length_append, head]
    rfl
  have magic : ((buildPingPacket time guid).drop 9).take 16 = raknetMagic := by
    rw [packet, ← List.append_assoc, List.drop_left' head]
    exact List.take_left' rfl
  have length : (buildPingPacket time guid).length = 33 := by
    rw [packet, ← List.append_assoc, ← List.append_assoc, List.length_append, front, guidLength]
  have seenTime : ((buildPingPacket time guid).drop 1).take 8 = timeBytes := by
    rw [packet]
    show (timeBytes ++ (raknetMagic ++ guidBytes)).take 8 = timeBytes
    exact List.take_left' timeLength
  have seenGuid : (buildPingPacket time guid).drop 25 = guidBytes := by
    rw [packet, ← List.append_assoc, ← List.append_assoc, List.drop_left' front]
  rw [servePing, if_pos ⟨length, by rw [packet]; rfl, magic⟩, seenTime, seenGuid]

theorem parsePong_cut {time guid magic : List UInt8} {fields : List Text} (timeLength : time.length = 8)
    (guidLength : guid.length = 8) (magicLength : magic.length = 16)
    (short : size ([';'].intercalate fields) ≤ 65535) (long : bedrockBuffer < 35 + size ([';'].intercalate fields))
    (trailing : List UInt8) :
    parsePong ((pongDatagram time guid magic fields trailing).take bedrockBuffer) = .ok none := by
  rw [← length_bytes] at short long
  generalize payload_eq : bytes ([';'].intercalate fields) = payload at *
  generalize front_eq : [unconnectedPongId] ++ time ++ guid ++ magic = front
  have frontLength : front.length = 33 := by
    rw [← front_eq]
    simp [timeLength, guidLength, magicLength]
  have header : (front ++ toBeBytes 2 payload.length).length = 35 := by
    rw [List.length_append, frontLength, length_toBeBytes]
  have cut : (pongDatagram time guid magic fields trailing).take bedrockBuffer =
      front ++ (toBeBytes 2 payload.length ++ payload.take 2013) := by
    have rest : bedrockBuffer = (front ++ toBeBytes 2 payload.length).length + 2013 := by rw [header]; rfl
    have fits : 2013 ≤ payload.length := by
      rw [bedrockBuffer] at long
      omega
    have data : pongDatagram time guid magic fields trailing =
        (front ++ toBeBytes 2 payload.length) ++ (payload ++ trailing) := by
      rw [pongDatagram, payload_eq, front_eq, List.append_assoc]
    rw [data, rest, List.take_length_add_append, List.take_append_of_le_length fits, List.append_assoc]
  have length : stringLength (front ++ (toBeBytes 2 payload.length ++ payload.take 2013)) = payload.length := by
    rw [stringLength, List.drop_left' frontLength, List.take_left' (length_toBeBytes 2 _), ofBeBytes_toBeBytes]
    exact Nat.mod_eq_of_lt (Nat.lt_succ_of_le short)
  have unshaped : ¬PongShaped (front ++ (toBeBytes 2 payload.length ++ payload.take 2013)) := by
    intro shaped
    have fits := shaped.fits
    rw [length, ← List.append_assoc, List.length_append, header, List.length_take] at fits
    rw [bedrockBuffer] at long
    omega
  rw [cut]
  exact parsePong_unshaped unshaped

/-- A server that takes pings of the documented layout only gets the ping's time and GUID out of it; the fields that it
answers with are what is reported as long as they fit into the buffer behind the 35 bytes before them, and otherwise
nothing is. -/
theorem bedrock_exchange (time guid : Int64) {serverGuid : List UInt8} (guidLength : serverGuid.length = 8)
    {fields : PingSeen → List Text} (six : ∀ seen, 6 ≤ (fields seen).length)
    (plain : ∀ seen, ∀ field ∈ fields seen, ';' ∉ field)
    (short : ∀ seen, size ([';'].intercalate (fields seen)) ≤ 65535) (trailing : List UInt8) :
    ∃ seen : PingSeen, ofBeBytes seen.time = time.toBitVec.toNat ∧ ofBeBytes seen.guid = guid.toBitVec.toNat ∧
      pingBedrock (raknetServer serverGuid fields trailing) time guid = .ok
        (if 35 + size ([';'].intercalate (fields seen)) ≤ 2048 then some (describedStatus (fields seen)) else none) := by
  refine ⟨⟨toBeBytes 8 time.toBitVec.toNat, toBeBytes 8 guid.toBitVec.toNat⟩, ?_, ?_, ?_⟩
  · rw [ofBeBytes_toBeBytes]
    exact Nat.mod_eq_of_lt time.toBitVec.isLt
  · rw [ofBeBytes_toBeBytes]
    exact Nat.mod_eq_of_lt guid.toBitVec.isLt
  · generalize seen_eq : (⟨toBeBytes 8 time.toBitVec.toNat, toBeBytes 8 guid.toBitVec.toNat⟩ : PingSeen) = seen
    have timeLength : seen.time.length = 8 := seen_eq ▸ length_toBeBytes 8 _
    have served : raknetServer serverGuid fields trailing (buildPingPacket time guid) =
        some (pongDatagram seen.time serverGuid raknetMagic (fields seen) trailing) := by
      rw [raknetServer, servePing_buildPingPacket, seen_eq, Option.map_some]
    rw [pingBedrock, served]
    dsimp only
    by_cases fits : 35 + size ([';'].intercalate (fields seen)) ≤ 2048
    · rw [if_pos fits]
      -- what is cut off is behind the payload
      have cut : (pongDatagram seen.time serverGuid raknetMagic (fields seen) trailing).take bedrockBuffer =
          pongDatagram seen.time serverGuid raknetMagic (fields seen)
            (trailing.take (2048 - (35 + size ([';'].intercalate (fields seen))))) := by
        have whole : ∀ more, pongDatagram seen.time serverGuid raknetMagic (fields seen) more =
            pongDatagram seen.time serverGuid raknetMagic (fields seen) [] ++ more := by
          intro more
          rw [pongDatagram, pongDatagram, List.append_nil]
        have length : (pongDatagram seen.time serverGuid raknetMagic (fields seen) []).length =
            35 + size ([';'].intercalate (fields seen)) := by
          simp only [pongDatagram, List.length_append, List.length_singleton, List.length_nil, timeLength, guidLength,
            length_toBeBytes, length_bytes, show raknetMagic.length = 16 from rfl]
          omega
        rw [whole trailing, List.take_append, length, List.take_of_length_le (length ▸ fits), ← whole]
        rfl
      rw [cut]
      exact parsePong_datagram timeLength guidLength rfl (six seen) (plain seen) (short seen) _
    · rw [if_neg fits]
      exact parsePong_cut timeLength guidLength rfl (short seen) (not_le.mp fits) trailing

/-- A server with the fields of the sample answers a ping. -/
theorem bedrock_exchange_survival :
    pingBedrock (raknetServer (toBeBytes 8 1) (fun _ => sampleFields) [0x00]) 1700000000000 (-5) =
      .ok (some (describedStatus sampleFields)) := by
  have six : ∀ _ : PingSeen, 6 ≤ sampleFields.length := fun _ => by decide
  have plain : ∀ _ : PingSeen, ∀ field ∈ sampleFields, ';' ∉ field := fun _ => by decide
  have short : ∀ _ : PingSeen, size ([';'].intercalate sampleFields) ≤ 65535 := fun _ => by decide
  obtain ⟨_, _, _, pinged⟩ := bedrock_exchange 1700000000000 (-5) (length_toBeBytes 8 1) six plain short [0x00]
  rw [pinged]
  have fits : 35 + size ([';'].intercalate sampleFields) ≤ 2048 := by decide
  rw [if_pos fits]

end ServerPoller
