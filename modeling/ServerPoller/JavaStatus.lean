import ServerPoller.Lib.Json
import ServerPoller.Lib.Leb128
import ServerPoller.Lib.Numerals
import ServerPoller.Lib.Utf8
import Mathlib.Tactic.IntervalCases

/-! The status request of a Java server and the reading of its answer: packets with a length in front, whose
numbers are the 32 bits of an `i32` in groups of seven. -/

namespace ServerPoller
open Json Leb128 Numerals

structure JavaStatusVersion where
  name : String

structure JavaStatusPlayer where
  name : String

structure JavaStatusPlayers where
  max : UInt64
  online : UInt64
  sample : Option (List JavaStatusPlayer)

structure JavaStatusResponse where
  version : JavaStatusVersion
  players : JavaStatusPlayers
  description : Option Value
  favicon : Option String

/-- The value after one turn of the loop of `write_varint`. -/
def shiftGroup (value : Int32) : Int32 := (value >>> 7) &&& 0x01ffffff

theorem toNat_shiftGroup (value : Int32) : (shiftGroup value).toBitVec.toNat = value.toBitVec.toNat / 128 := by
  have shifted : value.toBitVec.sshiftRight' ((7 : Int32).toBitVec.smod 32) = value.toBitVec.sshiftRight 7 := rfl
  have mask : (0x01ffffff : Int32).toBitVec.toNat = 2 ^ 25 - 1 := rfl
  rw [shiftGroup, Int32.toBitVec_and, Int32.toBitVec_shiftRight, shifted, BitVec.toNat_and, mask,
    Nat.and_two_pow_sub_one_eq_mod, BitVec.toNat_sshiftRight]
  have bound := value.toBitVec.isLt
  split
  · -- a negative value: the mask takes the sign bits off again
    rw [Nat.shiftRight_eq_div_pow]
    omega
  · rw [Nat.shiftRight_eq_div_pow]
    omega

theorem toBitVec_eq_zero_iff {value : Int32} : value = 0 ↔ value.toBitVec.toNat = 0 := by
  rw [← Int32.toBitVec_inj, ← BitVec.toNat_inj]
  rfl

def writeVarint (value : Int32) : List UInt8 :=
  let current := (value &&& 0x7f).toUInt32.toUInt8
  if shiftGroup value ≠ 0 then (current ||| 0x80) :: writeVarint (shiftGroup value) else [current]
termination_by value.toBitVec.toNat
decreasing_by
  rename_i more
  rw [ne_eq, toBitVec_eq_zero_iff, toNat_shiftGroup] at more
  rw [toNat_shiftGroup]
  omega

def checkedShl (value : Int32) (places : Nat) : Option Int32 :=
  if places < 32 then some (value <<< Int32.ofNat places) else none

section Reading
/- The error of reading on when everything that arrived is used up. -/
variable (ending : String)

def readExact (length : Nat) (bytes : List UInt8) : Except String (List UInt8 × List UInt8) :=
  if length ≤ bytes.length then .ok (bytes.take length, bytes.drop length) else .error ending

/-- The loop of `read_varint`, with its `result` and its `read_count`. -/
def readVarintFrom (result : Int32) (readCount : Nat) : List UInt8 → Except String (Int32 × List UInt8)
  | [] => .error ending
  | byte :: rest =>
      let result := result ||| (checkedShl (byte &&& 0x7f).toUInt32.toInt32 (7 * readCount)).getD 0
      if 5 < readCount + 1 then .error "varint is too long"
      else if byte &&& 0x80 = 0 then .ok (result, rest)
      else readVarintFrom result (readCount + 1) rest

def readVarint (bytes : List UInt8) : Except String (Int32 × List UInt8) := readVarintFrom ending 0 0 bytes

/-- What `try_ping_java_status` does with the bytes that arrive. -/
def readStatus (fromSlice : List UInt8 → Except String JavaStatusResponse) (bytes : List UInt8) :
    Except String JavaStatusResponse := do
  let (_, bytes) ← (readVarint ending bytes).mapError ("failed to read packet length: " ++ ·)
  let (packetId, bytes) ← (readVarint ending bytes).mapError ("failed to read packet id: " ++ ·)
  if packetId ≠ 0 then throw ("unexpected packet id: " ++ toString packetId.toInt)
  else do
    let (responseLength, bytes) ← (readVarint ending bytes).mapError ("failed to read response length: " ++ ·)
    if responseLength < 0 then throw "negative response length"
    else do
      let (responseBuffer, _) ← (readExact ending responseLength.toNatClampNeg bytes).mapError
        ("failed to read response body: " ++ ·)
      (fromSlice responseBuffer).mapError ("failed to decode status json: " ++ ·)

end Reading

def javaHandshake (host : String) (port : UInt16) (protocolVersion : Int32) : List UInt8 :=
  [0x00] ++ writeVarint protocolVersion ++ writeVarint (Int32.ofNat (Utf8.size host.toList)) ++
    Utf8.bytes host.toList ++ toBeBytes 2 port.toNat ++ writeVarint 1

def buildJavaStatusRequests (host : String) (port : UInt16) (protocolVersion : Int32) :
    List UInt8 × List UInt8 :=
  let handshake := javaHandshake host port protocolVersion
  (writeVarint (Int32.ofNat handshake.length) ++ handshake, [0x01, 0x00])

/-- One attempt; `exchange` is the connection: the error of connecting or writing, or what arrives after both
requests were sent and the error of reading on after that. -/
def tryPingJavaStatus (exchange : List UInt8 × List UInt8 → Except String (List UInt8 × String))
    (fromSlice : List UInt8 → Except String JavaStatusResponse) (host : String) (port : UInt16)
    (protocolVersion : Int32) : Except String JavaStatusResponse := do
  let (arrived, ending) ← exchange (buildJavaStatusRequests host port protocolVersion)
  readStatus ending fromSlice arrived

theorem writeVarint_eq_encode (value : Int32) : writeVarint value = encode value.toBitVec.toNat := by
  induction h : value.toBitVec.toNat using Nat.strongRecOn generalizing value with
  | ind n ih =>
      have low : (value &&& 0x7f).toUInt32.toUInt8.toNat = n % 128 := by
        have group : (value &&& 0x7f).toUInt32.toNat = value.toBitVec.toNat &&& (2 ^ 7 - 1) := by
          show (value &&& 0x7f).toBitVec.toNat = _
          rw [Int32.toBitVec_and, BitVec.toNat_and]
          rfl
        rw [UInt32.toNat_toUInt8, group, Nat.and_two_pow_sub_one_eq_mod, h]
        omega
      rw [writeVarint]
      rcases Nat.lt_or_ge n 128 with small | large
      · have last : shiftGroup value = 0 := by
          rw [toBitVec_eq_zero_iff, toNat_shiftGroup]
          omega
        rw [if_neg (not_not.mpr last), encode_small small]
        congr 1
        rw [← UInt8.toNat_inj, low, UInt8.toNat_ofNat']
        omega
      · have more : shiftGroup value ≠ 0 := by
          rw [ne_eq, toBitVec_eq_zero_iff, toNat_shiftGroup]
          omega
        have marked : (value &&& 0x7f).toUInt32.toUInt8 ||| 0x80 = UInt8.ofNat (n % 128 + 128) := by
          have high : (0x80 : UInt8).toNat = 2 ^ 7 * 1 := rfl
          rw [← UInt8.toNat_inj, UInt8.toNat_or, low, high, Nat.or_comm,
            ← Nat.two_pow_add_eq_or_of_lt (Nat.mod_lt _ (by decide)), UInt8.toNat_ofNat']
          omega
        rw [if_pos more, encode_large large, marked, ih (n / 128) (by omega) _ (by rw [toNat_shiftGroup, h])]

theorem toNat_addGroup {result : Int32} (group : Int32) {readCount : Nat} (turn : readCount < 5)
    (below : result.toBitVec.toNat < 2 ^ (7 * readCount)) :
    (result ||| (checkedShl group (7 * readCount)).getD 0).toBitVec.toNat =
      (result.toBitVec.toNat + 2 ^ (7 * readCount) * group.toBitVec.toNat) % 2 ^ 32 := by
  have places : 7 * readCount < 32 := by omega
  have amount : ((Int32.ofNat (7 * readCount)).toBitVec.smod 32).toNat = 7 * readCount := by
    interval_cases readCount <;> rfl
  have shifted : (group <<< Int32.ofNat (7 * readCount)).toBitVec.toNat =
      2 ^ (7 * readCount) * (group.toBitVec.toNat % 2 ^ (32 - 7 * readCount)) := by
    rw [Int32.toBitVec_shiftLeft, BitVec.shiftLeft_eq', BitVec.toNat_shiftLeft, amount, Nat.shiftLeft_eq,
      Nat.mul_comm, ← Nat.mul_mod_mul_left, ← pow_add, Nat.add_sub_cancel' places.le]
  rw [checkedShl, if_pos places, Option.getD_some, Int32.toBitVec_or, BitVec.toNat_or, shifted, Nat.or_comm,
    ← Nat.two_pow_add_eq_or_of_lt below]
  interval_cases readCount <;> omega

theorem continues_iff (b : UInt8) : b &&& 0x80 = 0 ↔ b.toNat < 128 := by
  have bits : ∀ n < 256, n &&& 128 = 0 ↔ n < 128 := by decide +kernel
  rw [← UInt8.toNat_inj, UInt8.toNat_and]
  exact bits b.toNat b.toNat_lt

theorem readVarintFrom_of_decode (ending : String) {result : Int32} {readCount n : Nat} {bytes rest : List UInt8}
    (read : decode bytes = some (n, rest)) (short : bytes.length + readCount ≤ rest.length + 5)
    (below : result.toBitVec.toNat < 2 ^ (7 * readCount)) :
    ∃ value, readVarintFrom ending result readCount bytes = .ok (value, rest) ∧
      value.toBitVec.toNat = (result.toBitVec.toNat + 2 ^ (7 * readCount) * n) % 2 ^ 32 := by
  induction bytes generalizing result readCount n with
  | nil => cases read
  | cons b bytes ih =>
      have shorter := decode_shorter read
      have turn : readCount < 5 := by omega
      have group : (b &&& 0x7f).toUInt32.toInt32.toBitVec.toNat = b.toNat % 128 := by
        show (b &&& 0x7f).toUInt32.toNat = _
        have mask : (0x7f : UInt8).toNat = 2 ^ 7 - 1 := rfl
        rw [UInt8.toNat_toUInt32, UInt8.toNat_and, mask, Nat.and_two_pow_sub_one_eq_mod]
      have added := toNat_addGroup (b &&& 0x7f).toUInt32.toInt32 turn below
      rw [group] at added
      rw [readVarintFrom, if_neg (by omega)]
      rcases Nat.lt_or_ge b.toNat 128 with last | more
      · rw [decode_last last] at read
        cases read
        rw [Nat.mod_eq_of_lt last] at added
        exact ⟨_, if_pos ((continues_iff b).mpr last), added⟩
      · rw [decode_more more] at read
        obtain ⟨⟨m, rest'⟩, later, eq⟩ := Option.map_eq_some_iff.mp read
        simp only [Prod.mk.injEq] at eq
        obtain ⟨rfl, rfl⟩ := eq
        have shorter' := decode_shorter later
        rw [List.length_cons] at short
        have step : 2 ^ (7 * (readCount + 1)) = 2 ^ (7 * readCount) * 128 := by
          rw [Nat.mul_succ, pow_add]
          rfl
        have whole : result.toBitVec.toNat + 2 ^ (7 * readCount) * (b.toNat % 128) < 2 ^ (7 * (readCount + 1)) := by
          have top : 2 ^ (7 * readCount) * (b.toNat % 128 + 1) ≤ 2 ^ (7 * readCount) * 128 :=
            Nat.mul_le_mul_left _ (Nat.mod_lt _ (by decide))
          rw [Nat.mul_succ] at top
          omega
        have fits : 2 ^ (7 * (readCount + 1)) ≤ 2 ^ 32 := Nat.pow_le_pow_right (by decide) (by omega)
        rw [Nat.mod_eq_of_lt (whole.trans_le fits)] at added
        obtain ⟨value, done, eq⟩ := ih later (by omega) (added.trans_lt whole)
        refine ⟨value, (if_neg fun none => ?_).trans done, ?_⟩
        · exact absurd ((continues_iff b).mp none) (Nat.not_lt.mpr more)
        · rw [eq, added, step]
          rw [Nat.mul_assoc, Nat.add_assoc, ← Nat.mul_add]

theorem length_writeVarint_le (value : Int32) : (writeVarint value).length ≤ 5 := by
  rw [writeVarint_eq_encode]
  exact length_encode_le _ 4 (value.toBitVec.isLt.trans_le (by decide))

section RoundTrip
variable {ending : String}

theorem ok_bind {ε α β : Type} (a : α) (f : α → Except ε β) : (Except.ok a >>= f) = f a := rfl

/-- What was written is read back whatever comes after it. -/
theorem readVarint_writeVarint (value : Int32) (rest : List UInt8) :
    readVarint ending (writeVarint value ++ rest) = .ok (value, rest) := by
  have width := length_writeVarint_le value
  rw [writeVarint_eq_encode] at width ⊢
  have short : (encode value.toBitVec.toNat ++ rest).length + 0 ≤ rest.length + 5 := by
    rw [List.length_append]
    omega
  have start : (0 : Int32).toBitVec.toNat = 0 := rfl
  obtain ⟨read, done, eq⟩ := readVarintFrom_of_decode ending (decode_encode value.toBitVec.toNat rest) short
    (show (0 : Int32).toBitVec.toNat < 2 ^ (7 * 0) by decide)
  have same : read = value := by
    rw [← Int32.toBitVec_inj, ← BitVec.toNat_inj, eq]
    rw [start, Nat.mul_zero, pow_zero, Nat.one_mul, Nat.zero_add, Nat.mod_eq_of_lt value.toBitVec.isLt]
  rw [readVarint, done, same]

theorem readExact_of_length (ending : String) {front : List UInt8} {length : Nat} (exact_ : front.length = length)
    (rest : List UInt8) : readExact ending length (front ++ rest) = .ok (front, rest) := by
  subst exact_
  rw [readExact, if_pos (by simp), List.take_left, List.drop_left]

theorem toInt_ofLength {n : Nat} (bound : n < 2 ^ 31) : (Int32.ofNat n).toInt = n :=
  Int32.toInt_ofNat_of_lt bound

theorem writeVarint_zero : writeVarint 0 = [0x00] := by
  rw [writeVarint_eq_encode]
  exact encode_small (by decide)

end RoundTrip

end ServerPoller
