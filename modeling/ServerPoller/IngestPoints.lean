import ServerPoller.Lib.Decimals
import ServerPoller.Pollers

/-! The rows that are sent: `value_to_ingest_point` narrows the counts of a payload to 32 bits. -/

namespace ServerPoller
open Json RustText

structure IngestPoint where
  serverId : Int64
  collectedAt : Option String
  online : Option Int32
  maxPlayers : Option Int32
  version : Option String
  motd : Option String
  favicon : Option String
  country : Option String
  countryCode : Option String
  eventType : Option String
  playerId : Option String
  playerName : Option String
  onlineDelta : Option Int32
  extraJson : Option String
  deriving DecidableEq, Repr

def valueAsI64 (v : Value) : Option Int64 := v.asI64.or (v.asStr.bind parseI64)

/-- The closure `i32opt`: the low 32 bits of a number. -/
def i32Field (row : Value) (field : String) : Option Int32 := (intField row field).map Int64.toInt32

def valueToIngestPoint (row : Value) : IngestPoint where
  serverId := ((row.get "server_id").bind valueAsI64).getD 0
  collectedAt := strField row "collected_at"
  online := i32Field row "online"
  maxPlayers := i32Field row "max_players"
  version := strField row "version"
  motd := strField row "motd"
  favicon := strField row "favicon"
  country := strField row "country"
  countryCode := strField row "country_code"
  eventType := strField row "event_type"
  playerId := strField row "player_id"
  playerName := strField row "player_name"
  onlineDelta := i32Field row "online_delta"
  extraJson := match row.get "extra" with
    | none => none
    | some .null => none
    | some v => some v.render

/-- The field is absent or carries this number. -/
def Carries (field : Option Int32) (count : Int64) : Prop := ∀ n, field = some n → n.toInt = count.toInt

def FitsI32 (count : Int64) : Prop := -2 ^ 31 ≤ count.toInt ∧ count.toInt < 2 ^ 31

theorem carries_toInt32_iff {count : Int64} : Carries (some count.toInt32) count ↔ FitsI32 count := by
  have low := Int.le_bmod (x := count.toInt) (m := 2 ^ 32) (by decide)
  have high := Int.bmod_lt (x := count.toInt) (m := 2 ^ 32) (by decide)
  simp only [Carries, FitsI32, Option.some.injEq, forall_eq', Int64.toInt_toInt32]
  constructor
  · intro same
    rw [same] at low high
    omega
  · rintro ⟨above, below⟩
    exact Int.bmod_eq_of_le (by omega) (by omega)

section Numbers
variable {crates : Crates} {state : ServerState} {payload : Value} {now heartbeatInterval : ℚ} {out : Value}

theorem valueAsI64_server_id {id : Int64} (serverId : Decimal state.serverId.toList id.toInt) (payload : Value)
    (cur : Observation) (players : List String) (event : EventType) :
    ((outPayload state payload cur players event).get "server_id").bind valueAsI64 = some id := by
  have field : (outPayload state payload cur players event).get "server_id" = some (.string state.serverId) := by
    simp [outPayload, Value.get_ofFields, List.lookup_cons]
  have read : parseI64 state.serverId = some id := by
    rw [serverId.parseI64 ⟨id.le_toInt, id.toInt_lt⟩, Int64.ofInt_toInt]
  rw [field, Option.bind_some, valueAsI64]
  exact read

/-- The row keeps the identity of the server, and the counts exactly when they fit. -/
theorem numbers_survive_iff {id online max : Int64} (serverId : Decimal state.serverId.toList id.toInt)
    (onlineField : intField payload "online" = some online) (maxField : intField payload "max_players" = some max)
    (emitted : (buildChangePayload crates state payload true now heartbeatInterval).2 = some out) :
    ((valueToIngestPoint out).serverId = id ∧ Carries (valueToIngestPoint out).online online ∧
        Carries (valueToIngestPoint out).maxPlayers max) ↔ FitsI32 online ∧ FitsI32 max := by
  obtain ⟨event, rfl⟩ := emitted_eq emitted
  obtain ⟨onlineSent, maxSent⟩ := intField_outPayload state payload (measured crates payload)
    (extractPlayers (extraOf payload)) event
  have point := valueAsI64_server_id serverId payload (measured crates payload)
    (extractPlayers (extraOf payload)) event
  have onlineMeasured : (measured crates payload).online = some online := onlineField
  have maxMeasured : (measured crates payload).maxPlayers = some max := maxField
  simp only [valueToIngestPoint, i32Field, point, onlineSent, maxSent, onlineMeasured, maxMeasured,
    Option.getD_some, Option.map_some, carries_toInt32_iff, true_and]

end Numbers

def countsPoll (online max : Int64) : Value := .ofFields [("online", .ofI64 online), ("max_players", .ofI64 max)]

/-- A count one above the range comes out as the least number of the range. -/
theorem count_wrapped :
    let payload := countsPoll 2147483648 20
    ∃ out, Decimal sampleState.serverId.toList 1 ∧ intField payload "online" = some 2147483648 ∧
      intField payload "max_players" = some 20 ∧
      (buildChangePayload plainCrates sampleState payload true 1000 0).2 = some out ∧
      (valueToIngestPoint out).online = some (-2147483648) :=
  ⟨_, decimal_toString 1, by decide, by decide, rfl, by decide⟩

theorem numbers_survive_iff_usual :
    let payload := countsPoll 5 20
    ∃ out, (buildChangePayload plainCrates sampleState payload true 1000 0).2 = some out ∧
      (valueToIngestPoint out).serverId = 1 ∧ Carries (valueToIngestPoint out).online 5 ∧
      Carries (valueToIngestPoint out).maxPlayers 20 := by
  intro payload
  have emitted : (buildChangePayload plainCrates sampleState payload true 1000 0).2 = some _ := rfl
  have small : FitsI32 5 ∧ FitsI32 20 := by
    constructor <;> constructor <;> decide
  have serverId : Decimal sampleState.serverId.toList (1 : Int64).toInt := decimal_toString 1
  exact ⟨_, emitted, (numbers_survive_iff serverId (by decide) (by decide) emitted).mpr small⟩

end ServerPoller
