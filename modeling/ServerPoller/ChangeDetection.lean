import ServerPoller.Models
import ServerPoller.Lib.Transition

/-! `build_change_payload` compares a poll with what was emitted last and keeps quiet when nothing
changed. A consumer that only sees the emitted payloads still knows the state after every poll. -/

namespace ServerPoller
open Json RustText Transition

/-- One turn of the loop of `extract_players`. -/
def collectPlayer (result : List String) (item : Value) : List String :=
  match item with
  | .string name => if trim name ≠ "" ∧ trim name ∉ result then result ++ [trim name] else result
  | _ => result

/-- The deduplicated player names of the `extra.players` field. -/
def extractPlayers (extra : Value) : List String :=
  match (extra.get "players").bind Value.asArray with
  | none => []
  | some players => players.foldl collectPlayer []

inductive EventType where
  | stateFull
  | serverUp
  | serverDown
  | onlineChanged
  | stateUpdated
  | heartbeat
  deriving DecidableEq, Repr

def EventType.asStr : EventType → String
  | .stateFull => "state_full"
  | .serverUp => "server_up"
  | .serverDown => "server_down"
  | .onlineChanged => "online_changed"
  | .stateUpdated => "state_updated"
  | .heartbeat => "heartbeat"

/-- The values of a poll that are compared, and the record of a consumer. -/
structure Observation where
  up : Bool
  online : Option Int64
  maxPlayers : Option Int64
  version : String
  motd : String
  country : String
  countryCode : String
  playersHash : Option String
  deriving DecidableEq, Repr

def trimmedField (payload : Value) (field : String) : String := trim ((strField payload field).getD "")

def intField (payload : Value) (field : String) : Option Int64 := (payload.get field).bind Value.asI64

def extraOf (payload : Value) : Value := (payload.get "extra").getD (.object [])

section Detection
variable (crates : Crates)

def playersHash (players : List String) : Option String :=
  if players.isEmpty then none else some (crates.sha256 ("\n".intercalate players))

/-- The `current_*` values of `build_change_payload`. -/
def currentValues (e : Emitted) (payload : Value) (statusOk : Bool) : Observation :=
  let country := trimmedField payload "country"
  let countryCode := trimmedField payload "country_code"
  if statusOk then
    { up := true
      online := intField payload "online"
      maxPlayers := intField payload "max_players"
      version := trimmedField payload "version"
      motd := trimmedField payload "motd"
      country := country
      countryCode := countryCode
      playersHash := playersHash crates (extractPlayers (extraOf payload)) }
  else
    { up := false
      online := some 0
      maxPlayers := e.lastEmittedMaxPlayers
      version := e.lastEmittedVersion.getD ""
      motd := e.lastEmittedMotd.getD ""
      country := if country = "" then e.lastEmittedCountry.getD "" else country
      countryCode := if countryCode = "" then e.lastEmittedCountryCode.getD "" else countryCode
      playersHash := none }

def changedMeta (e : Emitted) (cur : Observation) : Bool :=
  e.lastEmittedMaxPlayers != cur.maxPlayers || e.lastEmittedVersion.getD "" != cur.version ||
    e.lastEmittedMotd.getD "" != cur.motd || e.lastEmittedCountry.getD "" != cur.country ||
    e.lastEmittedCountryCode.getD "" != cur.countryCode

def heartbeatDue (e : Emitted) (now heartbeatInterval : ℚ) : Bool :=
  let elapsed := match e.lastEmittedAt with
    | some t => now - t
    | none => heartbeatInterval
  decide (0 < heartbeatInterval ∧ heartbeatInterval ≤ elapsed)

def eventType (e : Emitted) (cur : Observation) (now heartbeatInterval : ℚ) : Option EventType :=
  if e.hasEmittedState = false then some .stateFull
  else if e.lastEmittedUp ≠ some cur.up then some (if cur.up then .serverUp else .serverDown)
  else if e.lastEmittedOnline ≠ cur.online then some .onlineChanged
  else if changedMeta e cur = true ∨ e.lastEmittedPlayersHash ≠ cur.playersHash then some .stateUpdated
  else if heartbeatDue e now heartbeatInterval then some .heartbeat
  else none

def Observation.emitted (cur : Observation) (now : ℚ) : Emitted where
  hasEmittedState := true
  lastEmittedUp := some cur.up
  lastEmittedOnline := cur.online
  lastEmittedMaxPlayers := cur.maxPlayers
  lastEmittedVersion := some cur.version
  lastEmittedMotd := some cur.motd
  lastEmittedCountry := some cur.country
  lastEmittedCountryCode := some cur.countryCode
  lastEmittedPlayersHash := cur.playersHash
  lastEmittedAt := some now

def outExtra (state : ServerState) (up : Bool) (players : List String) : Value :=
  .ofFields (
    (if players.isEmpty then [] else [("players", .array (players.map .string))]) ++
    [("poll_status", .string (if up then "ok" else "failed"))] ++
    (if state.pluginManaged && !state.pluginFallbackMode then [("compare_probe", .bool true)] else []) ++
    (if state.pluginFallbackMode then [("plugin_fallback", .bool true)] else []))

def outPayload (state : ServerState) (payload : Value) (cur : Observation) (players : List String)
    (event : EventType) : Value :=
  .ofFields [
    ("server_id", .string state.serverId),
    ("collected_at", .ofOption id (payload.get "collected_at")),
    ("online", .ofOption .ofI64 cur.online),
    ("max_players", .ofOption .ofI64 cur.maxPlayers),
    ("version", .string cur.version),
    ("motd", .string cur.motd),
    ("country", .string cur.country),
    ("country_code", .string cur.countryCode),
    ("event_type", .string event.asStr),
    ("extra", outExtra state cur.up players)]

def buildChangePayload (state : ServerState) (payload : Value) (statusOk : Bool)
    (now heartbeatInterval : ℚ) : ServerState × Option Value :=
  let cur := currentValues crates state.toEmitted payload statusOk
  let players := if statusOk then extractPlayers (extraOf payload) else []
  match eventType state.toEmitted cur now heartbeatInterval with
  | none => (state, none)
  | some event =>
      ({ state with toEmitted := cur.emitted now }, some (outPayload state payload cur players event))

def payloadRecord (v : Value) : Observation where
  up := strField (extraOf v) "poll_status" == some "ok"
  online := intField v "online"
  maxPlayers := intField v "max_players"
  version := (strField v "version").getD ""
  motd := (strField v "motd").getD ""
  country := (strField v "country").getD ""
  countryCode := (strField v "country_code").getD ""
  playersHash := playersHash crates (extractPlayers (extraOf v))

/-- A consumer overwrites its record with each payload and keeps it otherwise. -/
def consume (r : Option Observation) (out : Option Value) : Option Observation :=
  match out with
  | none => r
  | some v => some (payloadRecord crates v)

/-- The state of the server after a poll: what a successful poll measured; after a failed one
the server is down, with the metadata it had and the country the poll may still supply. -/
def mirror (before : Option Observation) (payload : Value) (statusOk : Bool) : Observation :=
  if statusOk then
    { up := true
      online := intField payload "online"
      maxPlayers := intField payload "max_players"
      version := trimmedField payload "version"
      motd := trimmedField payload "motd"
      country := trimmedField payload "country"
      countryCode := trimmedField payload "country_code"
      playersHash := playersHash crates (extractPlayers (extraOf payload)) }
  else
    let old := before.getD ⟨false, none, none, "", "", "", "", none⟩
    let supplied := fun field previous =>
      if trimmedField payload field = "" then previous else trimmedField payload field
    { old with
      up := false
      online := some 0
      country := supplied "country" old.country
      countryCode := supplied "country_code" old.countryCode
      playersHash := none }

structure DetectionCall where
  payload : Value
  statusOk : Bool
  now : ℚ
  heartbeatInterval : ℚ

/-- One call of `build_change_payload`, and the consumer after it. -/
def detect (s : ServerState × Option Observation) (call : DetectionCall) :
    ServerState × Option Observation :=
  let (state, out) := buildChangePayload crates s.1 call.payload call.statusOk call.now call.heartbeatInterval
  (state, consume crates s.2 out)

def mirrorAll (calls : List DetectionCall) : Option Observation :=
  calls.foldl (fun r call => some (mirror crates r call.payload call.statusOk)) none

end Detection

structure CleanNames (players : List String) : Prop where
  nodup : players.Nodup
  trimmed : ∀ p ∈ players, trim p = p
  nonempty : ∀ p ∈ players, p ≠ ""

theorem CleanNames.nil : CleanNames [] := ⟨List.nodup_nil, nofun, nofun⟩

theorem collectPlayer_clean {result : List String} (h : CleanNames result) (item : Value) :
    CleanNames (collectPlayer result item) := by
  unfold collectPlayer
  split
  · rename_i name
    split
    · rename_i fresh
      have last : ∀ {q}, q ∈ [trim name] → q = trim name := List.mem_singleton.mp
      constructor
      · refine List.nodup_append.mpr ⟨h.nodup, by simp, ?_⟩
        intro p hp q hq eq
        exact fresh.2 (last hq ▸ eq ▸ hp)
      · intro p hp
        rcases List.mem_append.mp hp with old | new
        · exact h.trimmed p old
        · rw [last new]
          exact trim_trim name
      · intro p hp
        rcases List.mem_append.mp hp with old | new
        · exact h.nonempty p old
        · rw [last new]
          exact fresh.1
    · exact h
  · exact h

theorem extractPlayers_clean (extra : Value) : CleanNames (extractPlayers extra) := by
  unfold extractPlayers
  cases (extra.get "players").bind Value.asArray with
  | none => exact .nil
  | some items => exact List.foldlRecOn items _ .nil (fun result h item _ => collectPlayer_clean h item)

theorem foldl_collectPlayer {rest : List String} (done : List String) (h : CleanNames (done ++ rest)) :
    (rest.map Value.string).foldl collectPlayer done = done ++ rest := by
  induction rest generalizing done with
  | nil => simp
  | cons p rest ih =>
      have listed : p ∈ done ++ p :: rest := by simp
      have new : p ∉ done := fun old => (List.nodup_append.mp h.nodup).2.2 p old p List.mem_cons_self rfl
      have shifted : (done ++ [p]) ++ rest = done ++ p :: rest := by simp
      have kept : collectPlayer done (.string p) = done ++ [p] := by
        simp [collectPlayer, h.trimmed p listed, h.nonempty p listed, new]
      rw [List.map_cons, List.foldl_cons, kept, ih (done ++ [p]) (by rwa [shifted]), shifted]

theorem extractPlayers_of_clean {players : List String} (h : CleanNames players) {extra : Value}
    (there : extra.get "players" = some (.array (players.map .string))) : extractPlayers extra = players := by
  simp only [extractPlayers, there, Option.bind_some, Value.asArray]
  exact foldl_collectPlayer [] h

section Payload
variable {crates : Crates} {state : ServerState} {players : List String}

theorem extraOf_outPayload (state : ServerState) (payload : Value) (cur : Observation) (players : List String)
    (event : EventType) : extraOf (outPayload state payload cur players event) = outExtra state cur.up players := by
  simp [extraOf, outPayload, Value.get_ofFields]

theorem outPayload_event_type (state : ServerState) (payload : Value) (cur : Observation) (players : List String)
    (event : EventType) : strField (outPayload state payload cur players event) "event_type" = some event.asStr := by
  simp [strField, outPayload, Value.get_ofFields, List.lookup_cons, Value.asStr]

theorem intField_outPayload (state : ServerState) (payload : Value) (cur : Observation) (players : List String)
    (event : EventType) : intField (outPayload state payload cur players event) "online" = cur.online ∧
      intField (outPayload state payload cur players event) "max_players" = cur.maxPlayers := by
  constructor <;> simp [intField, outPayload, Value.get_ofFields, List.lookup_cons, Value.asI64_ofOption]

theorem get_outExtra (state : ServerState) (up : Bool) (players : List String) {key : String}
    (other : key ≠ "poll_status" ∧ key ≠ "compare_probe" ∧ key ≠ "plugin_fallback") :
    (outExtra state up players).get key =
      if key = "players" ∧ players ≠ [] then some (.array (players.map .string)) else none := by
  have status : (key == "poll_status") = false := beq_eq_false_iff_ne.mpr other.1
  have probe : (key == "compare_probe") = false := beq_eq_false_iff_ne.mpr other.2.1
  have fallback : (key == "plugin_fallback") = false := beq_eq_false_iff_ne.mpr other.2.2
  rw [outExtra, Value.get_ofFields]
  by_cases isPlayers : key = "players"
  · subst isPlayers
    cases players <;> cases state.pluginFallbackMode <;> cases state.pluginManaged <;> simp [List.lookup_cons]
  · have notPlayers : (key == "players") = false := beq_eq_false_iff_ne.mpr isPlayers
    cases players <;> cases state.pluginFallbackMode <;> cases state.pluginManaged <;>
      simp [List.lookup_cons, isPlayers, notPlayers, status, probe, fallback]

theorem outExtra_poll_status (up : Bool) :
    strField (outExtra state up players) "poll_status" = some (if up then "ok" else "failed") := by
  simp only [strField, outExtra, Value.get_ofFields]
  cases players.isEmpty <;> cases state.pluginFallbackMode <;> cases state.pluginManaged <;>
    simp [List.lookup_cons, Value.asStr]

theorem outExtra_players (up : Bool) (clean : CleanNames players) :
    extractPlayers (outExtra state up players) = players := by
  have field := get_outExtra state up players (show "players" ≠ _ ∧ _ by decide)
  cases players with
  | nil => simp [extractPlayers, field]
  | cons p rest => exact extractPlayers_of_clean clean (by simpa using field)

theorem payloadRecord_outPayload {payload : Value} {cur : Observation} {event : EventType}
    (clean : CleanNames players) (hash : cur.playersHash = playersHash crates players) :
    payloadRecord crates (outPayload state payload cur players event) = cur := by
  have up : (strField (outExtra state cur.up players) "poll_status" == some "ok") = cur.up := by
    rw [outExtra_poll_status]
    cases cur.up <;> rfl
  obtain ⟨online, max⟩ := intField_outPayload state payload cur players event
  rw [payloadRecord, extraOf_outPayload, up, online, max, outExtra_players cur.up clean, ← hash]
  simp [strField, outPayload, Value.get_ofFields, List.lookup_cons, Value.asStr]

end Payload

section Mirror
variable {crates : Crates} {state : ServerState} {payload : Value} {statusOk : Bool}
  {now heartbeatInterval : ℚ}

/-- The emitted fields hold the consumer's record, or nothing when the consumer has none. -/
def Emitted.Holds (e : Emitted) : Option Observation → Prop
  | none => e = nothingEmitted
  | some o => ∃ t, e = o.emitted t

theorem currentValues_eq_mirror {e : Emitted} {r : Option Observation} (h : e.Holds r) :
    currentValues crates e payload statusOk = mirror crates r payload statusOk := by
  cases statusOk with
  | true => rfl
  | false =>
      cases r with
      | none =>
          cases h
          rfl
      | some o =>
          obtain ⟨t, rfl⟩ := h
          rfl

theorem eventType_eq_none_iff {e : Emitted} {cur : Observation} :
    eventType e cur now heartbeatInterval = none ↔
      e.hasEmittedState = true ∧ e.lastEmittedUp = some cur.up ∧ e.lastEmittedOnline = cur.online ∧
        changedMeta e cur = false ∧ e.lastEmittedPlayersHash = cur.playersHash ∧
        heartbeatDue e now heartbeatInterval = false := by
  unfold eventType
  constructor
  · intro quiet
    split at quiet
    · cases quiet
    · split at quiet
      · cases quiet
      · split at quiet
        · cases quiet
        · split at quiet
          · cases quiet
          · split at quiet
            · cases quiet
            · simp_all
  · rintro ⟨emitted, up, online, same, players, quiet⟩
    simp [emitted, up, online, same, players, quiet]

theorem eventType_none {e : Emitted} {r : Option Observation} (h : e.Holds r) {cur : Observation}
    (quiet : eventType e cur now heartbeatInterval = none) : r = some cur := by
  obtain ⟨emitted, up, online, same, players, _⟩ := eventType_eq_none_iff.mp quiet
  cases r with
  | none =>
      cases h
      cases emitted
  | some o =>
      obtain ⟨t, rfl⟩ := h
      simp only [Observation.emitted, Option.some.injEq] at up online players
      simp only [changedMeta, Observation.emitted, Option.getD_some, Bool.or_eq_false_iff,
        bne_eq_false_iff_eq] at same
      obtain ⟨⟨⟨⟨max, version⟩, motd⟩, country⟩, code⟩ := same
      have eq : o = cur := by
        cases o
        cases cur
        simp only at up online max version motd country code players
        simp only [up, online, max, version, motd, country, code, players]
      rw [eq]

theorem buildChangePayload_output (crates : Crates) (state : ServerState) (payload : Value) (statusOk : Bool)
    (now heartbeatInterval : ℚ) :
    (buildChangePayload crates state payload statusOk now heartbeatInterval).2 =
      (eventType state.toEmitted (currentValues crates state.toEmitted payload statusOk) now heartbeatInterval).map
        (outPayload state payload (currentValues crates state.toEmitted payload statusOk)
          (if statusOk then extractPlayers (extraOf payload) else [])) := by
  unfold buildChangePayload
  cases event : eventType state.toEmitted (currentValues crates state.toEmitted payload statusOk) now
      heartbeatInterval with
  | none => simp only [event, Option.map_none]
  | some event' => simp only [event, Option.map_some]

/-- Either nothing is to be emitted and the state stays, or the current values are emitted. -/
theorem buildChangePayload_cases (crates : Crates) (state : ServerState) (payload : Value) (statusOk : Bool)
    (now heartbeatInterval : ℚ) :
    (eventType state.toEmitted (currentValues crates state.toEmitted payload statusOk) now
          heartbeatInterval = none ∧
        buildChangePayload crates state payload statusOk now heartbeatInterval = (state, none)) ∨
      ∃ out, buildChangePayload crates state payload statusOk now heartbeatInterval =
          ({ state with
              toEmitted := (currentValues crates state.toEmitted payload statusOk).emitted now }, some out) ∧
        payloadRecord crates out = currentValues crates state.toEmitted payload statusOk := by
  unfold buildChangePayload
  cases event : eventType state.toEmitted (currentValues crates state.toEmitted payload statusOk) now
      heartbeatInterval with
  | none => exact .inl ⟨rfl, by simp only [event]⟩
  | some event' =>
      refine .inr ⟨outPayload state payload (currentValues crates state.toEmitted payload statusOk)
        (if statusOk then extractPlayers (extraOf payload) else []) event', by simp only [event], ?_⟩
      cases statusOk with
      | true => exact payloadRecord_outPayload (extractPlayers_clean (extraOf payload)) rfl
      | false => exact payloadRecord_outPayload .nil rfl

/-- After every call the consumer's record is the reference state, and the emitted fields hold it. -/
theorem buildChangePayload_mirrors (payload : Value) (statusOk : Bool) (now heartbeatInterval : ℚ)
    {r : Option Observation} (h : state.toEmitted.Holds r) :
    consume crates r (buildChangePayload crates state payload statusOk now heartbeatInterval).2 =
        some (mirror crates r payload statusOk) ∧
      (buildChangePayload crates state payload statusOk now heartbeatInterval).1.toEmitted.Holds
        (some (mirror crates r payload statusOk)) := by
  rw [← currentValues_eq_mirror h]
  rcases buildChangePayload_cases crates state payload statusOk now heartbeatInterval with
    ⟨quiet, eq⟩ | ⟨out, eq, record⟩
  · have known := eventType_none h quiet
    rw [eq]
    exact ⟨known, known ▸ h⟩
  · rw [eq]
    exact ⟨congrArg some record, now, rfl⟩

/-- Only the emitted fields change, and not even they when nothing is returned. -/
theorem buildChangePayload_frame :
    ((buildChangePayload crates state payload statusOk now heartbeatInterval).2 = none →
        (buildChangePayload crates state payload statusOk now heartbeatInterval).1 = state) ∧
      ∃ e, (buildChangePayload crates state payload statusOk now heartbeatInterval).1 =
        { state with toEmitted := e } := by
  rcases buildChangePayload_cases crates state payload statusOk now heartbeatInterval with
    ⟨_, eq⟩ | ⟨out, eq, _⟩
  · rw [eq]
    exact ⟨fun _ => rfl, state.toEmitted, rfl⟩
  · rw [eq]
    exact ⟨nofun, _, rfl⟩

/-- After any run of calls from a fresh state the consumer's record is the state of the reference
machine, and the calls touch nothing but the emitted fields, and those only when they emit. -/
theorem change_detection_mirrors {s t : ServerState} {r : Option Observation} (fresh : s.Fresh)
    {calls : List DetectionCall} (run : Run (ofTotal (detect crates)) (s, none) calls (t, r)) :
    r = mirrorAll crates calls ∧
      ∀ (state : ServerState) (call : DetectionCall),
        ((buildChangePayload crates state call.payload call.statusOk call.now call.heartbeatInterval).2 = none →
          (buildChangePayload crates state call.payload call.statusOk call.now call.heartbeatInterval).1 = state) ∧
        ∃ e, (buildChangePayload crates state call.payload call.statusOk call.now call.heartbeatInterval).1 =
          { state with toEmitted := e } := by
  have inv := run.keeps_history
    (P := fun past u => u.1.toEmitted.Holds u.2 ∧ u.2 = mirrorAll crates past) ?_ ⟨fresh, rfl⟩
  · exact ⟨inv.2, fun _ _ => buildChangePayload_frame⟩
  · rintro past ⟨state, r⟩ call _ ⟨holds, eq⟩ rfl
    obtain ⟨record, holds'⟩ : _ ∧ _ := buildChangePayload_mirrors call.payload call.statusOk call.now
      call.heartbeatInterval holds
    simp only at eq
    subst eq
    simp only [detect]
    rw [record]
    refine ⟨holds', ?_⟩
    simp only [mirrorAll, List.foldl_append, List.foldl_cons, List.foldl_nil]

end Mirror

/-- Crates that know no timestamp and whose digest is the text itself. -/
def plainCrates : Crates := ⟨fun _ => none, id⟩

def sampleState : ServerState where
  toAddress := ⟨"mc.example.com", none, none, .java⟩
  toFailures := ⟨false, 0, 0⟩
  toEmitted := nothingEmitted
  key := "1"
  serverId := "1"
  server := .object []
  nextDue := 0
  nextBedrockProbe := none
  nextQueryAttempt := 0
  pluginManaged := false
  pluginFallbackMode := false
  lastFaviconHash := none

/-- A server that is up, stays up, and goes down. -/
theorem change_detection_mirrors_upUpDown :
    let up : Value := .ofFields [("online", .ofI64 5), ("max_players", .ofI64 20), ("version", .string " 1.20 ")]
    let calls : List DetectionCall := [⟨up, true, 1000, 0⟩, ⟨up, true, 1001, 0⟩, ⟨.object [], false, 1002, 0⟩]
    (calls.foldl (detect plainCrates) (sampleState, none)).2 = mirrorAll plainCrates calls :=
  (change_detection_mirrors (s := sampleState) rfl (run_ofTotal_iff.mpr rfl)).1

end ServerPoller
