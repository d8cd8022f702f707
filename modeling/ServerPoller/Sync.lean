import ServerPoller.Models
import ServerPoller.Lib.KeyedMap

/-! The catalog: how it is fetched page by page, and how `refresh_servers_once`, the trigger file
and the force-ping queue change the states map and what they schedule. -/

namespace ServerPoller
open Json RustText

abbrev States := AList (fun _ : String => ServerState)

structure ServerCatalogItem where
  id : String
  projectId : Option String
  projectOnlineStrategy : Option String
  ipOrDomain : String
  serverRole : String
  proxyType : Option String
  parentId : Option String
  pingIpOrDomain : Option String
  pingPort : Option Int32
  bedrockPort : Option Int32
  gameEdition : Option String
  isVerified : Bool
  verificationSource : Option String
  verifiedPluginLastSeenAt : Option String

def catalogItemToValue (item : ServerCatalogItem) : Value :=
  .ofFields [
    ("id", .string item.id),
    ("project_id", .ofOption .string item.projectId),
    ("project_online_strategy", .ofOption .string item.projectOnlineStrategy),
    ("ip_or_domain", .string item.ipOrDomain),
    ("server_role", .string item.serverRole),
    ("proxy_type", .ofOption .string item.proxyType),
    ("parent_id", .ofOption .string item.parentId),
    ("ping_ip_or_domain", .ofOption .string item.pingIpOrDomain),
    ("ping_port", .ofOption (fun n => .ofI64 n.toInt64) item.pingPort),
    ("bedrock_port", .ofOption (fun n => .ofI64 n.toInt64) item.bedrockPort),
    ("game_edition", .ofOption .string item.gameEdition),
    ("is_verified", .bool item.isVerified),
    ("verification_source", .ofOption .string item.verificationSource),
    ("verified_plugin_last_seen_at", .ofOption .string item.verifiedPluginLastSeenAt)]

structure ListServersResponse where
  items : List ServerCatalogItem
  total : Int32

/-- The answer to one `ListServers` request, or that it failed. -/
abbrev ListOutcome := Option ListServersResponse

structure PageLoop where
  page : Int32
  result : List Value

def firstPage : PageLoop := ⟨1, []⟩

/-- One turn of the loop, and whether it was the last. An error ends it like a last page. -/
def pageTurn (loop : PageLoop) : ListOutcome → PageLoop × Bool
  | none => (loop, true)
  | some resp =>
      let result := loop.result ++ resp.items.map catalogItemToValue
      (⟨loop.page + 1, result⟩, decide (resp.total ≤ Int32.ofNat result.length))

/-- The loop over the answers to come; it returns those it leaves over, and nothing while it still
waits for one. -/
def fetchPage (loop : PageLoop) : List ListOutcome → Option (List Value × List ListOutcome)
  | [] => none
  | outcome :: rest =>
      match pageTurn loop outcome with
      | (loop, true) => some (loop.result, rest)
      | (loop, false) => fetchPage loop rest

/-- The listing without a role and then the "subserver" listing. -/
def fetchServers (outcomes : List ListOutcome) : Option (List Value × List ListOutcome) :=
  match fetchPage firstPage outcomes with
  | none => none
  | some (servers, rest) =>
      match fetchPage firstPage rest with
      | none => none
      | some (subs, rest) => some (servers ++ subs, rest)

def listed (outcomes : List ListOutcome) : List Value :=
  outcomes.flatMap fun
    | none => []
    | some resp => resp.items.map catalogItemToValue

theorem fetchPage_listed {loop : PageLoop} {outcomes rest : List ListOutcome} {result : List Value}
    (h : fetchPage loop outcomes = some (result, rest)) :
    ∃ used, outcomes = used ++ rest ∧ result = loop.result ++ listed used := by
  induction outcomes generalizing loop with
  | nil => cases h
  | cons outcome outcomes ih =>
      cases outcome with
      | none =>
          cases h
          exact ⟨[none], rfl, (List.append_nil _).symm⟩
      | some resp =>
          rw [fetchPage, pageTurn] at h
          cases done : decide (resp.total ≤
              Int32.ofNat (loop.result ++ resp.items.map catalogItemToValue).length) with
          | true =>
              simp only [done, Option.some.injEq, Prod.mk.injEq] at h
              obtain ⟨rfl, rfl⟩ := h
              exact ⟨[some resp], rfl, by simp [listed]⟩
          | false =>
              simp only [done] at h
              obtain ⟨used, rfl, eq⟩ := ih h
              refine ⟨some resp :: used, rfl, ?_⟩
              rw [eq, List.append_assoc]
              rfl

/-- `fetch_servers` returns what was listed before the errors, and does not say that there were any. -/
theorem fetchServers_listed {outcomes : List ListOutcome} {fetched : List Value}
    (h : fetchServers outcomes = some (fetched, [])) : fetched = listed outcomes := by
  unfold fetchServers at h
  split at h
  · cases h
  · rename_i servers rest first
    split at h
    · cases h
    · rename_i subs rest' second
      cases h
      obtain ⟨used, rfl, eq⟩ := fetchPage_listed first
      obtain ⟨used', rfl, eq'⟩ := fetchPage_listed second
      simp only [firstPage, List.nil_append] at eq eq'
      rw [eq, eq', listed, listed, listed, List.append_nil, List.flatMap_append]

/-- `fetch_server_by_id` over the service's `GetServer`. -/
def fetchServerById (getServer : Int64 → Option ServerCatalogItem) (serverId : String) : Option Value :=
  let id := trim serverId
  if id = "" then none
  else (parseI64 id).bind fun numericId => (getServer numericId).map catalogItemToValue

theorem itemKey_catalogItemToValue (item : ServerCatalogItem) :
    itemKey (catalogItemToValue item) = item.id := by
  simp [itemKey, catalogItemToValue, Value.get_ofFields, List.lookup_cons]

/-- The map after a change, and the calls of `scheduler.schedule` on the way. -/
structure Rescheduled where
  states : States
  scheduled : List (String × ℚ)

section Refresh
variable (crates : Crates) (settings : Settings)

def fallbackMode (entry : Value × ItemContext) : Bool :=
  isPluginFallbackMode crates entry.1 settings.collector.pluginFallbackStaleSeconds entry.2.utcNow

def updateAddress (now : ℚ) (address : Address) (s : ServerState) : ServerState :=
  if s.toAddress = address then s
  else { s with toAddress := address, nextQueryAttempt := now }.resetEmitted

/-- The update of an existing state; a switch into the fallback mode makes it due at once. -/
def updateExisting (now : ℚ) (entry : Value × ItemContext) (s : ServerState) : ServerState :=
  let interval := settings.collector.bedrockProbeIntervalSeconds
  let s := updateAddress now (itemAddress entry.1) s
  { s with
    server := entry.1
    pluginManaged := isPluginManaged entry.1
    pluginFallbackMode := fallbackMode crates settings entry
    nextDue := if fallbackMode crates settings entry && !s.pluginFallbackMode then now else s.nextDue
    nextBedrockProbe :=
      if wantsBedrockProbe entry.1 interval then
        s.nextBedrockProbe.or (seedBedrockProbe entry.1 now interval entry.2.probe)
      else none }

/-- One turn of the loop over the fetched servers. -/
def refreshItem (now : ℚ) (acc : Rescheduled) (entry : Value × ItemContext) : Rescheduled :=
  let key := itemKey entry.1
  if key = "" then acc
  else match acc.states.lookup key with
    | some s =>
        { states := acc.states.insert key (updateExisting crates settings now entry s)
          scheduled := acc.scheduled ++
            if fallbackMode crates settings entry && !s.pluginFallbackMode then [(key, now)] else [] }
    | none =>
        let s := buildState crates settings entry.1 now entry.2
        { states := acc.states.insert key s
          scheduled := acc.scheduled ++ [(s.key, s.nextDue)] }

def refreshItems (now : ℚ) (entries : List (Value × ItemContext)) (states : States) : Rescheduled :=
  entries.foldl (refreshItem crates settings now) ⟨states, []⟩

/-- `refresh_servers_once` after the fetch. Nothing fetched counts as a failure. -/
def refreshServersOnce (now : ℚ) (entries : List (Value × ItemContext)) (states : States) :
    Bool × Rescheduled :=
  if entries.isEmpty then (false, ⟨states, []⟩)
  else
    let acc := refreshItems crates settings now entries states
    (true, { acc with
      states := acc.states.filterKeys fun key => key ≠ "" && entries.any fun entry => itemKey entry.1 == key })

end Refresh

/-- One turn of the loop over the targets of a trigger file. -/
def triggerOne (now : ℚ) (acc : Rescheduled) (id : String) : Rescheduled :=
  match acc.states.lookup id with
  | some s => ⟨acc.states.insert id { s with nextDue := now }, acc.scheduled ++ [(s.key, now)]⟩
  | none => acc

/-- What `trigger_loop` does with the content of a trigger file. -/
def trigger (targets : Option (List String)) (now : ℚ) (states : States) : Rescheduled :=
  match targets with
  | none =>
      { states := states.mapVals fun _ s => { s with nextDue := now }
        scheduled := states.entries.map fun e => (e.2.key, now) }
  | some ids => ids.foldl (triggerOne now) ⟨states, []⟩

/-- A forced poll of a target that is in the map. -/
def forcePingKnown (target : String) (now : ℚ) (s : ServerState) (states : States) : Rescheduled :=
  ⟨states.insert target { s with nextDue := now }, [(s.key, now)]⟩

/-- A forced poll of a target that was not in the map when it was looked up. -/
def forcePingFetched (crates : Crates) (settings : Settings) (target : String) (now : ℚ)
    (entry : Value × ItemContext) (states : States) : Rescheduled :=
  let s := buildState crates settings entry.1 now entry.2
  ⟨states.insert target s, [(s.key, now)]⟩

section Items
variable {crates : Crates} {settings : Settings} {now : ℚ} {acc : Rescheduled}
  {entry : Value × ItemContext} {k : String} {s : ServerState}

/-- One turn of the loop leaves the map, updates the state under the item's key, or adds one. -/
theorem refreshItem_cases (crates : Crates) (settings : Settings) (now : ℚ) (acc : Rescheduled)
    (entry : Value × ItemContext) :
    (itemKey entry.1 = "" ∧ refreshItem crates settings now acc entry = acc) ∨
      (∃ s, itemKey entry.1 ≠ "" ∧ acc.states.lookup (itemKey entry.1) = some s ∧
        refreshItem crates settings now acc entry =
          ⟨acc.states.insert (itemKey entry.1) (updateExisting crates settings now entry s),
            acc.scheduled ++ if fallbackMode crates settings entry && !s.pluginFallbackMode then
              [(itemKey entry.1, now)] else []⟩) ∨
      (itemKey entry.1 ≠ "" ∧ acc.states.lookup (itemKey entry.1) = none ∧
        refreshItem crates settings now acc entry =
          ⟨acc.states.insert (itemKey entry.1) (buildState crates settings entry.1 now entry.2),
            acc.scheduled ++
              [(itemKey entry.1, (buildState crates settings entry.1 now entry.2).nextDue)]⟩) := by
  by_cases empty : itemKey entry.1 = ""
  · exact .inl ⟨empty, by simp [refreshItem, empty]⟩
  · cases found : acc.states.lookup (itemKey entry.1) with
    | some s => exact .inr (.inl ⟨s, empty, rfl, by simp [refreshItem, empty, found]⟩)
    | none => exact .inr (.inr ⟨empty, rfl, by simp [refreshItem, empty, found, buildState]⟩)

theorem lookup_refreshItem_ne (other : itemKey entry.1 ≠ k) :
    (refreshItem crates settings now acc entry).states.lookup k = acc.states.lookup k := by
  rcases refreshItem_cases crates settings now acc entry with ⟨_, eq⟩ | ⟨s, _, _, eq⟩ | ⟨_, _, eq⟩
  · rw [eq]
  · rw [eq]
    exact AList.lookup_insert_ne (Ne.symm other)
  · rw [eq]
    exact AList.lookup_insert_ne (Ne.symm other)

theorem lookup_refreshItem (nonempty : itemKey entry.1 ≠ "")
    (found : acc.states.lookup (itemKey entry.1) = some s) :
    (refreshItem crates settings now acc entry).states.lookup (itemKey entry.1) =
      some (updateExisting crates settings now entry s) := by
  rcases refreshItem_cases crates settings now acc entry with ⟨empty, _⟩ | ⟨s', _, found', eq⟩ | ⟨_, absent, _⟩
  · exact absurd empty nonempty
  · rw [eq]
    cases found.symm.trans found'
    exact AList.lookup_insert _
  · cases found.symm.trans absent

theorem updateExisting_failures :
    (updateExisting crates settings now entry s).toFailures = s.toFailures := by
  unfold updateExisting updateAddress
  split <;> rfl

theorem updateExisting_address :
    (updateExisting crates settings now entry s).toAddress = itemAddress entry.1 := by
  unfold updateExisting updateAddress
  split
  · assumption
  · rfl

theorem updateExisting_emitted (same : s.toAddress = itemAddress entry.1) :
    (updateExisting crates settings now entry s).toEmitted = s.toEmitted := by
  simp only [updateExisting, updateAddress, same, if_true]

theorem updateExisting_key : (updateExisting crates settings now entry s).key = s.key := by
  unfold updateExisting updateAddress
  split <;> rfl

/-- A switch into the fallback mode is the only change of the due time. -/
theorem updateExisting_nextDue : (updateExisting crates settings now entry s).nextDue =
    if fallbackMode crates settings entry && !s.pluginFallbackMode then now else s.nextDue := by
  unfold updateExisting updateAddress
  split <;> rfl

end Items

end ServerPoller
