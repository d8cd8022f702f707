import ServerPoller.DnsLookups

/-! `GeoCache::fetch_geo`: the geolocation of a host from its own cache, or from a service that is asked about an
address which the DNS cache gives; and where the countries that calls return come from. -/

namespace ServerPoller
open Transition Slots

/-- All fields of the source's `GeoSettings`. -/
structure GeoLookupSettings extends GeoSettings where
  ttlSeconds : Nat
  refreshJitterSeconds : Nat
  retrySeconds : Nat

structure CacheEntry where
  country : String
  countryCode : String
  expiresAt : ℚ
  deriving DecidableEq, Repr

abbrev GeoEntries := AList fun _ : String => CacheEntry

structure GeoResponse where
  status : String
  country : String
  countryCode : String
  deriving DecidableEq, Repr

/-- What becomes of a request to the service: it fails, or a response comes, whose body may not be what it should. -/
inductive GeoAnswer where
  | failed
  | response (isSuccess : Bool) (body : Option GeoResponse)
  deriving DecidableEq, Repr

def GeoAnswer.result : GeoAnswer → String × String
  | .response true (some data) => if data.status = "success" then (data.country, data.countryCode) else ("", "")
  | .response true none | .response false _ | .failed => ("", "")

structure GeoRequest where
  host : String
  port : Option UInt16
  edition : Edition
  deriving DecidableEq, Repr

def GeoRequest.cacheKey (r : GeoRequest) : String := ServerPoller.cacheKey r.host (r.port.getD 0)

def GeoRequest.effectivePort (r : GeoRequest) : UInt16 := r.port.getD r.edition.defaultPort

/-- The key under which the host's address is cached. -/
def GeoRequest.dnsKey (r : GeoRequest) : String := ServerPoller.cacheKey r.host r.effectivePort

/-- A call of `fetch_geo`, by what it does next. -/
inductive FetchGeo where
  | checking (request : GeoRequest)
  /-- It waits for this call of `resolve_ip`. -/
  | resolving (request : GeoRequest) (call : Nat)
  | requesting (request : GeoRequest) (resolvedIp : String)
  | inserting (request : GeoRequest) (result : String × String)
  | returned (request : GeoRequest) (result : String × String)
  deriving DecidableEq, Repr

structure GeoLookups where
  dns : GeoCache
  geoEntries : GeoEntries
  fetches : List FetchGeo

inductive FetchAct where
  | fetchGeo (request : GeoRequest)
  | check (i : Nat)
  /-- A step of a call of `resolve_ip`, or time. -/
  | dns (a : ResolveAct)
  | resolved (i : Nat)
  | answer (i : Nat) (answer : GeoAnswer)
  /-- With the jitter that is drawn where there is one. -/
  | insert (i : Nat) (jitter : Nat)
  deriving Repr

def cachedGeo (cache : GeoEntries) (now : ℚ) (cacheKey : String) : Option (String × String) :=
  match cache.lookup cacheKey with
  | some entry => if now < entry.expiresAt then some (entry.country, entry.countryCode) else none
  | none => none

section Source
variable (settings : GeoLookupSettings)

/-- Compute TTL with random jitter to prevent thundering herd. -/
def ttlWithJitter (jitter baseTtl : Nat) : Nat :=
  if settings.refreshJitterSeconds = 0 ∨ baseTtl = 0 then baseTtl else baseTtl + jitter

def geoTtl (result : String × String) (jitter : Nat) : Nat :=
  if result.1 = "" ∧ result.2 = "" then settings.retrySeconds else ttlWithJitter settings jitter settings.ttlSeconds

end Source

namespace GeoLookups

def new (settings : GeoLookupSettings) : GeoLookups := ⟨.new settings.toGeoSettings, ∅, []⟩

def setFetch (g : GeoLookups) (i : Nat) (fetch : FetchGeo) : GeoLookups := { g with fetches := g.fetches.set i fetch }

/-- One step of a call, up to where it next waits for a lock, another call or an answer. -/
def step (settings : GeoLookupSettings) (g : GeoLookups) : FetchAct → Option GeoLookups
  | .fetchGeo request => some { g with fetches := g.fetches ++ [.checking request] }
  | .check i =>
      match g.fetches[i]? with
      | some (.checking request) =>
          match cachedGeo g.geoEntries g.dns.now request.cacheKey with
          | some result => some (g.setFetch i (.returned request result))
          | none =>
              (g.dns.step settings.toGeoSettings (.resolveIp request.host request.effectivePort)).map fun dns =>
                { g.setFetch i (.resolving request g.dns.calls.length) with dns }
      | _ => none
  | .dns a =>
      if a.inner then (g.dns.step settings.toGeoSettings a).map fun dns => { g with dns } else none
  | .resolved i =>
      match g.fetches[i]? with
      | some (.resolving request call) =>
          match g.dns.calls[call]? with
          | some (.returned (some ip)) => some (g.setFetch i (.requesting request ip))
          | some (.returned none) => some (g.setFetch i (.inserting request ("", "")))
          | _ => none
      | _ => none
  | .answer i answer =>
      match g.fetches[i]? with
      | some (.requesting request _) => some (g.setFetch i (.inserting request answer.result))
      | _ => none
  | .insert i jitter =>
      match g.fetches[i]? with
      | some (.inserting request result) =>
          if settings.refreshJitterSeconds = 0 ∨ jitter < settings.refreshJitterSeconds then
            some { g.setFetch i (.returned request result) with
              geoEntries := g.geoEntries.insert request.cacheKey
                ⟨result.1, result.2, g.dns.now + geoTtl settings result jitter⟩ }
          else none
      | _ => none

section Moved
variable (settings : GeoLookupSettings) (g : GeoLookups)

inductive Moved : FetchAct → GeoLookups → Prop
  | fetchGeo {request} : Moved (.fetchGeo request) { g with fetches := g.fetches ++ [.checking request] }
  | hit {i request result} : g.fetches[i]? = some (.checking request) →
      cachedGeo g.geoEntries g.dns.now request.cacheKey = some result →
      Moved (.check i) (g.setFetch i (.returned request result))
  | miss {i request dns} : g.fetches[i]? = some (.checking request) →
      cachedGeo g.geoEntries g.dns.now request.cacheKey = none →
      g.dns.step settings.toGeoSettings (.resolveIp request.host request.effectivePort) = some dns →
      Moved (.check i) { g.setFetch i (.resolving request g.dns.calls.length) with dns }
  | dns {a dns} : a.inner = true → g.dns.step settings.toGeoSettings a = some dns → Moved (.dns a) { g with dns }
  | resolved {i request call ip} : g.fetches[i]? = some (.resolving request call) →
      g.dns.calls[call]? = some (.returned (some ip)) → Moved (.resolved i) (g.setFetch i (.requesting request ip))
  | unresolved {i request call} : g.fetches[i]? = some (.resolving request call) →
      g.dns.calls[call]? = some (.returned none) → Moved (.resolved i) (g.setFetch i (.inserting request ("", "")))
  | answer {i request ip answer} : g.fetches[i]? = some (.requesting request ip) →
      Moved (.answer i answer) (g.setFetch i (.inserting request answer.result))
  | insert {i jitter request result} : g.fetches[i]? = some (.inserting request result) →
      settings.refreshJitterSeconds = 0 ∨ jitter < settings.refreshJitterSeconds →
      Moved (.insert i jitter) { g.setFetch i (.returned request result) with
        geoEntries := g.geoEntries.insert request.cacheKey
          ⟨result.1, result.2, g.dns.now + geoTtl settings result jitter⟩ }

end Moved

variable {settings : GeoLookupSettings} {g g' : GeoLookups} {a : FetchAct} {acts : List FetchAct}

theorem step_moved (h : g.step settings a = some g') : g.Moved settings a g' := by
  cases a with
  | fetchGeo request =>
      cases h
      exact .fetchGeo
  | check i =>
      simp only [step] at h
      split at h
      · rename_i checking
        split at h
        · rename_i cached
          cases h
          exact .hit checking cached
        · rename_i missing
          obtain ⟨dns, begun, rfl⟩ := Option.map_eq_some_iff.mp h
          exact .miss checking missing begun
      · cases h
  | dns a =>
      simp only [step] at h
      split at h
      · rename_i inner
        obtain ⟨dns, moved, rfl⟩ := Option.map_eq_some_iff.mp h
        exact .dns inner moved
      · cases h
  | resolved i =>
      simp only [step] at h
      split at h
      · rename_i resolving
        split at h
        · rename_i found
          cases h
          exact .resolved resolving found
        · rename_i nothing
          cases h
          exact .unresolved resolving nothing
        · cases h
      · cases h
  | answer i answer =>
      simp only [step] at h
      split at h
      · rename_i requesting
        cases h
        exact .answer requesting
      · cases h
  | insert i jitter =>
      simp only [step] at h
      split at h
      · rename_i inserting
        split at h
        · rename_i drawn
          cases h
          exact .insert inserting drawn
        · cases h
      · cases h

def LooksUp (key text : String) (g : GeoLookups) (a : FetchAct) : Prop :=
  ∃ b, a = .dns b ∧ GeoCache.LooksUp key text g.dns b

def Answers (request : GeoRequest) (ip : String) (result : String × String) (g : GeoLookups) (a : FetchAct) : Prop :=
  ∃ i data, a = .answer i (.response true (some data)) ∧ data.status = "success" ∧
    result = (data.country, data.countryCode) ∧ g.fetches[i]? = some (.requesting request ip)

def Stores (request : GeoRequest) (result : String × String) (time : ℚ) (g : GeoLookups) (a : FetchAct) : Prop :=
  ∃ i jitter, a = .insert i jitter ∧ g.fetches[i]? = some (.inserting request result) ∧ g.dns.now = time

/-- How old a result may be that is returned. -/
def maxAge (settings : GeoLookupSettings) (result : String × String) : Nat :=
  if result = ("", "") then settings.retrySeconds else settings.ttlSeconds + settings.refreshJitterSeconds

abbrev Looked (settings : GeoLookupSettings) (acts : List FetchAct) (g : GeoLookups) (key text : String) : Prop :=
  InOrder (ofFn (step settings)) [LooksUp key text] (.new settings) acts g

/-- The result is empty, or the service has given it about an address that the host was looked up to have; and then
came these events. -/
def Backed (settings : GeoLookupSettings) (request : GeoRequest) (result : String × String)
    (then_ : List (GeoLookups → FetchAct → Prop)) (acts : List FetchAct) (g : GeoLookups) : Prop :=
  (result = ("", "") ∧ InOrder (ofFn (step settings)) then_ (.new settings) acts g) ∨
    ∃ ip, InOrder (ofFn (step settings)) (LooksUp request.dnsKey ip :: Answers request ip result :: then_)
      (.new settings) acts g

section Backing
variable {request : GeoRequest} {result : String × String} {then_ : List (GeoLookups → FetchAct → Prop)}
  {ev : GeoLookups → FetchAct → Prop}

theorem Backed.append (h : Backed settings request result then_ acts g) (moved : g.step settings a = some g') :
    Backed settings request result then_ (acts ++ [a]) g' := by
  rcases h with ⟨empty, run⟩ | ⟨ip, run⟩
  · exact .inl ⟨empty, run.append moved⟩
  · exact .inr ⟨ip, run.append moved⟩

theorem Backed.last (h : Backed settings request result then_ acts g) (here : ev g a)
    (moved : g.step settings a = some g') : Backed settings request result (then_ ++ [ev]) (acts ++ [a]) g' := by
  rcases h with ⟨empty, run⟩ | ⟨ip, run⟩
  · exact .inl ⟨empty, run.last here moved⟩
  · exact .inr ⟨ip, run.last here moved⟩

theorem Backed.answered {ip : String} (looked : Looked settings acts g request.dnsKey ip) {i : Nat}
    {answer : GeoAnswer} (here : g.fetches[i]? = some (.requesting request ip))
    (moved : g.step settings (.answer i answer) = some g') :
    Backed settings request answer.result [] (acts ++ [.answer i answer]) g' := by
  by_cases empty : answer.result = ("", "")
  · obtain ⟨past, e, rest, u, v, rfl, before, _, at_, after⟩ := looked
    refine .inl ⟨empty, ?_⟩
    exact (before.append (.cons at_ after)).append (.single moved)
  · obtain ⟨data, rfl, success⟩ : ∃ data, answer = .response true (some data) ∧ data.status = "success" := by
      unfold GeoAnswer.result at empty
      split at empty
      · rename_i data
        split at empty
        · rename_i success
          exact ⟨data, rfl, success⟩
        · exact absurd rfl empty
      · exact absurd rfl empty
      · exact absurd rfl empty
      · exact absurd rfl empty
    have result : (GeoAnswer.response true (some data)).result = (data.country, data.countryCode) := if_pos success
    exact .inr ⟨ip, looked.last ⟨i, data, rfl, success, result, here⟩ moved⟩

end Backing

/-- What a call has so far is what its events have given it. -/
def FetchSourced (settings : GeoLookupSettings) (acts : List FetchAct) (g : GeoLookups) : FetchGeo → Prop
  | .checking _ | .returned _ _ => True
  | .resolving request call => ∃ c, g.dns.calls[call]? = some c ∧
      (c.key? = some request.dnsKey ∨ ∃ text, c = .returned (orNone text) ∧ Looked settings acts g request.dnsKey text)
  | .requesting request ip => Looked settings acts g request.dnsKey ip
  | .inserting request result => Backed settings request result [] acts g

structure Sourced (settings : GeoLookupSettings) (acts : List FetchAct) (g : GeoLookups) : Prop where
  run : Run (ofFn (step settings)) (.new settings) acts g
  dns : g.dns.Sourced settings.toGeoSettings (Looked settings acts g) fun key text _ => Looked settings acts g key text
  fetches : ∀ fetch ∈ g.fetches, FetchSourced settings acts g fetch
  entries : ∀ key entry, g.geoEntries.lookup key = some entry → ∃ request time, request.cacheKey = key ∧
    entry.expiresAt ≤ time + maxAge settings (entry.country, entry.countryCode) ∧
      Backed settings request (entry.country, entry.countryCode)
        [Stores request (entry.country, entry.countryCode) time] acts g

theorem new_sourced (settings : GeoLookupSettings) : (new settings).Sourced settings [] :=
  ⟨.nil _, GeoCache.new_sourced _ _ _, fun _ none_ => (List.not_mem_nil none_).elim, fun _ _ none_ => nomatch none_⟩

theorem Moved.dns_cases (moved : g.Moved settings a g') :
    g'.dns = g.dns ∨ ∃ b, g.dns.step settings.toGeoSettings b = some g'.dns ∧
      ((∃ host port, b = .resolveIp host port) ∨ a = .dns b) := by
  cases moved with
  | miss _ _ begun => exact .inr ⟨_, begun, .inl ⟨_, _, rfl⟩⟩
  | dns _ stepped => exact .inr ⟨_, stepped, .inr rfl⟩
  | fetchGeo | hit | resolved | unresolved | answer | insert => exact .inl rfl

theorem learns_dns (h : g.Sourced settings acts) (moved : g.step settings a = some g') {b : ResolveAct}
    (which : (∃ host port, b = .resolveIp host port) ∨ a = .dns b) :
    GeoCache.Learns (Looked settings acts g) (Looked settings (acts ++ [a]) g')
      (fun key text _ => Looked settings acts g key text)
      (fun key text _ => Looked settings (acts ++ [a]) g' key text) g.dns b where
  keepsKnown _ _ before := before.append moved
  keepsStored _ _ _ before := before.append moved
  looksUp key text looks := by
    rcases which with ⟨host, port, rfl⟩ | rfl
    · obtain ⟨i, addrs, other, _⟩ := looks
      cases other
    · exact InOrder.last (show InOrder _ [] _ _ _ from h.run) ⟨b, rfl, looks⟩ moved
  stores _ _ _ before _ := before.append moved

theorem FetchSourced.step {fetch : FetchGeo} (h : FetchSourced settings acts g fetch) (sourced : g.Sourced settings acts)
    (moved : g.step settings a = some g') : FetchSourced settings (acts ++ [a]) g' fetch := by
  cases fetch with
  | checking | returned => trivial
  | requesting request ip => exact InOrder.append h moved
  | inserting request result => exact Backed.append h moved
  | resolving request call =>
      obtain ⟨c, here, known⟩ := h
      have later : c.key? = some request.dnsKey ∨
          (∃ text, c = .returned (orNone text) ∧ Looked settings (acts ++ [a]) g' request.dnsKey text) :=
        known.imp_right fun ⟨text, returned, looked⟩ => ⟨text, returned, looked.append moved⟩
      rcases (step_moved moved).dns_cases with same | ⟨b, stepped, which⟩
      · exact ⟨c, same ▸ here, later⟩
      · obtain ⟨c', there, rfl | ⟨unfinished, goes⟩⟩ := (GeoCache.step_moved stepped).call here
        · exact ⟨c', there, later⟩
        · refine ⟨c', there, ?_⟩
          rcases known with key | ⟨text, rfl, _⟩
          · rcases goes with same | ⟨ip, rfl⟩
            · exact .inl (same.trans key)
            · obtain ⟨text, _, rfl, _, looked⟩ :=
                sourced.dns.returns (learns_dns sourced moved which) (GeoCache.step_moved stepped) here key there
              exact .inr ⟨text, rfl, looked⟩
          · cases unfinished

theorem geoTtl_le_maxAge {result : String × String} {jitter : Nat}
    (drawn : settings.refreshJitterSeconds = 0 ∨ jitter < settings.refreshJitterSeconds) :
    geoTtl settings result jitter ≤ maxAge settings result := by
  have empty : result = ("", "") ↔ result.1 = "" ∧ result.2 = "" := Prod.ext_iff
  unfold geoTtl maxAge
  by_cases none_ : result.1 = "" ∧ result.2 = ""
  · rw [if_pos none_, if_pos (empty.mpr none_)]
  · rw [if_neg none_, if_neg (mt empty.mp none_), ttlWithJitter]
    split <;> omega

theorem Sourced.step (h : g.Sourced settings acts) (moved : g.step settings a = some g') :
    g'.Sourced settings (acts ++ [a]) := by
  have run := h.run.append (.single moved)
  have dns : g'.dns.Sourced settings.toGeoSettings (Looked settings (acts ++ [a]) g')
      fun key text _ => Looked settings (acts ++ [a]) g' key text := by
    rcases (step_moved moved).dns_cases with same | ⟨b, stepped, which⟩
    · rw [same]
      refine ⟨fun i key text there => (h.dns.inserting i key text there).append moved, fun key entry found => ?_⟩
      obtain ⟨time, expires, looked⟩ := h.dns.entries key entry found
      exact ⟨time, expires, looked.append moved⟩
    · exact h.dns.step (learns_dns h moved which) (GeoCache.step_moved stepped)
  have others : ∀ fetch ∈ g.fetches, FetchSourced settings (acts ++ [a]) g' fetch :=
    fun fetch member => (h.fetches fetch member).step h moved
  have replaced : ∀ {i fetch}, FetchSourced settings (acts ++ [a]) g' fetch →
      ∀ fetch' ∈ g.fetches.set i fetch, FetchSourced settings (acts ++ [a]) g' fetch' := by
    intro i fetch new_ fetch' member
    rcases List.mem_or_eq_of_mem_set member with before | rfl
    · exact others fetch' before
    · exact new_
  have entries : g'.geoEntries = g.geoEntries → ∀ key entry, g'.geoEntries.lookup key = some entry →
      ∃ request time, request.cacheKey = key ∧
        entry.expiresAt ≤ time + maxAge settings (entry.country, entry.countryCode) ∧
          Backed settings request (entry.country, entry.countryCode)
            [Stores request (entry.country, entry.countryCode) time] (acts ++ [a]) g' := by
    intro same key entry found
    rw [same] at found
    obtain ⟨request, time, key_, expires, backed⟩ := h.entries key entry found
    exact ⟨request, time, key_, expires, backed.append moved⟩
  have had : ∀ {i : Nat} {fetch}, g.fetches[i]? = some fetch → FetchSourced settings acts g fetch :=
    fun here => h.fetches _ (List.mem_of_getElem? here)
  cases step_moved moved with
  | fetchGeo =>
      refine ⟨run, dns, fun fetch member => ?_, entries rfl⟩
      rcases List.mem_append.mp member with before | new_
      · exact others fetch before
      · cases List.mem_singleton.mp new_
        trivial
  | hit here => exact ⟨run, dns, replaced trivial, entries rfl⟩
  | dns => exact ⟨run, dns, others, entries rfl⟩
  | miss here missing begun =>
      cases begun
      exact ⟨run, dns, replaced ⟨_, List.getElem?_concat_length, .inl rfl⟩, entries rfl⟩
  | @resolved i request call ip here found =>
      refine ⟨run, dns, replaced ?_, entries rfl⟩
      obtain ⟨c, there, known⟩ := had here
      cases there.symm.trans found
      rcases known with key | ⟨text, returned, looked⟩
      · cases key
      · have same : orNone text = some ip := (ResolveIp.returned.inj returned).symm
        unfold orNone at same
        split at same
        · cases same
        · cases same
          exact looked.append moved
  | unresolved here found => exact ⟨run, dns, replaced (.inl ⟨rfl, run⟩), entries rfl⟩
  | answer here => exact ⟨run, dns, replaced (Backed.answered (had here) here moved), entries rfl⟩
  | @insert i jitter request result here drawn =>
      refine ⟨run, dns, replaced trivial, fun key entry found => ?_⟩
      rcases AList.lookup_insert_eq_some.mp found with ⟨rfl, rfl⟩ | ⟨_, before⟩
      · refine ⟨request, g.dns.now, rfl, ?_, Backed.last (had here) ⟨i, jitter, rfl, here, rfl⟩ moved⟩
        exact add_le_add_right (Nat.cast_le.mpr (geoTtl_le_maxAge drawn)) _
      · obtain ⟨request', time, key_, expires, backed⟩ := h.entries key entry before
        exact ⟨request', time, key_, expires, backed.append moved⟩

theorem Sourced.ofRun (run : Run (ofFn (GeoLookups.step settings)) (.new settings) acts g) :
    g.Sourced settings acts :=
  run.keeps_history (P := Sourced settings) (fun _ _ _ _ h moved => h.step moved) (new_sourced settings)

theorem Sourced.returns (h : g.Sourced settings acts) (moved : g.step settings a = some g') {i : Nat}
    {request : GeoRequest} {result : String × String} (before : g.fetches[i]? ≠ some (.returned request result))
    (after : g'.fetches[i]? = some (.returned request result)) :
    ∃ other time, other.cacheKey = request.cacheKey ∧ g'.dns.now ≤ time + maxAge settings result ∧
      Backed settings other result [Stores other result time] (acts ++ [a]) g' := by
  -- the call is the one that the step is about
  have mine : ∀ {j fetch fetch'}, g.fetches[j]? = some fetch → g'.fetches = g.fetches.set j fetch' →
      fetch' = .returned request result := by
    intro j fetch fetch' here fetches
    rw [fetches, getElem?_set_of_getElem? here] at after
    split at after
    · exact Option.some.inj after
    · exact absurd after before
  cases step_moved moved with
  | fetchGeo =>
      rw [List.getElem?_append] at after
      split at after
      · exact absurd after before
      · cases List.mem_singleton.mp (List.mem_of_getElem? after)
  | dns => exact absurd after before
  | hit here cached =>
      cases mine here rfl
      unfold cachedGeo at cached
      split at cached
      · rename_i entry found
        split at cached
        · rename_i live
          cases cached
          obtain ⟨other, time, key, expires, backed⟩ := h.entries _ entry found
          exact ⟨other, time, key, live.le.trans expires, backed.append moved⟩
        · cases cached
      · cases cached
  | miss here | resolved here | unresolved here | answer here => cases mine here rfl
  | @insert j jitter request' result' here drawn =>
      cases mine here rfl
      have had : Backed settings request result [] acts g := h.fetches _ (List.mem_of_getElem? here)
      refine ⟨request, g.dns.now, rfl, ?_, had.last ⟨j, jitter, rfl, here, rfl⟩ moved⟩
      exact le_add_of_nonneg_right (Nat.cast_nonneg _)

end GeoLookups

/-- What stands around the last occurrence of a character is determined. -/
theorem append_last_inj {α : Type*} {x : α} {l l' d d' : List α} (no : x ∉ d) (no' : x ∉ d')
    (same : l ++ x :: d = l' ++ x :: d') : l = l' ∧ d = d' := by
  rcases List.append_eq_append_iff.mp same with ⟨more, longer, rest⟩ | ⟨more, longer, rest⟩
  · cases more with
    | nil => exact ⟨(longer.trans (List.append_nil _)).symm, (List.cons.inj rest).2⟩
    | cons c more =>
        rw [(List.cons.inj rest).2] at no
        exact absurd (List.mem_append_right _ List.mem_cons_self) no
  · cases more with
    | nil => exact ⟨longer.trans (List.append_nil _), (List.cons.inj rest).2.symm⟩
    | cons c more =>
        rw [(List.cons.inj rest).2] at no'
        exact absurd (List.mem_append_right _ List.mem_cons_self) no'

/-- A cache key tells the host and the port, whatever the host is. -/
theorem cacheKey_inj {host host' : String} {port port' : UInt16} :
    cacheKey host port = cacheKey host' port' ↔ host = host' ∧ port = port' := by
  constructor
  · intro same
    have digits : ∀ p : UInt16, ':' ∉ Nat.toDigits 10 p.toNat :=
      fun p member => absurd (Nat.isDigit_of_mem_toDigits (by decide) (by decide) member) (by decide)
    have text : ∀ (h : String) (p : UInt16), (cacheKey h p).toList = h.toList ++ ':' :: Nat.toDigits 10 p.toNat := by
      intro h p
      rw [cacheKey, String.toList_append, String.toList_append, List.append_assoc,
        show (toString p.toNat).toList = Nat.toDigits 10 p.toNat from Nat.toList_repr]
      rfl
    have texts := congrArg String.toList same
    rw [text, text] at texts
    obtain ⟨hosts, ports⟩ := append_last_inj (digits port) (digits port') texts
    refine ⟨String.toList_inj.mp hosts, UInt16.toNat_inj.mp ?_⟩
    have value := congrArg (fun l => Nat.ofDigitChars 10 l 0) ports
    simpa only [Nat.ofDigitChars_ten_toDigits] using value
  · rintro ⟨rfl, rfl⟩
    rfl

/-- What a call of `fetch_geo` returns is empty, or it is what the service has given with success about the first
address that a lookup of the same host gave before, for the same port or for the default one of an edition; and it was
stored after that no longer ago than the time to live with its largest jitter, or than the retry time where it is
empty. -/
theorem geo_answers_sourced {settings : GeoLookupSettings} {acts : List FetchAct} {g g' : GeoLookups} {a : FetchAct}
    (run : Run (ofFn (GeoLookups.step settings)) (.new settings) acts g) (moved : g.step settings a = some g') {i : Nat}
    {request : GeoRequest} {result : String × String} (before : g.fetches[i]? ≠ some (.returned request result))
    (after : g'.fetches[i]? = some (.returned request result)) :
    ∃ other time, other.host = request.host ∧ other.port.getD 0 = request.port.getD 0 ∧
      g'.dns.now ≤ time + GeoLookups.maxAge settings result ∧
        GeoLookups.Backed settings other result [GeoLookups.Stores other result time] (acts ++ [a]) g' := by
  obtain ⟨other, time, key, fresh, backed⟩ := (GeoLookups.Sourced.ofRun run).returns moved before after
  obtain ⟨host, port⟩ := cacheKey_inj.mp key
  exact ⟨other, time, host, port, fresh, backed⟩

def sampleLookups : GeoLookupSettings :=
  { sampleGeo with ttlSeconds := 3600, refreshJitterSeconds := 300, retrySeconds := 300 }

def fetchedTwice : List FetchAct := [
  .fetchGeo ⟨"mc.example.com", none, .java⟩, .check 0, .dns (.check 0), .dns (.acquire 0), .dns (.recheck 0),
  .dns (.lookupHost 0 (some ["192.0.2.1"])), .dns (.insert 0 0), .resolved 0,
  .answer 0 (.response true (some ⟨"success", "Germany", "DE"⟩)), .insert 0 100, .dns (.elapse 3650),
  .fetchGeo ⟨"mc.example.com", none, .bedrock⟩]

theorem geo_answers_sourced_fetchedTwice :
    ∃ g g', Run (ofFn (GeoLookups.step sampleLookups)) (.new sampleLookups) fetchedTwice g ∧
      g.step sampleLookups (.check 1) = some g' ∧
      g'.fetches[1]? = some (.returned ⟨"mc.example.com", none, .bedrock⟩ ("Germany", "DE")) ∧
      ∃ other time, other.host = "mc.example.com" ∧
        g'.dns.now ≤ time + GeoLookups.maxAge sampleLookups ("Germany", "DE") ∧
        GeoLookups.Backed sampleLookups other ("Germany", "DE") [GeoLookups.Stores other ("Germany", "DE") time]
          (fetchedTwice ++ [.check 1]) g' := by
  have scenario : (fetchedTwice.foldlM (GeoLookups.step sampleLookups) (.new sampleLookups)).any (fun g =>
      decide (g.fetches[1]? = some (.checking ⟨"mc.example.com", none, .bedrock⟩)) &&
        (g.step sampleLookups (.check 1)).any fun g' =>
          decide (g'.fetches[1]? = some (.returned ⟨"mc.example.com", none, .bedrock⟩ ("Germany", "DE")))) = true := by
    decide +kernel
  obtain ⟨g, reached, inner⟩ := (Option.any_eq_true _ _).mp scenario
  obtain ⟨before, inner⟩ := Bool.and_eq_true_iff.mp inner
  obtain ⟨g', moved, after⟩ := (Option.any_eq_true _ _).mp inner
  have run := run_ofFn_iff.mpr reached
  obtain ⟨other, time, host, _, fresh, backed⟩ :=
    geo_answers_sourced run moved (of_decide_eq_true before ▸ nofun) (of_decide_eq_true after)
  exact ⟨g, g', run, moved, of_decide_eq_true after, other, time, host, fresh, backed⟩

end ServerPoller
