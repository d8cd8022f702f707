import ServerPoller.Lib.KeyedMap
import ServerPoller.Lib.Transition
import ServerPoller.Models

/-! The DNS cache of `GeoCache`: calls of `resolve_ip` that meet at its locks and at the semaphore, and how many
entries they leave. What is evicted is what has expired, and what is inserted is inserted in any case. -/

namespace ServerPoller
open Transition

structure GeoSettings where
  dnsTtlSeconds : Nat
  dnsRetrySeconds : Nat
  dnsCacheMaxEntries : Nat
  dnsMaxConcurrency : Nat

structure DnsEntry where
  ip : String
  expiresAt : ℚ
  deriving DecidableEq, Repr

/-- `HashMap<String, DnsEntry>` -/
abbrev DnsEntries := AList fun _ : String => DnsEntry

/-- A call of `resolve_ip`, by what it does next. -/
inductive ResolveIp where
  | checking (cacheKey : String)
  | acquiring (cacheKey : String)
  | rechecking (cacheKey : String)
  | resolving (cacheKey : String)
  | inserting (cacheKey ip : String)
  | returned (ip : Option String)
  deriving DecidableEq, Repr

structure GeoCache where
  dnsEntries : DnsEntries
  /-- The permits of `dns_semaphore` that are left. -/
  permits : Nat
  now : ℚ
  calls : List ResolveIp

def GeoCache.new (settings : GeoSettings) : GeoCache := ⟨∅, settings.dnsMaxConcurrency, 0, []⟩

inductive ResolveAct where
  | resolveIp (host : String) (port : UInt16)
  | check (i : Nat)
  | acquire (i : Nat)
  | recheck (i : Nat)
  /-- The texts of the addresses, or nothing for an error. -/
  | lookupHost (i : Nat) (addrs : Option (List String))
  /-- The clock is read twice, at the current time and later. -/
  | insert (i : Nat) (later : ℚ)
  | elapse (now : ℚ)
  deriving Repr

def cacheKey (host : String) (port : UInt16) : String := host ++ ":" ++ toString port.toNat

def orNone (ip : String) : Option String := if ip = "" then none else some ip

def cachedIp (cache : DnsEntries) (now : ℚ) (cacheKey : String) : Option (Option String) :=
  match cache.lookup cacheKey with
  | some entry => if now < entry.expiresAt then some (orNone entry.ip) else none
  | none => none

def firstIp (addrs : Option (List String)) : String :=
  match addrs with
  | some (addr :: _) => addr
  | some [] | none => ""

section Source
variable (settings : GeoSettings)

def dnsTtl (ip : String) : ℚ := if ip = "" then settings.dnsRetrySeconds else settings.dnsTtlSeconds

/-- Evict expired entries if cache is too large. -/
def evict (now : ℚ) (cache : DnsEntries) : DnsEntries :=
  if settings.dnsCacheMaxEntries ≤ cache.len then cache.retain fun _ v => decide (now < v.expiresAt) else cache

def insertDns (now later : ℚ) (cacheKey ip : String) (cache : DnsEntries) : DnsEntries :=
  (evict settings now cache).insert cacheKey ⟨ip, later + dnsTtl settings ip⟩

end Source

namespace GeoCache

def setCall (s : GeoCache) (i : Nat) (call : ResolveIp) : GeoCache := { s with calls := s.calls.set i call }

/-- The call returns, and drops its permit. -/
def finish (s : GeoCache) (i : Nat) (ip : Option String) : GeoCache :=
  { s.setCall i (.returned ip) with permits := s.permits + 1 }

/-- One step of a call, up to where it next waits for a lock, a permit or an answer. -/
def step (settings : GeoSettings) (s : GeoCache) : ResolveAct → Option GeoCache
  | .resolveIp host port => some { s with calls := s.calls ++ [.checking (cacheKey host port)] }
  | .check i =>
      match s.calls[i]? with
      | some (.checking key) =>
          match cachedIp s.dnsEntries s.now key with
          | some ip => some (s.setCall i (.returned ip))
          | none => some (s.setCall i (.acquiring key))
      | _ => none
  | .acquire i =>
      match s.calls[i]? with
      | some (.acquiring key) =>
          if 0 < s.permits then some { s.setCall i (.rechecking key) with permits := s.permits - 1 } else none
      | _ => none
  | .recheck i =>
      match s.calls[i]? with
      | some (.rechecking key) =>
          match cachedIp s.dnsEntries s.now key with
          | some ip => some (s.finish i ip)
          | none => some (s.setCall i (.resolving key))
      | _ => none
  | .lookupHost i addrs =>
      match s.calls[i]? with
      | some (.resolving key) => some (s.setCall i (.inserting key (firstIp addrs)))
      | _ => none
  | .insert i later =>
      match s.calls[i]? with
      | some (.inserting key ip) =>
          if s.now ≤ later then
            some { s.finish i (orNone ip) with
              dnsEntries := insertDns settings s.now later key ip s.dnsEntries
              now := later }
          else none
      | _ => none
  | .elapse now => if s.now ≤ now then some { s with now } else none

section Moved
variable (settings : GeoSettings) (s : GeoCache)

inductive Moved : ResolveAct → GeoCache → Prop
  | resolveIp {host port} :
      Moved (.resolveIp host port) { s with calls := s.calls ++ [.checking (cacheKey host port)] }
  | hit {i key ip} : s.calls[i]? = some (.checking key) → cachedIp s.dnsEntries s.now key = some ip →
      Moved (.check i) (s.setCall i (.returned ip))
  | miss {i key} : s.calls[i]? = some (.checking key) → cachedIp s.dnsEntries s.now key = none →
      Moved (.check i) (s.setCall i (.acquiring key))
  | acquire {i key} : s.calls[i]? = some (.acquiring key) → 0 < s.permits →
      Moved (.acquire i) { s.setCall i (.rechecking key) with permits := s.permits - 1 }
  | resolved {i key ip} : s.calls[i]? = some (.rechecking key) → cachedIp s.dnsEntries s.now key = some ip →
      Moved (.recheck i) (s.finish i ip)
  | unresolved {i key} : s.calls[i]? = some (.rechecking key) → cachedIp s.dnsEntries s.now key = none →
      Moved (.recheck i) (s.setCall i (.resolving key))
  | lookupHost {i key addrs} : s.calls[i]? = some (.resolving key) →
      Moved (.lookupHost i addrs) (s.setCall i (.inserting key (firstIp addrs)))
  | insert {i later key ip} : s.calls[i]? = some (.inserting key ip) → s.now ≤ later →
      Moved (.insert i later) { s.finish i (orNone ip) with
        dnsEntries := insertDns settings s.now later key ip s.dnsEntries
        now := later }
  | elapse {now} : s.now ≤ now → Moved (.elapse now) { s with now }

end Moved

section Limit
variable {settings : GeoSettings} {s t : GeoCache} {a : ResolveAct}

theorem step_moved (h : s.step settings a = some t) : s.Moved settings a t := by
  cases a with
  | resolveIp host port =>
      cases h
      exact .resolveIp
  | check i =>
      simp only [step] at h
      split at h
      · rename_i checking
        split at h
        · rename_i cached
          cases h
          exact .hit checking cached
        · rename_i missing
          cases h
          exact .miss checking missing
      · cases h
  | acquire i =>
      simp only [step] at h
      split at h
      · rename_i acquiring
        split at h
        · rename_i left
          cases h
          exact .acquire acquiring left
        · cases h
      · cases h
  | recheck i =>
      simp only [step] at h
      split at h
      · rename_i rechecking
        split at h
        · rename_i cached
          cases h
          exact .resolved rechecking cached
        · rename_i missing
          cases h
          exact .unresolved rechecking missing
      · cases h
  | lookupHost i addrs =>
      simp only [step] at h
      split at h
      · rename_i resolving
        cases h
        exact .lookupHost resolving
      · cases h
  | insert i later =>
      simp only [step] at h
      split at h
      · rename_i inserting
        split at h
        · rename_i order
          cases h
          exact .insert inserting order
        · cases h
      · cases h
  | elapse now =>
      simp only [step] at h
      split at h
      · rename_i order
        cases h
        exact .elapse order
      · cases h

def WithinLimit (settings : GeoSettings) (s : GeoCache) : Prop := s.dnsEntries.len ≤ settings.dnsCacheMaxEntries

/-- When the cache is full at an insertion, an entry of it has expired or is the one that is replaced. -/
def HasRoom (settings : GeoSettings) (s : GeoCache) : ResolveAct → Prop
  | .insert i _ => ∀ key ip, s.calls[i]? = some (.inserting key ip) →
      settings.dnsCacheMaxEntries ≤ s.dnsEntries.len →
        ∃ e ∈ s.dnsEntries.entries, e.1 = key ∨ e.2.expiresAt ≤ s.now
  | _ => True

theorem len_insertDns_le_iff {cache : DnsEntries} (fits : cache.len ≤ settings.dnsCacheMaxEntries) {now later : ℚ}
    {key ip : String} : (insertDns settings now later key ip cache).len ≤ settings.dnsCacheMaxEntries ↔
      (settings.dnsCacheMaxEntries ≤ cache.len → ∃ e ∈ cache.entries, e.1 = key ∨ e.2.expiresAt ≤ now) := by
  rw [insertDns, evict]
  by_cases full : settings.dnsCacheMaxEntries ≤ cache.len
  · rw [if_pos full]
    by_cases expired : ∃ e ∈ cache.entries, e.2.expiresAt ≤ now
    · obtain ⟨e, member, old⟩ := expired
      have fewer : (cache.retain fun _ v => decide (now < v.expiresAt)).len < cache.len :=
        AList.len_retain_lt_iff.mpr ⟨e, member, decide_eq_false (not_lt.mpr old)⟩
      have most := AList.len_insert_le (cache.retain fun _ v => decide (now < v.expiresAt)) key
        ⟨ip, later + dnsTtl settings ip⟩
      exact ⟨fun _ _ => ⟨e, member, .inr old⟩, fun _ => by omega⟩
    · have live : ∀ e ∈ cache.entries, decide (now < e.2.expiresAt) = true :=
        fun e member => decide_eq_true (not_le.mp fun old => expired ⟨e, member, old⟩)
      rw [AList.retain_eq_self live]
      by_cases there : key ∈ cache
      · rw [AList.len_insert_of_mem there]
        obtain ⟨e, member, same⟩ := AList.mem_iff_entries.mp there
        exact ⟨fun _ _ => ⟨e, member, .inl same⟩, fun _ => fits⟩
      · rw [AList.len_insert_of_notMem there]
        refine ⟨fun more => by omega, fun room => ?_⟩
        obtain ⟨e, member, same | old⟩ := room full
        · exact absurd (AList.mem_iff_entries.mpr ⟨e, member, same⟩) there
        · exact absurd ⟨e, member, old⟩ expired
  · rw [if_neg full]
    have most := AList.len_insert_le cache key ⟨ip, later + dnsTtl settings ip⟩
    exact ⟨fun _ more => absurd more full, fun _ => by omega⟩

/-- From within the limit, a step goes beyond it just when there is no room for what it inserts. -/
theorem withinLimit_step_iff (within : s.WithinLimit settings) (h : s.step settings a = some t) :
    t.WithinLimit settings ↔ s.HasRoom settings a := by
  cases step_moved h with
  | @insert i later key ip inserting order =>
      refine (len_insertDns_le_iff within).trans ⟨fun room key' ip' here => ?_, fun room => room key ip inserting⟩
      cases inserting.symm.trans here
      exact room
  | _ => exact ⟨fun _ => trivial, fun _ => within⟩

end Limit

section Fill
variable (settings : GeoSettings) {s : GeoCache}

/-- The six steps of a call that runs alone, for a host that resolves to one address. -/
def lookupAlone (host : String) (port : UInt16) (i : Nat) (now : ℚ) : List ResolveAct :=
  [.resolveIp host port, .check i, .acquire i, .recheck i, .lookupHost i (some ["192.0.2.1"]), .insert i now]

theorem cachedIp_of_notMem {entries : DnsEntries} {key : String} (now : ℚ) (fresh : key ∉ entries) :
    cachedIp entries now key = none := by
  rw [cachedIp, AList.lookup_eq_none.mpr fresh]

/-- The call that came last goes on. -/
theorem setCall_last (calls : List ResolveIp) (call call' : ResolveIp) :
    (calls ++ [call]).set calls.length call' = calls ++ [call'] := by
  rw [List.set_append_right _ _ le_rfl, Nat.sub_self, List.set_cons_zero]

theorem run_lookupAlone (host : String) (port : UInt16) (free : 0 < s.permits)
    (fresh : cacheKey host port ∉ s.dnsEntries) :
    Run (ofFn (step settings)) s (lookupAlone host port s.calls.length s.now)
      { s with
        dnsEntries := insertDns settings s.now s.now (cacheKey host port) "192.0.2.1" s.dnsEntries
        calls := s.calls ++ [.returned (some "192.0.2.1")] } := by
  have missing := cachedIp_of_notMem s.now fresh
  have permits : s.permits - 1 + 1 = s.permits := Nat.sub_add_cancel free
  have found : orNone "192.0.2.1" = some "192.0.2.1" := if_neg (by decide)
  rw [run_ofFn_iff, lookupAlone]
  simp only [List.foldlM_cons, List.foldlM_nil, step, setCall, finish, List.getElem?_concat_length, setCall_last, missing,
    free, if_true, le_rfl, firstIp, Option.bind_eq_bind, Option.bind_some, Option.pure_def, permits, found]

theorem run_lookupAlone_room (host : String) (port : UInt16) (free : 0 < s.permits)
    (fresh : cacheKey host port ∉ s.dnsEntries)
    (room : settings.dnsCacheMaxEntries ≤ s.dnsEntries.len → ∃ e ∈ s.dnsEntries.entries, e.2.expiresAt ≤ s.now) :
    Run (Only (ofFn (step settings)) (HasRoom settings)) s (lookupAlone host port s.calls.length s.now)
      { s with
        dnsEntries := insertDns settings s.now s.now (cacheKey host port) "192.0.2.1" s.dnsEntries
        calls := s.calls ++ [.returned (some "192.0.2.1")] } := by
  have missing := cachedIp_of_notMem s.now fresh
  have run := run_lookupAlone settings host port free fresh
  rw [lookupAlone] at run ⊢
  obtain _ | ⟨begun, _ | ⟨checked, _ | ⟨acquired, _ | ⟨rechecked, _ | ⟨resolved, inserted⟩⟩⟩⟩⟩ := run
  refine .cons ⟨begun, trivial⟩ (.cons ⟨checked, trivial⟩ (.cons ⟨acquired, trivial⟩ (.cons ⟨rechecked, trivial⟩
    (.cons ⟨resolved, trivial⟩ ?_))))
  simp only [ofFn, step, Option.some.injEq] at begun
  subst begun
  simp only [ofFn, step, List.getElem?_concat_length, missing, setCall, setCall_last, Option.some.injEq] at checked
  subst checked
  simp only [ofFn, step, List.getElem?_concat_length, free, if_true, setCall, setCall_last, Option.some.injEq] at acquired
  subst acquired
  simp only [ofFn, step, List.getElem?_concat_length, missing, setCall, setCall_last, Option.some.injEq] at rechecked
  subst rechecked
  simp only [ofFn, step, List.getElem?_concat_length, setCall, setCall_last, Option.some.injEq] at resolved
  subst resolved
  obtain _ | ⟨inserted, ⟨⟩⟩ := inserted
  refine .single ⟨inserted, fun key ip _ full => ?_⟩
  obtain ⟨e, member, old⟩ := room full
  exact ⟨e, member, .inr old⟩

/-- What is live stays, however full the cache is. -/
theorem evict_live {now : ℚ} {cache : DnsEntries} (live : ∀ e ∈ cache.entries, now < e.2.expiresAt) :
    evict settings now cache = cache := by
  have kept : (cache.retain fun _ v => decide (now < v.expiresAt)) = cache :=
    AList.retain_eq_self fun e member => decide_eq_true (live e member)
  rw [evict, kept, ite_self]

def exampleHost (i : Nat) : String := toString i ++ ".example.com"

theorem cacheKey_exampleHost_inj {i j : Nat} {port : UInt16}
    (same : cacheKey (exampleHost i) port = cacheKey (exampleHost j) port) : i = j := by
  have text := congrArg String.toList same
  simp only [cacheKey, exampleHost, String.toList_append, List.append_cancel_right_eq] at text
  have digits : Nat.toDigits 10 i = Nat.toDigits 10 j := Nat.toList_repr.symm.trans (text.trans Nat.toList_repr)
  have value := congrArg (fun l => Nat.ofDigitChars 10 l 0) digits
  simpa only [Nat.ofDigitChars_ten_toDigits] using value

/-- Calls for different hosts, one after the other and all at one time. -/
def manyHosts (n : Nat) : List ResolveAct := (List.range n).flatMap fun i => lookupAlone (exampleHost i) 25565 i 0

theorem run_manyHosts (lasting : 0 < settings.dnsTtlSeconds) (concurrent : 0 < settings.dnsMaxConcurrency) (n : Nat) :
    ∃ s, Run (ofFn (step settings)) (new settings) (manyHosts n) s ∧
      (n ≤ settings.dnsCacheMaxEntries →
        Run (Only (ofFn (step settings)) (HasRoom settings)) (new settings) (manyHosts n) s) ∧
      s.permits = settings.dnsMaxConcurrency ∧ s.now = 0 ∧ s.calls.length = n ∧ s.dnsEntries.len = n ∧
      (∀ e ∈ s.dnsEntries.entries, e.2.expiresAt = settings.dnsTtlSeconds) ∧
      ∀ i, n ≤ i → cacheKey (exampleHost i) 25565 ∉ s.dnsEntries := by
  induction n with
  | zero =>
      exact ⟨_, .nil _, fun _ => .nil _, rfl, rfl, rfl, rfl, fun e none_ => (List.not_mem_nil none_).elim,
        fun i _ => AList.notMem_empty _⟩
  | succ n ih =>
      obtain ⟨s, run, room, permits, now, calls, len, expiry, others⟩ := ih
      have fresh := others n le_rfl
      have free : 0 < s.permits := permits ▸ concurrent
      have more := run_lookupAlone settings (exampleHost n) 25565 free fresh
      have live : ∀ e ∈ s.dnsEntries.entries, 0 < e.2.expiresAt :=
        fun e member => (expiry e member).symm ▸ Nat.cast_pos.mpr lasting
      have kept : evict settings 0 s.dnsEntries = s.dnsEntries := evict_live settings live
      have ttl : (0 : ℚ) + dnsTtl settings "192.0.2.1" = settings.dnsTtlSeconds := by
        rw [zero_add, dnsTtl, if_neg (by decide)]
      have longer : manyHosts (n + 1) = manyHosts n ++ lookupAlone (exampleHost n) 25565 n 0 := by
        rw [manyHosts, List.range_succ, List.flatMap_append, List.flatMap_singleton, manyHosts]
      rw [calls, now] at more
      rw [longer]
      refine ⟨_, run.append more, fun fits => ?_, permits, rfl, ?_, ?_, ?_, ?_⟩
      · have more := run_lookupAlone_room settings (exampleHost n) 25565 free fresh fun full => by omega
        rw [calls, now] at more
        exact (room (by omega)).append more
      · rw [List.length_append, calls, List.length_singleton]
      · rw [insertDns, kept, AList.len_insert_of_notMem fresh, len]
      · intro e member
        rw [insertDns, kept, AList.entries_insert_of_notMem fresh] at member
        rcases List.mem_cons.mp member with rfl | before
        · exact ttl
        · exact expiry e before
      · intro i later there
        rw [insertDns, kept, AList.mem_insert] at there
        rcases there with same | before
        · exact absurd (cacheKey_exampleHost_inj same) (by omega)
        · exact others i (by omega) before

end Fill

end GeoCache

/-- The cache stays within its limit during a run just when it has room for each insertion of the run. -/
theorem dns_cache_within_iff {settings : GeoSettings} {acts : List ResolveAct} {s : GeoCache}
    (run : Run (ofFn (GeoCache.step settings)) (.new settings) acts s) :
    (∀ past t, past <+: acts → Run (ofFn (GeoCache.step settings)) (.new settings) past t →
      t.dnsEntries.len ≤ settings.dnsCacheMaxEntries) ↔
      Run (Only (ofFn (GeoCache.step settings)) (GeoCache.HasRoom settings)) (.new settings) acts s :=
  run_ofFn_always_iff (P := GeoCache.WithinLimit settings)
    (fun _ _ _ within moved => GeoCache.withinLimit_step_iff within moved) run (Nat.zero_le _)

def sampleGeo : GeoSettings := ⟨600, 120, 100, 32⟩

/-- 100 hosts fill the cache; when they have expired, another one takes their place. -/
theorem dns_cache_within_expired :
    ∃ t s, Run (ofFn (GeoCache.step sampleGeo)) (.new sampleGeo) (GeoCache.manyHosts 100) t ∧
      t.dnsEntries.len = 100 ∧
      Run (ofFn (GeoCache.step sampleGeo)) t
        (.elapse 600 :: GeoCache.lookupAlone (GeoCache.exampleHost 100) 25565 100 600) s ∧
      s.dnsEntries.len ≤ 100 := by
  obtain ⟨t, _, room, permits, now, calls, len, expiry, others⟩ :=
    GeoCache.run_manyHosts sampleGeo (by decide) (by decide) 100
  have filled := room le_rfl
  have elapses : GeoCache.step sampleGeo t (.elapse 600) = some { t with now := 600 } :=
    if_pos (by rw [now]; decide)
  have another := GeoCache.run_lookupAlone_room sampleGeo (s := { t with now := 600 }) (GeoCache.exampleHost 100) 25565
    (by rw [permits]; decide) (others 100 le_rfl) fun _ => ?_
  · simp only [calls] at another
    have later := Run.cons ⟨elapses, trivial⟩ another
    have whole := filled.append later
    exact ⟨t, _, filled.unrestricted, len, later.unrestricted,
      (dns_cache_within_iff whole.unrestricted).mpr whole _ _ List.prefix_rfl whole.unrestricted⟩
  · obtain ⟨e, member⟩ : ∃ e, e ∈ t.dnsEntries.entries := by
      apply List.exists_mem_of_length_pos
      rw [← AList.len, len]
      decide
    exact ⟨e, member, (expiry e member).le⟩

/-- 101 hosts that are resolved within the time to live of the first make the cache larger than its limit of 100. -/
theorem dns_cache_overflows :
    ∃ s, Run (ofFn (GeoCache.step sampleGeo)) (.new sampleGeo) (GeoCache.manyHosts 101) s ∧
      sampleGeo.dnsCacheMaxEntries < s.dnsEntries.len := by
  obtain ⟨s, run, _, _, _, _, len, _⟩ := GeoCache.run_manyHosts sampleGeo (by decide) (by decide) 101
  exact ⟨s, run, by rw [len]; decide⟩

end ServerPoller
