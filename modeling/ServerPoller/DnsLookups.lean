import ServerPoller.DnsCache
import ServerPoller.Lib.Reachability
import ServerPoller.Lib.Slots

/-! Calls of `resolve_ip` at one time: the permits that they hold, where their answers come from and how old these
are, and how many of them ask for the same host. -/

namespace ServerPoller
open Transition Slots

def ResolveIp.holds : ResolveIp → Bool
  | .rechecking _ | .resolving _ | .inserting _ _ => true
  | .checking _ | .acquiring _ | .returned _ => false

/-- How many steps the call has before it. -/
def ResolveIp.rank : ResolveIp → Nat
  | .checking _ => 5
  | .acquiring _ => 4
  | .rechecking _ => 3
  | .resolving _ => 2
  | .inserting _ _ => 1
  | .returned _ => 0

def ResolveIp.key? : ResolveIp → Option String
  | .checking key | .acquiring key | .rechecking key | .resolving key | .inserting key _ => some key
  | .returned _ => none

theorem ResolveIp.rank_of_holds {call : ResolveIp} (h : call.holds = true) : 0 < call.rank ∧ call.rank ≠ 4 := by
  cases call with
  | rechecking | resolving | inserting => exact ⟨of_decide_eq_true rfl, of_decide_eq_true rfl⟩
  | checking | acquiring | returned => cases h

def ResolveAct.inner : ResolveAct → Bool
  | .resolveIp _ _ => false
  | _ => true

namespace GeoCache
variable {settings : GeoSettings} {s t u : GeoCache} {a : ResolveAct} {acts : List ResolveAct}

/-- A step adds a call, lets time pass, or brings one call closer to its end, with the permit that it takes or drops. -/
theorem moved_calls (moved : s.Moved settings a t) :
    (∃ key, a.inner = false ∧ t.calls = s.calls ++ [.checking key] ∧ t.permits = s.permits) ∨
      (t.calls = s.calls ∧ t.permits = s.permits) ∨
        ∃ i call call', s.calls[i]? = some call ∧ t.calls = s.calls.set i call' ∧ call'.rank < call.rank ∧
          t.permits + (if call'.holds then 1 else 0) = s.permits + (if call.holds then 1 else 0) := by
  cases moved with
  | resolveIp => exact .inl ⟨_, rfl, rfl, rfl⟩
  | elapse => exact .inr (.inl ⟨rfl, rfl⟩)
  | hit here => exact .inr (.inr ⟨_, _, _, here, rfl, of_decide_eq_true rfl, rfl⟩)
  | miss here => exact .inr (.inr ⟨_, _, _, here, rfl, of_decide_eq_true rfl, rfl⟩)
  | acquire here free => exact .inr (.inr ⟨_, _, _, here, rfl, of_decide_eq_true rfl, Nat.sub_add_cancel free⟩)
  | resolved here => exact .inr (.inr ⟨_, _, _, here, rfl, of_decide_eq_true rfl, rfl⟩)
  | unresolved here => exact .inr (.inr ⟨_, _, _, here, rfl, of_decide_eq_true rfl, rfl⟩)
  | lookupHost here => exact .inr (.inr ⟨_, _, _, here, rfl, of_decide_eq_true rfl, rfl⟩)
  | insert here => exact .inr (.inr ⟨_, _, _, here, rfl, of_decide_eq_true rfl, rfl⟩)

theorem Moved.call (moved : s.Moved settings a t) {i : Nat} {call : ResolveIp} (here : s.calls[i]? = some call) :
    ∃ call', t.calls[i]? = some call' ∧
      (call' = call ∨ call.key?.isSome ∧ (call'.key? = call.key? ∨ ∃ ip, call' = .returned ip)) := by
  have replaced : ∀ {j before after}, s.calls[j]? = some before → t.calls = s.calls.set j after →
      before.key?.isSome → (after.key? = before.key? ∨ ∃ ip, after = .returned ip) →
        ∃ call', t.calls[i]? = some call' ∧
          (call' = call ∨ call.key?.isSome ∧ (call'.key? = call.key? ∨ ∃ ip, call' = .returned ip)) := by
    intro j before after there calls unfinished goes
    rw [calls, getElem?_set_of_getElem? there]
    split
    · rename_i same
      subst same
      cases there.symm.trans here
      exact ⟨after, rfl, .inr ⟨unfinished, goes⟩⟩
    · exact ⟨call, here, .inl rfl⟩
  cases moved with
  | resolveIp =>
      refine ⟨call, ?_, .inl rfl⟩
      rw [List.getElem?_append_left (List.getElem?_eq_some_iff.mp here).1]
      exact here
  | elapse => exact ⟨call, here, .inl rfl⟩
  | hit there | resolved there | insert there => exact replaced there rfl rfl (.inr ⟨_, rfl⟩)
  | miss there | acquire there | unresolved there | lookupHost there => exact replaced there rfl rfl (.inl rfl)

/-- Every permit is either left or held by one call. -/
def Conserves (settings : GeoSettings) (s : GeoCache) : Prop :=
  s.permits + s.calls.countP ResolveIp.holds = settings.dnsMaxConcurrency

theorem Conserves.step (h : s.Conserves settings) (moved : s.Moved settings a t) : t.Conserves settings := by
  unfold Conserves at h ⊢
  rcases moved_calls moved with ⟨key, _, calls, permits⟩ | ⟨calls, permits⟩ | ⟨i, call, call', here, calls, _, permits⟩
  · rw [calls, permits, List.countP_append]
    exact h
  · rw [calls, permits, h]
  · have changed := countP_set_of_getElem? ResolveIp.holds (b := call') here
    rw [calls]
    omega

theorem Conserves.run (run : Run (ofFn (GeoCache.step settings)) (.new settings) acts s) : s.Conserves settings :=
  run.keeps (P := Conserves settings) (fun _ _ _ h moved => h.step (step_moved moved)) rfl

abbrev Inner (settings : GeoSettings) : GeoCache → ResolveAct → GeoCache → Prop :=
  Only (ofFn (GeoCache.step settings)) fun _ a => a.inner = true

def rank (s : GeoCache) : Nat := (s.calls.map ResolveIp.rank).sum

theorem call_steps {i : Nat} {call : ResolveIp} (here : s.calls[i]? = some call) (unfinished : 0 < call.rank)
    (permitted : call.rank = 4 → 0 < s.permits) :
    ∃ a t, Inner settings s a t ∧ t.calls.length = s.calls.length ∧ t.rank < s.rank := by
  have lowers : ∀ {t : GeoCache} {call' : ResolveIp}, t.calls = s.calls.set i call' → call'.rank < call.rank →
      t.calls.length = s.calls.length ∧ t.rank < s.rank := by
    intro t call' calls lower
    have changed := sum_map_set ResolveIp.rank (b := call') here
    rw [rank, rank, calls, List.length_set]
    omega
  cases call with
  | checking key =>
      cases found : cachedIp s.dnsEntries s.now key with
      | some ip =>
          refine ⟨.check i, s.setCall i (.returned ip), ⟨?_, rfl⟩, lowers rfl (of_decide_eq_true rfl)⟩
          simp only [ofFn, GeoCache.step, here, found]
      | none =>
          refine ⟨.check i, s.setCall i (.acquiring key), ⟨?_, rfl⟩, lowers rfl (of_decide_eq_true rfl)⟩
          simp only [ofFn, GeoCache.step, here, found]
  | acquiring key =>
      refine ⟨.acquire i, { s.setCall i (.rechecking key) with permits := s.permits - 1 }, ⟨?_, rfl⟩,
        lowers rfl (of_decide_eq_true rfl)⟩
      simp only [ofFn, GeoCache.step, here, permitted rfl, if_true]
  | rechecking key =>
      cases found : cachedIp s.dnsEntries s.now key with
      | some ip =>
          refine ⟨.recheck i, s.finish i ip, ⟨?_, rfl⟩, lowers rfl (of_decide_eq_true rfl)⟩
          simp only [ofFn, GeoCache.step, here, found]
      | none =>
          refine ⟨.recheck i, s.setCall i (.resolving key), ⟨?_, rfl⟩, lowers rfl (of_decide_eq_true rfl)⟩
          simp only [ofFn, GeoCache.step, here, found]
  | resolving key =>
      refine ⟨.lookupHost i none, s.setCall i (.inserting key (firstIp none)), ⟨?_, rfl⟩,
        lowers rfl (of_decide_eq_true rfl)⟩
      simp only [ofFn, GeoCache.step, here]
  | inserting key ip =>
      obtain ⟨t, taken⟩ : ∃ t, s.step settings (.insert i s.now) = some t := by
        simp only [GeoCache.step, here, le_rfl, if_true]
        exact ⟨_, rfl⟩
      refine ⟨_, t, ⟨taken, rfl⟩, ?_⟩
      cases step_moved taken with
      | insert here' =>
          cases here.symm.trans here'
          exact lowers rfl (of_decide_eq_true rfl)
  | returned ip => exact absurd unfinished (lt_irrefl 0)

/-- As long as the semaphore has a permit at all, a call that has not returned is not stuck: another one goes on. -/
theorem Conserves.progress (h : s.Conserves settings) (concurrent : 0 < settings.dnsMaxConcurrency) {i : Nat}
    {call : ResolveIp} (here : s.calls[i]? = some call) (unfinished : 0 < call.rank) :
    ∃ a t, Inner settings s a t ∧ t.calls.length = s.calls.length ∧ t.rank < s.rank := by
  by_cases free : 0 < s.permits
  · exact call_steps here unfinished fun _ => free
  · -- somebody has the permits, and goes on without one
    have held : 0 < s.calls.countP ResolveIp.holds := by
      unfold Conserves at h
      omega
    obtain ⟨other, member, holds⟩ := List.countP_pos_iff.mp held
    obtain ⟨j, there⟩ := List.mem_iff_getElem?.mp member
    obtain ⟨unfinished', permitted⟩ := ResolveIp.rank_of_holds holds
    exact call_steps there unfinished' fun waits => absurd waits permitted

end GeoCache

/-- In every run each permit of the semaphore is left or held by exactly one call, so that there are never more lookups
at one time than it has permits, and as long as it has any, every call can still return. -/
theorem dns_permits_conserved {settings : GeoSettings} {acts : List ResolveAct} {s : GeoCache}
    (run : Run (ofFn (GeoCache.step settings)) (.new settings) acts s) :
    s.permits + s.calls.countP ResolveIp.holds = settings.dnsMaxConcurrency ∧
      (0 < settings.dnsMaxConcurrency → ∀ i < s.calls.length,
        Reaches (GeoCache.Inner settings) s fun t => ∃ ip, t.calls[i]? = some (.returned ip)) := by
  have conserved := GeoCache.Conserves.run run
  refine ⟨conserved, fun concurrent i called => ?_⟩
  refine Reaches.of_rank (P := fun t => t.Conserves settings ∧ i < t.calls.length) GeoCache.rank (fun t inv => ?_)
    ⟨conserved, called⟩
  obtain ⟨conserves, called⟩ := inv
  cases here : t.calls[i] with
  | returned ip => exact .inl ⟨ip, (List.getElem?_eq_getElem called).trans (congrArg some here)⟩
  | checking | acquiring | rechecking | resolving | inserting =>
      have there := (List.getElem?_eq_getElem called).trans (congrArg some here)
      obtain ⟨a, u, moved, length, lower⟩ := conserves.progress concurrent there (of_decide_eq_true rfl)
      exact .inr ⟨a, u, moved, .inr ⟨⟨conserves.step (GeoCache.step_moved moved.1), length ▸ called⟩, lower⟩⟩

/-- Three calls at one time, of which one has a permit. -/
theorem dns_permits_conserved_three :
    ∃ s, [ResolveAct.resolveIp "a.example.com" 25565, .resolveIp "b.example.com" 25565, .resolveIp "a.example.com" 25565,
          .check 0, .check 1, .check 2, .acquire 1].foldlM (GeoCache.step sampleGeo) (.new sampleGeo) = some s ∧
      s.permits = 31 ∧ s.permits + s.calls.countP ResolveIp.holds = 32 ∧
      Reaches (GeoCache.Inner sampleGeo) s fun t => ∃ ip, t.calls[2]? = some (.returned ip) := by
  have run : Run (ofFn (GeoCache.step sampleGeo)) (.new sampleGeo)
    [.resolveIp "a.example.com" 25565, .resolveIp "b.example.com" 25565, .resolveIp "a.example.com" 25565,
      .check 0, .check 1, .check 2, .acquire 1] _ := run_ofFn_iff.mpr rfl
  obtain ⟨conserved, returns⟩ := dns_permits_conserved run
  exact ⟨_, run_ofFn_iff.mp run, rfl, conserved, returns (by decide) 2 (by decide)⟩

namespace GeoCache

/-- The host and port are looked up, and this is the text of the first address, or nothing. -/
def LooksUp (key text : String) (s : GeoCache) (a : ResolveAct) : Prop :=
  ∃ i addrs, a = .lookupHost i addrs ∧ s.calls[i]? = some (.resolving key) ∧ firstIp addrs = text

/-- The text is stored in the cache at this time. -/
def Stores (key text : String) (time : ℚ) (s : GeoCache) (a : ResolveAct) : Prop :=
  ∃ i, a = .insert i time ∧ s.calls[i]? = some (.inserting key text)

section Sources
variable {settings : GeoSettings} {s t : GeoCache} {a : ResolveAct} {known known' : String → String → Prop}
  {stored stored' : String → String → ℚ → Prop}

/-- What a call is about to insert is known of its key, and what the cache holds was stored under its key then. -/
structure Sourced (settings : GeoSettings) (known : String → String → Prop) (stored : String → String → ℚ → Prop)
    (s : GeoCache) : Prop where
  inserting : ∀ (i : Nat) (key text : String), s.calls[i]? = some (.inserting key text) → known key text
  entries : ∀ key entry, s.dnsEntries.lookup key = some entry → ∃ time,
    entry.expiresAt = time + dnsTtl settings entry.ip ∧ stored key entry.ip time

/-- What is known after a step, in terms of what was known before it. -/
structure Learns (known known' : String → String → Prop) (stored stored' : String → String → ℚ → Prop) (s : GeoCache)
    (a : ResolveAct) : Prop where
  keepsKnown : ∀ key text, known key text → known' key text
  keepsStored : ∀ key text time, stored key text time → stored' key text time
  looksUp : ∀ key text, LooksUp key text s a → known' key text
  stores : ∀ key text time, known key text → Stores key text time s a → stored' key text time

theorem new_sourced (settings : GeoSettings) (known : String → String → Prop)
    (stored : String → String → ℚ → Prop) : (new settings).Sourced settings known stored :=
  ⟨fun _ _ _ none_ => (nomatch none_), fun _ _ none_ => nomatch none_⟩

theorem evict_lookup {now : ℚ} {cache : DnsEntries} {key : String} {entry : DnsEntry}
    (found : (evict settings now cache).lookup key = some entry) : cache.lookup key = some entry := by
  unfold evict at found
  split at found
  · exact (AList.lookup_retain_eq_some.mp found).1
  · exact found

theorem Sourced.step (h : s.Sourced settings known stored) (learns : Learns known known' stored stored' s a)
    (moved : s.Moved settings a t) : t.Sourced settings known' stored' := by
  have entries : t.dnsEntries = s.dnsEntries → ∀ key entry, t.dnsEntries.lookup key = some entry → ∃ time,
      entry.expiresAt = time + dnsTtl settings entry.ip ∧ stored' key entry.ip time := by
    intro same key entry found
    rw [same] at found
    obtain ⟨time, expires, before⟩ := h.entries key entry found
    exact ⟨time, expires, learns.keepsStored _ _ _ before⟩
  -- a call that a step leaves somewhere else than before its insertion
  have others : ∀ {j call call'}, s.calls[j]? = some call → t.calls = s.calls.set j call' →
      call'.rank ≠ 1 → ∀ (i : Nat) (key text : String),
        t.calls[i]? = some (.inserting key text) → known' key text := by
    intro j call call' here calls other i key text there
    rw [calls, getElem?_set_of_getElem? here] at there
    split at there
    · exact absurd (congrArg ResolveIp.rank (Option.some.inj there)) other
    · exact learns.keepsKnown _ _ (h.inserting i key text there)
  cases moved with
  | resolveIp =>
      refine ⟨fun i key text there => ?_, entries rfl⟩
      rcases List.mem_append.mp (List.mem_of_getElem? there) with before | new_
      · obtain ⟨j, there'⟩ := List.mem_iff_getElem?.mp before
        exact learns.keepsKnown _ _ (h.inserting j key text there')
      · cases List.mem_singleton.mp new_
  | elapse => exact ⟨fun i key text there => learns.keepsKnown _ _ (h.inserting i key text there), entries rfl⟩
  | hit here | miss here | acquire here | resolved here | unresolved here =>
      exact ⟨others here rfl (of_decide_eq_true rfl), entries rfl⟩
  | @lookupHost j key addrs here =>
      refine ⟨fun i key' text there => ?_, entries rfl⟩
      rw [setCall, getElem?_set_of_getElem? here] at there
      split at there
      · cases there
        exact learns.looksUp _ _ ⟨j, addrs, rfl, here, rfl⟩
      · exact learns.keepsKnown _ _ (h.inserting i key' text there)
  | @insert j later key text here order =>
      refine ⟨others here rfl (of_decide_eq_true rfl), fun key' entry found => ?_⟩
      rcases AList.lookup_insert_eq_some.mp found with ⟨rfl, rfl⟩ | ⟨_, before⟩
      · exact ⟨later, rfl, learns.stores _ _ _ (h.inserting j _ _ here) ⟨j, rfl, here⟩⟩
      · obtain ⟨time, expires, earlier⟩ := h.entries key' entry (evict_lookup before)
        exact ⟨time, expires, learns.keepsStored _ _ _ earlier⟩

theorem cachedIp_eq_some {cache : DnsEntries} {now : ℚ} {key : String} {ip : Option String}
    (h : cachedIp cache now key = some ip) :
    ∃ entry, cache.lookup key = some entry ∧ now < entry.expiresAt ∧ orNone entry.ip = ip := by
  unfold cachedIp at h
  split at h
  · rename_i entry found
    split at h
    · rename_i live
      exact ⟨entry, found, live, Option.some.inj h⟩
    · cases h
  · cases h

theorem dnsTtl_nonneg (settings : GeoSettings) (ip : String) : 0 ≤ dnsTtl settings ip := by
  unfold dnsTtl
  split
  · exact Nat.cast_nonneg _
  · exact Nat.cast_nonneg _

theorem Sourced.returns (h : s.Sourced settings known stored) (learns : Learns known known' stored stored' s a)
    (moved : s.Moved settings a t) {i : Nat} {call : ResolveIp} {key : String} {ip : Option String}
    (before : s.calls[i]? = some call) (asks : call.key? = some key) (after : t.calls[i]? = some (.returned ip)) :
    ∃ text time, ip = orNone text ∧ t.now ≤ time + dnsTtl settings text ∧ stored' key text time := by
  have unreturned : s.calls[i]? ≠ some (.returned ip) := by
    intro returned
    cases before.symm.trans returned
    cases asks
  -- the call is the one that the step is about
  have mine : ∀ {j call' call''}, s.calls[j]? = some call' → t.calls = s.calls.set j call'' →
      call = call' ∧ call'' = .returned ip := by
    intro j call' call'' here calls
    rw [calls, getElem?_set_of_getElem? here] at after
    split at after
    · rename_i same
      subst same
      exact ⟨Option.some.inj (before.symm.trans here), Option.some.inj after⟩
    · exact absurd after unreturned
  have cached : ∀ {ip'}, cachedIp s.dnsEntries s.now key = some ip' → ip' = ip → t.now = s.now →
      ∃ text time, ip = orNone text ∧ t.now ≤ time + dnsTtl settings text ∧ stored' key text time := by
    rintro ip' hit rfl same
    obtain ⟨entry, found, live, rfl⟩ := cachedIp_eq_some hit
    obtain ⟨time, expires, earlier⟩ := h.entries key entry found
    exact ⟨entry.ip, time, rfl, same ▸ expires ▸ live.le, learns.keepsStored _ _ _ earlier⟩
  cases moved with
  | resolveIp =>
      rw [List.getElem?_append_left (List.getElem?_eq_some_iff.mp before).1] at after
      exact absurd after unreturned
  | elapse => exact absurd after unreturned
  | hit here found | resolved here found =>
      obtain ⟨rfl, answer⟩ := mine here rfl
      cases asks
      exact cached found (ResolveIp.returned.inj answer) rfl
  | miss here | acquire here | unresolved here | lookupHost here => cases (mine here rfl).2
  | @insert j later key' text here order =>
      obtain ⟨rfl, answer⟩ := mine here rfl
      cases asks
      refine ⟨text, later, (ResolveIp.returned.inj answer).symm, ?_,
        learns.stores _ _ _ (h.inserting j _ _ here) ⟨j, rfl, here⟩⟩
      exact le_add_of_nonneg_right (dnsTtl_nonneg settings text)

variable {acts : List ResolveAct}

abbrev Looked (settings : GeoSettings) (acts : List ResolveAct) (s : GeoCache) (key text : String) : Prop :=
  InOrder (ofFn (GeoCache.step settings)) [LooksUp key text] (.new settings) acts s

abbrev Stored (settings : GeoSettings) (acts : List ResolveAct) (s : GeoCache) (key text : String) (time : ℚ) : Prop :=
  InOrder (ofFn (GeoCache.step settings)) [LooksUp key text, Stores key text time] (.new settings) acts s

theorem learns_step (run : Run (ofFn (GeoCache.step settings)) (.new settings) acts s)
    (moved : s.step settings a = some t) :
    Learns (Looked settings acts s) (Looked settings (acts ++ [a]) t) (Stored settings acts s)
      (Stored settings (acts ++ [a]) t) s a where
  keepsKnown _ _ before := before.append moved
  keepsStored _ _ _ before := before.append moved
  looksUp _ _ here := (InOrder.last (show InOrder _ [] _ _ _ from run) here moved)
  stores _ _ _ before here := before.last here moved

theorem Sourced.run (run : Run (ofFn (GeoCache.step settings)) (.new settings) acts s) :
    s.Sourced settings (Looked settings acts s) (Stored settings acts s) := by
  have both := run.keeps_history (P := fun acts s => Run (ofFn (GeoCache.step settings)) (.new settings) acts s ∧
      s.Sourced settings (Looked settings acts s) (Stored settings acts s))
    (fun _ _ _ _ h moved => ⟨h.1.append (.single moved), h.2.step (learns_step h.1 moved) (step_moved moved)⟩)
    ⟨.nil _, new_sourced settings _ _⟩
  exact both.2

end Sources

end GeoCache

/-- What a call of `resolve_ip` returns is what a lookup of the same host and port has given, the text of its first
address or nothing where it failed or gave none, and it was stored after that, no longer ago than the time to live of
such a text. -/
theorem dns_answers_fresh {settings : GeoSettings} {acts : List ResolveAct} {s t : GeoCache} {a : ResolveAct}
    (run : Run (ofFn (GeoCache.step settings)) (.new settings) acts s) (moved : s.step settings a = some t) {i : Nat}
    {call : ResolveIp} {key : String} {ip : Option String} (before : s.calls[i]? = some call)
    (asks : call.key? = some key) (after : t.calls[i]? = some (.returned ip)) :
    ∃ text time, ip = orNone text ∧ t.now ≤ time + dnsTtl settings text ∧
      InOrder (ofFn (GeoCache.step settings)) [GeoCache.LooksUp key text, GeoCache.Stores key text time] (.new settings)
        (acts ++ [a]) t :=
  (GeoCache.Sourced.run run).returns (GeoCache.learns_step run moved) (GeoCache.step_moved moved) before asks after

def askedTwice : List ResolveAct :=
  GeoCache.lookupAlone "mc.example.com" 25565 0 0 ++ [.elapse 599, .resolveIp "mc.example.com" 25565]

/-- The second call is answered from the cache. -/
theorem dns_answers_fresh_askedTwice :
    ∃ s t, Run (ofFn (GeoCache.step sampleGeo)) (.new sampleGeo) askedTwice s ∧
      s.step sampleGeo (.check 1) = some t ∧ t.calls[1]? = some (.returned (some "192.0.2.1")) ∧
      ∃ text time, some "192.0.2.1" = orNone text ∧ t.now ≤ time + dnsTtl sampleGeo text := by
  have scenario : (askedTwice.foldlM (GeoCache.step sampleGeo) (.new sampleGeo)).any (fun s =>
      decide (s.calls[1]? = some (.checking "mc.example.com:25565")) &&
        (s.step sampleGeo (.check 1)).any fun t =>
          decide (t.calls[1]? = some (.returned (some "192.0.2.1")))) = true := by decide +kernel
  obtain ⟨s, reached, inner⟩ := (Option.any_eq_true _ _).mp scenario
  obtain ⟨before, inner⟩ := Bool.and_eq_true_iff.mp inner
  obtain ⟨t, moved, after⟩ := (Option.any_eq_true _ _).mp inner
  have run := run_ofFn_iff.mpr reached
  obtain ⟨text, time, answer, fresh, _⟩ :=
    dns_answers_fresh run moved (of_decide_eq_true before) rfl (of_decide_eq_true after)
  exact ⟨s, t, run, moved, of_decide_eq_true after, text, time, answer, fresh⟩

namespace GeoCache

def begins (key : String) (s : GeoCache) : ResolveAct → Bool
  | .recheck i => decide (s.calls[i]? = some (.rechecking key)) && (cachedIp s.dnsEntries s.now key).isNone
  | _ => false

/-- The call looks this host and port up, or has done so and not stored what it got. -/
def looksUp (key : String) : ResolveIp → Bool
  | .resolving key' | .inserting key' _ => decide (key' = key)
  | .checking _ | .acquiring _ | .rechecking _ | .returned _ => false

section Herd
variable {settings : GeoSettings} {s t : GeoCache} {a : ResolveAct} {acts : List ResolveAct} {key : String} {until_ : ℚ}
  {n : Nat}

/-- What has been begun is still under way, or something is stored that lives long enough. -/
def Bounded (settings : GeoSettings) (key : String) (until_ : ℚ) (n : Nat) (s : GeoCache) : Prop :=
  n ≤ s.calls.countP (looksUp key) ∨
    n ≤ settings.dnsMaxConcurrency ∧ ∃ entry, s.dnsEntries.lookup key = some entry ∧ until_ ≤ entry.expiresAt

theorem countP_looksUp_le (h : s.Conserves settings) : s.calls.countP (looksUp key) ≤ settings.dnsMaxConcurrency := by
  have fewer : s.calls.countP (looksUp key) ≤ s.calls.countP ResolveIp.holds := by
    apply List.countP_mono_left
    intro call _ looks
    cases call with
    | resolving | inserting => rfl
    | checking | acquiring | rechecking | returned => cases looks
  unfold Conserves at h
  omega

theorem Bounded.le (bounded : s.Bounded settings key until_ n) (h : s.Conserves settings) :
    n ≤ settings.dnsMaxConcurrency :=
  bounded.elim (fun under => under.trans (countP_looksUp_le h)) And.left

theorem evict_lookup_live {now : ℚ} {cache : DnsEntries} {entry : DnsEntry} (found : cache.lookup key = some entry)
    (live : now < entry.expiresAt) : (evict settings now cache).lookup key = some entry := by
  unfold evict
  split
  · exact AList.lookup_retain_eq_some.mpr ⟨found, decide_eq_true live⟩
  · exact found

/-- Either a step begins a lookup, of which there is one more under way then, or it leaves the bound as it is. -/
theorem Bounded.step (bounded : s.Bounded settings key until_ n) (h : s.Conserves settings)
    (early : s.now < until_) (longer : ∀ text, until_ ≤ s.now + dnsTtl settings text)
    (moved : s.step settings a = some t) :
    t.Bounded settings key until_ (n + if s.begins key a then 1 else 0) := by
  have counted : ∀ {j call call'}, s.calls[j]? = some call → t.calls = s.calls.set j call' →
      t.calls.countP (looksUp key) + (if looksUp key call then 1 else 0) =
        s.calls.countP (looksUp key) + (if looksUp key call' then 1 else 0) := by
    intro j call call' here calls
    rw [calls]
    exact countP_set_of_getElem? _ here
  -- a step that begins no lookup, ends none and stores nothing
  have keeps : s.begins key a = false → t.calls.countP (looksUp key) = s.calls.countP (looksUp key) →
      t.dnsEntries = s.dnsEntries → t.Bounded settings key until_ (n + if s.begins key a then 1 else 0) := by
    intro other same entries
    rw [other, if_neg Bool.false_ne_true, Nat.add_zero, Bounded, same, entries]
    exact bounded
  cases step_moved moved with
  | resolveIp => exact keeps rfl (by rw [List.countP_append]; rfl) rfl
  | elapse => exact keeps rfl rfl rfl
  | hit here | miss here | acquire here => exact keeps rfl (counted here rfl) rfl
  | @lookupHost j key' addrs here =>
      have same := counted here rfl
      exact keeps rfl (Nat.add_right_cancel same) rfl
  | @resolved i key' ip here found =>
      refine keeps ?_ (counted here rfl) rfl
      by_cases same : key' = key
      · subst same
        simp [begins, found]
      · simp [begins, here, same]
  | @unresolved i key' here missing =>
      by_cases same : key' = key
      · subst same
        have one_more := counted here rfl
        simp only [looksUp, decide_true, if_true, Bool.false_eq_true, if_false, Nat.add_zero] at one_more
        have begun : s.begins key' (.recheck i) = true := by simp [begins, here, missing]
        rw [begun, if_pos rfl]
        rcases bounded with under | ⟨_, entry, found, lives⟩
        · exact .inl (one_more ▸ Nat.succ_le_succ under)
        · simp [cachedIp, found, lt_of_lt_of_le early lives] at missing
      · refine keeps (by simp [begins, here, same]) ?_ rfl
        have same_count := counted here rfl
        simpa only [looksUp, same, decide_false, Bool.false_eq_true, if_false, Nat.add_zero] using same_count
  | @insert i later key' text here order =>
      have other : s.begins key (.insert i later) = false := rfl
      rw [other, if_neg Bool.false_ne_true, Nat.add_zero]
      by_cases same : key = key'
      · subst same
        refine .inr ⟨bounded.le h, _, AList.lookup_insert _, (longer text).trans ?_⟩
        exact add_le_add_left order _
      · have same_count := counted here rfl
        simp only [looksUp, Ne.symm same, decide_false, Bool.false_eq_true, if_false, Nat.add_zero] at same_count
        rcases bounded with under | ⟨most, entry, found, lives⟩
        · exact .inl (same_count ▸ under)
        · refine .inr ⟨most, entry, (AList.lookup_insert_ne same).trans ?_, lives⟩
          exact evict_lookup_live found (lt_of_lt_of_le early lives)

theorem step_now_le (moved : s.step settings a = some t) : s.now ≤ t.now := by
  cases step_moved moved with
  | insert _ order => exact order
  | elapse order => exact order
  | _ => exact le_rfl

theorem Bounded.run (run : Run (ofFn (GeoCache.step settings)) s acts t) {start : ℚ} (since : start ≤ s.now)
    (short : t.now < until_) (longer : ∀ text, until_ ≤ start + dnsTtl settings text) (h : s.Conserves settings)
    (bounded : s.Bounded settings key until_ n) :
    n + tally (GeoCache.step settings) (begins key) s acts ≤ settings.dnsMaxConcurrency := by
  induction run generalizing n with
  | nil s => exact bounded.le h
  | @cons s u t a acts first rest ih =>
      have order : s.now ≤ t.now :=
        (step_now_le first).trans (rest.monotone GeoCache.now fun _ _ _ moved => step_now_le moved)
      have here := bounded.step h (lt_of_le_of_lt order short)
        (fun text => (longer text).trans (add_le_add_left since _)) first
      have tail := ih (since.trans (step_now_le first)) short (h.step (step_moved first)) here
      rw [tally_cons first]
      omega

end Herd

end GeoCache

/-- In a stretch of a run that is shorter than both times to live no more lookups of one host and port begin than the
semaphore has permits, however many calls ask for it. -/
theorem dns_lookups_bounded {settings : GeoSettings} {past acts : List ResolveAct} {s t : GeoCache}
    (before : Run (ofFn (GeoCache.step settings)) (.new settings) past s)
    (run : Run (ofFn (GeoCache.step settings)) s acts t)
    (short : t.now < s.now + (min settings.dnsTtlSeconds settings.dnsRetrySeconds : ℕ)) (key : String) :
    tally (GeoCache.step settings) (GeoCache.begins key) s acts ≤ settings.dnsMaxConcurrency := by
  have longer : ∀ text, s.now + (min settings.dnsTtlSeconds settings.dnsRetrySeconds : ℕ) ≤
      s.now + dnsTtl settings text := by
    intro text
    refine add_le_add_right ?_ _
    unfold dnsTtl
    split
    · exact Nat.cast_le.mpr (min_le_right _ _)
    · exact Nat.cast_le.mpr (min_le_left _ _)
  have bounded : 0 + tally (GeoCache.step settings) (GeoCache.begins key) s acts ≤ settings.dnsMaxConcurrency :=
    GeoCache.Bounded.run run le_rfl short longer (GeoCache.Conserves.run before) (.inl (Nat.zero_le _))
  rwa [Nat.zero_add] at bounded

def askedAtOnce : List ResolveAct := [
  .resolveIp "mc.example.com" 25565, .resolveIp "mc.example.com" 25565, .resolveIp "mc.example.com" 25565,
  .check 0, .check 1, .check 2, .acquire 0, .acquire 1, .recheck 0, .recheck 1, .lookupHost 0 (some ["192.0.2.1"]),
  .insert 0 30, .acquire 2, .recheck 2, .elapse 60]

theorem dns_lookups_bounded_askedAtOnce :
    ∃ t, Run (ofFn (GeoCache.step sampleGeo)) (.new sampleGeo) askedAtOnce t ∧
      tally (GeoCache.step sampleGeo) (GeoCache.begins "mc.example.com:25565") (.new sampleGeo) askedAtOnce = 2 ∧
      tally (GeoCache.step sampleGeo) (GeoCache.begins "mc.example.com:25565") (.new sampleGeo) askedAtOnce ≤ 32 := by
  have scenario : (askedAtOnce.foldlM (GeoCache.step sampleGeo) (.new sampleGeo)).any (fun t =>
      decide (t.now < (0 : ℚ) + ((min 600 120 : ℕ) : ℚ))) = true := by decide +kernel
  obtain ⟨t, reached, short⟩ := (Option.any_eq_true _ _).mp scenario
  have run := run_ofFn_iff.mpr reached
  exact ⟨t, run, by decide +kernel, dns_lookups_bounded (.nil _) run (of_decide_eq_true short) _⟩

end ServerPoller
