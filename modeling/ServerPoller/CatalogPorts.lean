import ServerPoller.Lib.Decimals
import ServerPoller.Models

/-! Ports in the catalog may be numbers or texts. `resolve_state_ports` parses a text as a port, and keeps the low
16 bits of a number that fits in 64. -/

namespace Json

/-- The numbers that `serde_json` may hold an integer as. -/
inductive Number.Denotes : Number → Int → Prop
  | posInt (m : UInt64) : Denotes (.posInt m) m.toNat
  | negInt {m : Int64} : m.toInt < 0 → Denotes (.negInt m) m.toInt
  | float (text : String) {n : Int} : n < -2 ^ 63 ∨ 2 ^ 64 ≤ n → Denotes (.float text) n

theorem Number.Denotes.asU64 {num : Number} {n : Int} (h : num.Denotes n) :
    num.asU64.map UInt64.toUInt16 = if 0 ≤ n ∧ n < 2 ^ 64 then some (UInt16.ofNat n.toNat) else none := by
  cases h with
  | posInt m =>
      have fits : (m.toNat : Int) < 2 ^ 64 := by
        have bound := m.toNat_lt
        omega
      rw [if_pos ⟨Int.natCast_nonneg _, fits⟩]
      rfl
  | negInt negative =>
      rw [if_neg fun fits => not_lt.mpr fits.1 negative]
      rfl
  | float text outside =>
      rw [if_neg (by omega)]
      rfl

end Json

namespace ServerPoller
open Json RustText

inductive PortKey where
  | pingPort
  | bedrockPort
  deriving DecidableEq, Repr

def PortKey.name : PortKey → String
  | .pingPort => "ping_port"
  | .bedrockPort => "bedrock_port"

def PortKey.other : PortKey → PortKey
  | .pingPort => .bedrockPort
  | .bedrockPort => .pingPort

def withPort (fields : List (String × Value)) (key : PortKey) (v : Value) : Value :=
  .object (Value.insertField key.name v fields)

/-- A field value that is a port: the text of one, or the number. -/
inductive NamesPort : Value → UInt16 → Prop
  | number {m : UInt64} {p : UInt16} : m.toNat = p.toNat → NamesPort (.number (.posInt m)) p
  | text {s : String} {p : UInt16} : parseU16 s = some p → NamesPort (.string s) p

/-- The numbers that do not fit in 16 bits and are truncated. -/
def Truncated (n : Int) : Prop := 2 ^ 16 ≤ n ∧ n < 2 ^ 64

section Fields
variable (fields : List (String × Value))

def FieldNames (field : String) (p : UInt16) : Prop := ∃ v, fields.lookup field = some v ∧ NamesPort v p

def FieldTruncated (field : String) (p : UInt16) : Prop :=
  ∃ m : UInt64, fields.lookup field = some (.number (.posInt m)) ∧ Truncated m.toNat ∧ m.toUInt16 = p

/-- A ping port that is left to SRV records. -/
def LeftToSrv (edition : Edition) (pp : UInt16) (host : String) : Prop :=
  edition ≠ .bedrock ∧ pp = javaDefaultPort ∧ isIpAddr host = false

variable (parsedPort : Option UInt16) (edition : Edition)

def AddressPort (p : UInt16) : Prop :=
  parsedPort = some p ∨ (edition = .bedrock ∧ parsedPort = none ∧ FieldNames fields "bedrock_port" p)

/-- A field that may give the port that is polled: the one for Bedrock only to a Bedrock server without a port
in its address. -/
def PortKey.Polled (key : PortKey) : Prop := key = .bedrockPort → edition = .bedrock ∧ parsedPort = none

/-- Neither field is a truncated number, unless it is the ping port and makes no difference: it is left to SRV
records, or the same port is polled without it. -/
structure PortKey.Harmless (key : PortKey) (n : Int) (host : String) : Prop where
  own : Truncated n → key = .pingPort ∧
    (LeftToSrv edition (UInt16.ofNat n.toNat) host ∨ AddressPort fields parsedPort edition (UInt16.ofNat n.toNat))
  other : ∀ p, FieldTruncated fields key.other.name p → key = .bedrockPort ∧
    (LeftToSrv edition p host ∨ parsedPort = some p ∨
      (edition = .bedrock ∧ parsedPort = none ∧ (p.toNat : Int) = n))

/-- Every port comes from the address, is the integer of this field, or is the port in the other field. -/
structure Traced (key : PortKey) (n : Int) (ports : Option UInt16 × Option UInt16) : Prop where
  port : ∀ p, ports.1 = some p → parsedPort = some p ∨ (key.Polled parsedPort edition ∧ (p.toNat : Int) = n) ∨
    (key.other.Polled parsedPort edition ∧ FieldNames fields key.other.name p)
  bedrockPort : ∀ p, ports.2 = some p → (key = .bedrockPort ∧ (p.toNat : Int) = n) ∨
    (key = .pingPort ∧ FieldNames fields "bedrock_port" p)

end Fields

theorem portField_eq_some_iff {fields : List (String × Value)} {field : String} {p : UInt16} :
    portField (.object fields) field = some p ↔ FieldNames fields field p ∨ FieldTruncated fields field p := by
  unfold portField
  constructor
  · intro h
    cases there : fields.lookup field with
    | none =>
        rw [Value.get, there] at h
        cases h
    | some v =>
        rw [Value.get, there] at h
        cases v with
        | number num =>
            cases num with
            | posInt m =>
                cases h
                by_cases port : m.toNat < 2 ^ 16
                · exact .inl ⟨_, there, .number (Nat.mod_eq_of_lt port).symm⟩
                · refine .inr ⟨m, there, ?_, rfl⟩
                  have bound := m.toNat_lt
                  unfold Truncated
                  omega
            | negInt m => cases h
            | float text => cases h
        | string s => exact .inl ⟨_, there, .text h⟩
        | null => cases h
        | bool b => cases h
        | array items => cases h
        | object fields => cases h
  · rintro (⟨v, there, named⟩ | ⟨m, there, _, rfl⟩)
    · rw [Value.get, there]
      cases named with
      | @number m _ same =>
          refine congrArg some (UInt16.toNat_inj.mp ?_)
          rw [UInt64.toNat_toUInt16, same]
          exact Nat.mod_eq_of_lt p.toNat_lt
      | text parsed => exact parsed
    · rw [Value.get, there]
      rfl

theorem FieldTruncated.not_named {fields : List (String × Value)} {field : String} {p q : UInt16}
    (h : FieldTruncated fields field p) : ¬FieldNames fields field q := by
  obtain ⟨m, there, truncated, _⟩ := h
  rintro ⟨v, there', named⟩
  cases there.symm.trans there'
  cases named with
  | number same =>
      have bound := q.toNat_lt
      unfold Truncated at truncated
      omega

theorem portField_withPort (fields : List (String × Value)) (key : PortKey) (v : Value) :
    portField (withPort fields key v) key.name = portField (.object [(key.name, v)]) key.name := by
  have written : (withPort fields key v).get key.name = (Value.object [(key.name, v)]).get key.name := by
    simp [withPort, Value.get, Value.lookup_insertField]
  rw [portField, portField, written]

theorem portField_withPort_other (fields : List (String × Value)) (key : PortKey) (v : Value) :
    portField (withPort fields key v) key.other.name = portField (.object fields) key.other.name := by
  have apart : key.other.name ≠ key.name := by cases key <;> decide
  have kept : (withPort fields key v).get key.other.name = (Value.object fields).get key.other.name := by
    simp [withPort, Value.get, Value.lookup_insertField, apart]
  rw [portField, portField, kept]

theorem portField_text (fields : List (String × Value)) (key : PortKey) (n : Int) :
    portField (withPort fields key (.string (toString n))) key.name =
      if 0 ≤ n ∧ n < 2 ^ 16 then some (UInt16.ofNat n.toNat) else none := by
  rw [portField_withPort, ← parseU16_toString]
  simp [portField, Value.get]

theorem portField_number (fields : List (String × Value)) (key : PortKey) {num : Number} {n : Int}
    (denotes : num.Denotes n) : portField (withPort fields key (.number num)) key.name =
      if 0 ≤ n ∧ n < 2 ^ 64 then some (UInt16.ofNat n.toNat) else none := by
  rw [portField_withPort, ← denotes.asU64]
  simp [portField, Value.get]

theorem portField_eq_of_not_truncated (fields : List (String × Value)) (key : PortKey) {num : Number} {n : Int}
    (denotes : num.Denotes n) (whole : ¬Truncated n) : portField (withPort fields key (.number num)) key.name =
      portField (withPort fields key (.string (toString n))) key.name := by
  have same : (0 ≤ n ∧ n < 2 ^ 64) ↔ 0 ≤ n ∧ n < 2 ^ 16 := by
    unfold Truncated at whole
    omega
  rw [portField_number fields key denotes, portField_text]
  exact if_congr same rfl rfl

theorem portField_truncated (fields : List (String × Value)) (key : PortKey) {num : Number} {n : Int}
    (denotes : num.Denotes n) (truncated : Truncated n) :
    portField (withPort fields key (.number num)) key.name = some (UInt16.ofNat n.toNat) ∧
      portField (withPort fields key (.string (toString n))) key.name = none := by
  have positive : 0 ≤ n := le_trans (by decide) truncated.1
  rw [portField_number fields key denotes, portField_text, if_pos ⟨positive, truncated.2⟩,
    if_neg fun port => not_lt.mpr truncated.1 port.2]
  exact ⟨rfl, rfl⟩

/-- `resolve_state_ports` after the two fields are read. -/
def portsFrom (pingPort bedrockPort : Option UInt16) (host : String) (parsedPort : Option UInt16) (edition : Edition) :
    Option UInt16 × Option UInt16 :=
  let port := match pingPort with
    | some pp => if edition ≠ .bedrock ∧ pp = javaDefaultPort ∧ isIpAddr host = false then parsedPort else some pp
    | none => parsedPort
  (if edition = .bedrock ∧ port = none then bedrockPort else port, bedrockPort)

theorem resolveStatePorts_eq (server : Value) (host : String) (parsedPort : Option UInt16) (edition : Edition) :
    resolveStatePorts server host parsedPort edition =
      portsFrom (portField server "ping_port") (portField server "bedrock_port") host parsedPort edition := rfl

section Ports
variable {pingPort bedrockPort : Option UInt16} {host : String} {parsedPort : Option UInt16} {edition : Edition}

theorem portsFrom_none : (portsFrom none bedrockPort host parsedPort edition).1 =
    if edition = .bedrock ∧ parsedPort = none then bedrockPort else parsedPort := rfl

theorem portsFrom_ignored {pp : UInt16} (ignored : LeftToSrv edition pp host) :
    portsFrom (some pp) bedrockPort host parsedPort edition = portsFrom none bedrockPort host parsedPort edition := by
  unfold LeftToSrv at ignored
  simp only [portsFrom, if_pos ignored]

theorem portsFrom_polled {pp : UInt16} (polled : ¬LeftToSrv edition pp host) :
    portsFrom (some pp) bedrockPort host parsedPort edition = (some pp, bedrockPort) := by
  unfold LeftToSrv at polled
  simp only [portsFrom, if_neg polled, reduceCtorEq, and_false, if_false]

theorem portsFrom_source {p : UInt16} (h : (portsFrom pingPort bedrockPort host parsedPort edition).1 = some p) :
    parsedPort = some p ∨ (pingPort = some p ∧ ¬LeftToSrv edition p host) ∨
      ((edition = .bedrock ∧ parsedPort = none) ∧ bedrockPort = some p) := by
  have unset (h : (portsFrom none bedrockPort host parsedPort edition).1 = some p) :
      parsedPort = some p ∨ ((edition = .bedrock ∧ parsedPort = none) ∧ bedrockPort = some p) := by
    rw [portsFrom_none] at h
    split at h
    · exact .inr ⟨‹_›, h⟩
    · exact .inl h
  cases pingPort with
  | none => exact (unset h).imp_right .inr
  | some pp =>
      by_cases ignored : LeftToSrv edition pp host
      · rw [portsFrom_ignored ignored] at h
        exact (unset h).imp_right .inr
      · rw [portsFrom_polled ignored] at h
        cases h
        exact .inr (.inl ⟨rfl, ignored⟩)

/-- A ping port makes no difference where it is left to SRV records or is the port that is polled anyway. -/
theorem portsFrom_some_iff {pp : UInt16} :
    portsFrom (some pp) bedrockPort host parsedPort edition = portsFrom none bedrockPort host parsedPort edition ↔
      LeftToSrv edition pp host ∨
        parsedPort = some pp ∨ (edition = .bedrock ∧ parsedPort = none ∧ bedrockPort = some pp) := by
  by_cases ignored : LeftToSrv edition pp host
  · exact iff_of_true (portsFrom_ignored ignored) (.inl ignored)
  · have second : (portsFrom none bedrockPort host parsedPort edition).2 = bedrockPort := rfl
    rw [portsFrom_polled ignored, Prod.ext_iff, second, portsFrom_none, or_iff_right ignored]
    by_cases unset : edition = .bedrock ∧ parsedPort = none
    · simp [unset, eq_comm]
    · rw [if_neg unset, ← and_assoc, or_iff_left fun h => unset h.1]
      simp [eq_comm]

end Ports

section Catalog
variable {fields : List (String × Value)} {key : PortKey} {num : Number} {n : Int} {host : String}
  {parsedPort : Option UInt16} {edition : Edition}

theorem toNat_of_portField_text (key : PortKey) {p : UInt16}
    (read : portField (withPort fields key (.string (toString n))) key.name = some p) : (p.toNat : Int) = n := by
  rw [portField_text] at read
  split at read
  · rename_i port
    cases read
    rw [UInt16.toNat_ofNat', Nat.mod_eq_of_lt (by omega)]
    omega
  · cases read

theorem withPort_other (key : PortKey) (v : Value) {p : UInt16} (whole : ∀ p, ¬FieldTruncated fields key.other.name p) :
    portField (withPort fields key v) key.other.name = some p ↔ FieldNames fields key.other.name p := by
  rw [portField_withPort_other, portField_eq_some_iff]
  exact or_iff_left (whole p)

theorem traced_pingPort_text (whole : ∀ p, ¬FieldTruncated fields "bedrock_port" p) :
    Traced fields parsedPort edition .pingPort n
      (resolveStatePorts (withPort fields .pingPort (.string (toString n))) host parsedPort edition) := by
  rw [resolveStatePorts_eq]
  constructor
  · intro p polled
    rcases portsFrom_source polled with address | ⟨own, _⟩ | ⟨unset, second⟩
    · exact .inl address
    · exact .inr (.inl ⟨nofun, toNat_of_portField_text .pingPort own⟩)
    · exact .inr (.inr ⟨fun _ => unset, (withPort_other .pingPort _ whole).mp second⟩)
  · intro p second
    exact .inr ⟨rfl, (withPort_other .pingPort _ whole).mp second⟩

/-- With a port in the field for Bedrock, a truncated ping port has to come from elsewhere as well. -/
theorem traced_bedrockPort_iff {v : Value}
    (own : ∀ p, portField (withPort fields .bedrockPort v) "bedrock_port" = some p → (p.toNat : Int) = n) :
    Traced fields parsedPort edition .bedrockPort n
        (resolveStatePorts (withPort fields .bedrockPort v) host parsedPort edition) ↔
      ∀ p, FieldTruncated fields "ping_port" p →
        LeftToSrv edition p host ∨ parsedPort = some p ∨
          (edition = .bedrock ∧ parsedPort = none ∧ (p.toNat : Int) = n) := by
  have first (p : UInt16) : portField (withPort fields .bedrockPort v) "ping_port" = some p ↔
      FieldNames fields "ping_port" p ∨ FieldTruncated fields "ping_port" p := by
    rw [← portField_eq_some_iff]
    exact iff_of_eq (congrArg (· = some p) (portField_withPort_other fields .bedrockPort v))
  rw [resolveStatePorts_eq]
  constructor
  · intro traced p truncated
    by_cases left : LeftToSrv edition p host
    · exact .inl left
    · have polled : (portsFrom (portField (withPort fields .bedrockPort v) "ping_port")
          (portField (withPort fields .bedrockPort v) "bedrock_port") host parsedPort edition).1 = some p := by
        rw [(first p).mpr (.inr truncated), portsFrom_polled left]
      rcases traced.port p polled with address | ⟨unset, same⟩ | ⟨_, named⟩
      · exact .inr (.inl address)
      · exact .inr (.inr ⟨(unset rfl).1, (unset rfl).2, same⟩)
      · exact absurd named truncated.not_named
  · intro harmless
    refine ⟨fun p polled => ?_, fun p second => .inl ⟨rfl, own p second⟩⟩
    rcases portsFrom_source polled with address | ⟨there, not_left⟩ | ⟨unset, second⟩
    · exact .inl address
    · rcases (first p).mp there with named | truncated
      · exact .inr (.inr ⟨nofun, named⟩)
      · rcases harmless p truncated with left | address | ⟨bedrock, unset, same⟩
        · exact absurd left not_left
        · exact .inl address
        · exact .inr (.inl ⟨fun _ => ⟨bedrock, unset⟩, same⟩)
    · exact .inr (.inl ⟨fun _ => unset, own p second⟩)

theorem bedrockPort_disagree (denotes : num.Denotes n) (truncated : Truncated n) :
    resolveStatePorts (withPort fields .bedrockPort (.number num)) host parsedPort edition ≠
      resolveStatePorts (withPort fields .bedrockPort (.string (toString n))) host parsedPort edition := by
  obtain ⟨number, text⟩ := portField_truncated fields .bedrockPort denotes truncated
  intro same
  have second : portField (withPort fields .bedrockPort (.number num)) "bedrock_port" =
      portField (withPort fields .bedrockPort (.string (toString n))) "bedrock_port" := congrArg Prod.snd same
  exact Option.some_ne_none _ (number.symm.trans (second.trans text))

theorem pingPort_agree_iff (denotes : num.Denotes n) (truncated : Truncated n)
    (whole : ∀ p, ¬FieldTruncated fields "bedrock_port" p) :
    resolveStatePorts (withPort fields .pingPort (.number num)) host parsedPort edition =
        resolveStatePorts (withPort fields .pingPort (.string (toString n))) host parsedPort edition ↔
      LeftToSrv edition (UInt16.ofNat n.toNat) host ∨
        AddressPort fields parsedPort edition (UInt16.ofNat n.toNat) := by
  obtain ⟨number, text⟩ := portField_truncated fields .pingPort denotes truncated
  have other (v : Value) : portField (withPort fields .pingPort v) "bedrock_port" =
      portField (.object fields) "bedrock_port" := portField_withPort_other fields .pingPort v
  rw [resolveStatePorts_eq, resolveStatePorts_eq, other, other]
  show portsFrom (portField _ PortKey.pingPort.name) _ _ _ _ =
    portsFrom (portField _ PortKey.pingPort.name) _ _ _ _ ↔ _
  rw [number, text, portsFrom_some_iff, portField_eq_some_iff, or_iff_left (whole _)]
  rfl

theorem agree_of_not_truncated (denotes : num.Denotes n) (whole : ¬Truncated n) :
    resolveStatePorts (withPort fields key (.number num)) host parsedPort edition =
      resolveStatePorts (withPort fields key (.string (toString n))) host parsedPort edition := by
  have own := portField_eq_of_not_truncated fields key denotes whole
  have other : portField (withPort fields key (.number num)) key.other.name =
      portField (withPort fields key (.string (toString n))) key.other.name := by
    rw [portField_withPort_other, portField_withPort_other]
  rw [resolveStatePorts_eq, resolveStatePorts_eq]
  cases key with
  | pingPort => exact congrArg₂ (portsFrom · · host parsedPort edition) own other
  | bedrockPort => exact congrArg₂ (portsFrom · · host parsedPort edition) other own

/-- A port field means the same as a number and as a text, and every port is accounted for, exactly when no
number is truncated but a ping port that makes no difference. -/
theorem ports_agree_iff (denotes : num.Denotes n) :
    (resolveStatePorts (withPort fields key (.number num)) host parsedPort edition =
        resolveStatePorts (withPort fields key (.string (toString n))) host parsedPort edition ∧
      Traced fields parsedPort edition key n
        (resolveStatePorts (withPort fields key (.number num)) host parsedPort edition)) ↔
      key.Harmless fields parsedPort edition n host := by
  cases key with
  | pingPort =>
      constructor
      · rintro ⟨agree, traced⟩
        have whole : ∀ p, ¬FieldTruncated fields "bedrock_port" p := by
          intro p truncated
          have second : portField (withPort fields .pingPort (.number num)) "bedrock_port" = some p := by
            exact (portField_withPort_other fields .pingPort _).trans (portField_eq_some_iff.mpr (.inr truncated))
          rcases traced.bedrockPort p second with ⟨other, _⟩ | ⟨_, named⟩
          · cases other
          · exact truncated.not_named named
        exact ⟨fun truncated => ⟨rfl, (pingPort_agree_iff denotes truncated whole).mp agree⟩,
          fun p truncated => absurd truncated (whole p)⟩
      · rintro ⟨own, other⟩
        have whole : ∀ p, ¬FieldTruncated fields "bedrock_port" p := by
          intro p truncated
          cases (other p truncated).1
        have agree : resolveStatePorts (withPort fields .pingPort (.number num)) host parsedPort edition =
            resolveStatePorts (withPort fields .pingPort (.string (toString n))) host parsedPort edition := by
          by_cases truncated : Truncated n
          · exact (pingPort_agree_iff denotes truncated whole).mpr (own truncated).2
          · exact agree_of_not_truncated denotes truncated
        exact ⟨agree, agree ▸ traced_pingPort_text whole⟩
  | bedrockPort =>
      by_cases truncated : Truncated n
      · refine iff_of_false (fun h => bedrockPort_disagree denotes truncated h.1) fun harmless => ?_
        cases (harmless.own truncated).1
      · have agree : resolveStatePorts (withPort fields .bedrockPort (.number num)) host parsedPort edition =
            resolveStatePorts (withPort fields .bedrockPort (.string (toString n))) host parsedPort edition :=
          agree_of_not_truncated denotes truncated
        have own : ∀ p, portField (withPort fields .bedrockPort (.number num)) "bedrock_port" = some p →
            (p.toNat : Int) = n := by
          intro p read
          rw [show "bedrock_port" = PortKey.bedrockPort.name from rfl,
            portField_eq_of_not_truncated fields .bedrockPort denotes truncated] at read
          exact toNat_of_portField_text .bedrockPort read
        rw [and_iff_right agree, traced_bedrockPort_iff own]
        constructor
        · exact fun harmless => ⟨fun h => absurd h truncated, fun p there => ⟨rfl, harmless p there⟩⟩
        · exact fun harmless p there => (harmless.other p there).2

end Catalog

/-- A number above the ports is polled as another port, and its text is not one. -/
theorem truncated_port_polled :
    Number.Denotes (.posInt 65616) 65616 ∧
      resolveStatePorts (withPort [] .pingPort (.number (.posInt 65616))) "mc.example.com" none .java =
        (some 80, none) ∧
      resolveStatePorts (withPort [] .pingPort (.string (toString (65616 : Int)))) "mc.example.com" none .java =
        (none, none) :=
  ⟨.posInt 65616, by decide, by decide⟩

/-- A number that is truncated to the default Java port. -/
theorem ports_agree_iff_default :
    resolveStatePorts (withPort [] .pingPort (.number (.posInt 91101))) "mc.example.com" none .java =
        resolveStatePorts (withPort [] .pingPort (.string (toString (91101 : Int)))) "mc.example.com" none .java ∧
      Traced [] none .java .pingPort 91101
        (resolveStatePorts (withPort [] .pingPort (.number (.posInt 91101))) "mc.example.com" none .java) := by
  have harmless : PortKey.Harmless [] none .java .pingPort 91101 "mc.example.com" := by
    refine ⟨fun _ => ⟨rfl, .inl ⟨by decide, by decide, by decide⟩⟩, ?_⟩
    rintro p ⟨m, there, _⟩
    cases there
  exact (ports_agree_iff (.posInt 91101)).mpr harmless

end ServerPoller
