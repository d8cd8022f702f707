import Mathlib.Algebra.Group.Nat.Defs
import Mathlib.Data.List.Basic

/-! JSON values as `serde_json` holds them. Objects list their fields in key order. A float is
kept as the text it prints as, which is all that is ever asked of one. -/

namespace Json

inductive Number where
  | posInt (n : UInt64)
  | negInt (n : Int64)
  | float (text : String)
  deriving DecidableEq, Repr

inductive Value where
  | null
  | bool (b : Bool)
  | number (n : Number)
  | string (s : String)
  | array (items : List Value)
  | object (fields : List (String × Value))
  deriving Repr

def Number.ofI64 (n : Int64) : Number := if 0 ≤ n then .posInt n.toUInt64 else .negInt n

def Number.asI64 : Number → Option Int64
  | .posInt n => if n.toNat < 2 ^ 63 then some (Int64.ofNat n.toNat) else none
  | .negInt n => some n
  | .float _ => none

def Number.asU64 : Number → Option UInt64
  | .posInt n => some n
  | .negInt _ => none
  | .float _ => none

def Number.render : Number → String
  | .posInt n => toString n.toNat
  | .negInt n => toString n.toInt
  | .float text => text

namespace Value

def get (v : Value) (key : String) : Option Value :=
  match v with
  | .object fields => fields.lookup key
  | _ => none

def asI64 : Value → Option Int64
  | .number n => n.asI64
  | _ => none

def asStr : Value → Option String
  | .string s => some s
  | _ => none

def asBool : Value → Option Bool
  | .bool b => some b
  | _ => none

def asArray : Value → Option (List Value)
  | .array items => some items
  | _ => none

def ofI64 (n : Int64) : Value := .number (.ofI64 n)

def ofOption {α : Type} (f : α → Value) : Option α → Value
  | none => .null
  | some a => f a

/-- `Map::insert` on the fields of an object. -/
def insertField (key : String) (v : Value) : List (String × Value) → List (String × Value)
  | [] => [(key, v)]
  | (k, w) :: rest =>
      if key < k then (key, v) :: (k, w) :: rest
      else if key = k then (key, v) :: rest
      else (k, w) :: insertField key v rest

/-- An object from its fields, later ones replacing earlier ones. -/
def ofFields (fields : List (String × Value)) : Value :=
  .object (fields.foldl (fun acc f => insertField f.1 f.2 acc) [])

def escapeChar (ch : Char) : List Char :=
  if ch = '"' then ['\\', '"']
  else if ch = '\\' then ['\\', '\\']
  else if ch = '\x08' then ['\\', 'b']
  else if ch = '\x09' then ['\\', 't']
  else if ch = '\x0a' then ['\\', 'n']
  else if ch = '\x0c' then ['\\', 'f']
  else if ch = '\x0d' then ['\\', 'r']
  else if ch.toNat < 32 then ['\\', 'u', '0', '0', Nat.digitChar (ch.toNat / 16), Nat.digitChar (ch.toNat % 16)]
  else [ch]

def quote (s : String) : String := "\"" ++ String.ofList (s.toList.flatMap escapeChar) ++ "\""

mutual

/-- `to_string`: the compact text. -/
def render : Value → String
  | .null => "null"
  | .bool b => if b then "true" else "false"
  | .number n => n.render
  | .string s => quote s
  | .array items => "[" ++ renderItems items ++ "]"
  | .object fields => "\x7b" ++ renderFields fields ++ "\x7d"

def renderItems : List Value → String
  | [] => ""
  | [v] => render v
  | v :: w :: rest => render v ++ "," ++ renderItems (w :: rest)

def renderFields : List (String × Value) → String
  | [] => ""
  | [(k, v)] => quote k ++ ":" ++ render v
  | (k, v) :: f :: rest => quote k ++ ":" ++ render v ++ "," ++ renderFields (f :: rest)

end

theorem asI64_ofI64 (n : Int64) : (ofI64 n).asI64 = some n := by
  unfold ofI64 asI64 Number.ofI64
  by_cases h : 0 ≤ n
  · simp only [h, if_true, Number.asI64, Int64.toNat_toUInt64_of_le h, n.toNatClampNeg_lt,
      Int64.ofNat_toNatClampNeg n h]
  · simp only [h, if_false, Number.asI64]

theorem asI64_ofOption (n : Option Int64) : (ofOption ofI64 n).asI64 = n := by
  cases n with
  | none => rfl
  | some n => exact asI64_ofI64 n

theorem lookup_insertField (key k : String) (v : Value) (fields : List (String × Value)) :
    (insertField key v fields).lookup k = if k = key then some v else fields.lookup k := by
  induction fields with
  | nil =>
      by_cases h : k = key
      · simp [insertField, h]
      · simp [insertField, List.lookup_cons, beq_eq_false_iff_ne.mpr h, h]
  | cons f rest ih =>
      rcases f with ⟨name, w⟩
      by_cases less : key < name
      · by_cases h : k = key
        · simp [insertField, less, h]
        · simp [insertField, less, List.lookup_cons, beq_eq_false_iff_ne.mpr h, h]
      · by_cases same : key = name
        · subst same
          by_cases h : k = key
          · simp [insertField, h]
          · simp [insertField, List.lookup_cons, beq_eq_false_iff_ne.mpr h, h]
        · simp only [insertField, less, same, if_false, List.lookup_cons]
          by_cases h : k = name
          · subst h
            simp [Ne.symm same]
          · simp only [beq_eq_false_iff_ne.mpr h, ih]

theorem get_ofFields (fields : List (String × Value)) (k : String) :
    (ofFields fields).get k = (fields.reverse.lookup k) := by
  have general : ∀ acc, (fields.foldl (fun acc f => insertField f.1 f.2 acc) acc).lookup k =
      (fields.reverse.lookup k).or (acc.lookup k) := by
    induction fields with
    | nil =>
        intro acc
        simp
    | cons f rest ih =>
        intro acc
        rcases f with ⟨name, w⟩
        rw [List.foldl_cons, ih, lookup_insertField, List.reverse_cons, List.lookup_append]
        by_cases h : k = name
        · cases hl : rest.reverse.lookup k <;> simp [h]
        · simp [List.lookup_cons, beq_eq_false_iff_ne.mpr h, h]
  simpa [get, ofFields] using general []

end Value

end Json
