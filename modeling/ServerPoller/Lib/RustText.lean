import Mathlib.Algebra.Group.Nat.Defs
import Mathlib.Algebra.Ring.Int.Defs
import Mathlib.Data.List.DropRight

/-! Functions of Rust's `str` and of its number and address parsers. -/

namespace RustText

/-- The characters with the Unicode property `White_Space`. -/
def isWhitespace (ch : Char) : Bool :=
  let n := ch.toNat
  (9 ≤ n && n ≤ 13) || n == 0x20 || n == 0x85 || n == 0xA0 || n == 0x1680 ||
    (0x2000 ≤ n && n ≤ 0x200A) || n == 0x2028 || n == 0x2029 || n == 0x202F || n == 0x205F || n == 0x3000

def trim (s : String) : String :=
  String.ofList ((s.toList.dropWhile isWhitespace).rdropWhile isWhitespace)

private theorem dropWhile_of_prefix {p : Char → Bool} {l m : List Char} (sub : m <+: l)
    (start : l.dropWhile p = l) : m.dropWhile p = m := by
  obtain ⟨tail, rfl⟩ := sub
  cases m with
  | nil => rfl
  | cons c m =>
      rw [List.cons_append, List.dropWhile_cons] at start
      by_cases h : p c = true
      · rw [if_pos h] at start
        have shorter := (List.dropWhile_suffix p (l := m ++ tail)).length_le
        rw [start, List.length_cons] at shorter
        omega
      · rw [List.dropWhile_cons, if_neg h]

theorem trim_trim (s : String) : trim (trim s) = trim s := by
  have start := List.dropWhile_idempotent (p := isWhitespace) (l := s.toList)
  have front := dropWhile_of_prefix (List.rdropWhile_prefix isWhitespace (s.toList.dropWhile isWhitespace)) start
  unfold trim
  rw [String.toList_ofList, front, List.rdropWhile_idempotent]

/-- One character of `to_lowercase`, for comparison with ASCII texts: the characters outside ASCII
that are not listed have lower case forms outside ASCII, and so have they themselves. -/
def lowercaseChar (ch : Char) : List Char :=
  if ch.toNat < 128 then [ch.toLower]
  else if ch.toNat = 0x212A then ['k'] -- Kelvin sign
  else if ch.toNat = 0x130 then ['i', Char.ofNat 0x307] -- capital I with dot above
  else [ch]

def toLowercase (s : String) : String := String.ofList (s.toList.flatMap lowercaseChar)

def digitsValue (l : List Char) : Option Nat :=
  if l.isEmpty || l.any (fun c => !c.isDigit) then none
  else some (l.foldl (fun n c => n * 10 + (c.toNat - 48)) 0)

/-- `parse::<u16>`: one leading plus sign is allowed. -/
def parseU16 (s : String) : Option UInt16 := do
  let n ← digitsValue (match s.toList with
    | '+' :: rest => rest
    | l => l)
  if n < 2 ^ 16 then some (UInt16.ofNat n) else none

/-- `parse::<i64>`: one leading sign is allowed. -/
def parseI64 (s : String) : Option Int64 := do
  let n : Int ← match s.toList with
    | '+' :: rest => (digitsValue rest).map fun n => (n : Int)
    | '-' :: rest => (digitsValue rest).map fun n => -(n : Int)
    | l => (digitsValue l).map fun n => (n : Int)
  if -2 ^ 63 ≤ n ∧ n < 2 ^ 63 then some (Int64.ofInt n) else none

/-- `parse::<i32>`, of the characters. -/
def parseI32 (l : List Char) : Option Int := do
  let n ← match l with
    | '+' :: rest => (digitsValue rest).map Int.ofNat
    | '-' :: rest => (digitsValue rest).map fun n => -Int.ofNat n
    | l => (digitsValue l).map Int.ofNat
  if -2 ^ 31 ≤ n ∧ n < 2 ^ 31 then some n else none

def hexValue (c : Char) : Option Nat :=
  if c.isDigit then some (c.toNat - 48)
  else if 'a' ≤ c ∧ c ≤ 'f' then some (c.toNat - 87)
  else if 'A' ≤ c ∧ c ≤ 'F' then some (c.toNat - 55)
  else none

/-- A decimal octet at the front; like the readers after it, it gives back the rest. -/
def readOctet (l : List Char) : Option (List Char) :=
  let digits := l.takeWhile Char.isDigit
  match digitsValue digits with
  | none => none
  | some n =>
      if 3 < digits.length ∨ (digits.head? = some '0' ∧ 1 < digits.length) ∨ 255 < n then none
      else some (l.drop digits.length)

def readHexGroup (l : List Char) : Option (List Char) :=
  let digits := l.takeWhile fun c => (hexValue c).isSome
  if digits.isEmpty ∨ 4 < digits.length then none else some (l.drop digits.length)

def readSeparator (sep : Char) (index : Nat) (l : List Char) : Option (List Char) :=
  if index = 0 then some l
  else match l with
    | c :: rest => if c = sep then some rest else none
    | [] => none

def readIpv4 (l : List Char) : Option (List Char) :=
  (List.range 4).foldlM (fun l i => (readSeparator '.' i l).bind readOctet) l

/-- Groups read out of `limit`, whether the last two of them were an IPv4 address, and the rest. -/
def readGroups (limit : Nat) : Nat → List Char → Nat × Bool × List Char
  | 0, l => (limit, false, l)
  | left+1, l =>
      let i := limit - (left + 1)
      match if i + 1 < limit then (readSeparator ':' i l).bind readIpv4 else none with
      | some rest => (i + 2, true, rest)
      | none =>
          match (readSeparator ':' i l).bind readHexGroup with
          | some rest => readGroups limit left rest
          | none => (i, false, l)

def readIpv6 (l : List Char) : Option (List Char) :=
  let (headSize, headIpv4, l) := readGroups 8 8 l
  if headSize = 8 then some l
  else if headIpv4 then none
  else match l with
    | ':' :: ':' :: rest =>
        let limit := 8 - (headSize + 1)
        some (readGroups limit limit rest).2.2
    | _ => none

/-- Whether `parse::<IpAddr>` succeeds. -/
def isIpAddr (s : String) : Bool :=
  match readIpv4 s.toList with
  | some rest => rest.isEmpty
  | none =>
      match readIpv6 s.toList with
      | some rest => rest.isEmpty
      | none => false

example : isIpAddr "192.168.1.1" = true ∧ isIpAddr "2001:db8::1" = true ∧ isIpAddr "::ffff:1.2.3.4" = true ∧
    isIpAddr "mc.example.com" = false ∧ isIpAddr "1.2.3.04" = false := by decide

end RustText
