import ServerPoller.Lib.Decimals
import ServerPoller.Lib.Pieces
import ServerPoller.Models

/-! The two notations of `parse_address`: what is put together in one of them comes apart again, and nothing else
is taken apart. -/

namespace ServerPoller
open RustText Pieces

/-- `parse_address` behind its brackets: a host and a port when there is exactly one colon. -/
def parsePlain (value : String) : String × Option UInt16 :=
  if value.toList.count ':' = 1 then
    match parseU16 (String.ofList ((value.toList.dropWhile (· ≠ ':')).drop 1)) with
    | some port => (String.ofList (value.toList.takeWhile (· ≠ ':')), some port)
    | none => (value, none)
  else (value, none)

def bracketPort : List Char → Option UInt16
  | ':' :: d => parseU16 (String.ofList d)
  | _ => none

def Bracketed (value : String) : Prop := ∃ inner, value.toList = '[' :: inner ∧ ']' ∈ inner

theorem parseAddress_plain {value : String} (plain : ¬Bracketed value) : parseAddress value = parsePlain value := by
  unfold parseAddress
  dsimp only
  split
  · rename_i inner eq
    rw [if_neg fun closed => plain ⟨inner, eq, closed⟩]
    rfl
  · rfl

theorem bracketPort_other {rest : List Char} (other : ∀ d, rest = ':' :: d → False) : bracketPort rest = none := by
  unfold bracketPort
  split
  · exact (other _ rfl).elim
  · rfl

theorem parseAddress_bracketed {value : String} {host rest : List Char}
    (eq : value.toList = '[' :: (host ++ ']' :: rest)) (first : ']' ∉ host) :
    parseAddress value = (String.ofList host, bracketPort rest) := by
  have closed : ']' ∈ host ++ ']' :: rest := by simp
  unfold parseAddress
  simp only [eq, if_pos closed, takeWhile_before first, dropWhile_before first, List.drop_succ_cons, List.drop_zero]
  split
  · rfl
  · rename_i other
    rw [bracketPort_other other]

/-- A bracketed value is its host, the first closing bracket and what follows it. -/
theorem Bracketed.parts {value : String} (h : Bracketed value) :
    ∃ host rest, value.toList = '[' :: (host ++ ']' :: rest) ∧ ']' ∉ host := by
  obtain ⟨inner, eq, closed⟩ := h
  obtain ⟨host, rest, rfl, first⟩ := List.eq_append_cons_of_mem closed
  exact ⟨host, rest, eq, first⟩

theorem no_colon_of_parseU16 {d : String} {p : UInt16} (read : parseU16 d = some p) : ':' ∉ d.toList := by
  obtain ⟨n, digits, _⟩ := Option.bind_eq_some_iff.mp read
  have plain : ∀ l : List Char, digitsValue l = some n → ':' ∉ l := by
    intro l value member
    rw [digitsValue] at value
    split at value
    · cases value
    · rename_i all
      refine all (Bool.or_eq_true_iff.mpr (.inr ?_))
      exact List.any_eq_true.mpr ⟨':', member, by decide⟩
  split at digits
  · rename_i rest eq
    rw [eq]
    intro member
    rcases List.mem_cons.mp member with sign | later
    · exact absurd sign (by decide)
    · exact plain rest digits later
  · exact plain _ digits

theorem parsePlain_colon {value : String} {host d : List Char} (eq : value.toList = host ++ ':' :: d)
    (before : ':' ∉ host) (after : ':' ∉ d) : parsePlain value = match parseU16 (String.ofList d) with
      | some port => (String.ofList host, some port)
      | none => (value, none) := by
  have once : value.toList.count ':' = 1 := count_eq_one_iff.mpr ⟨host, d, eq, before, after⟩
  rw [parsePlain, if_pos once, eq, dropWhile_before before, takeWhile_before before, List.drop_succ_cons,
    List.drop_zero]

/-- Behind the brackets a port is found only after the only colon. -/
theorem parsePlain_cases (value : String) :
    (parsePlain value = (value, none)) ∨
      ∃ host d p, value = host ++ ":" ++ d ∧ parseU16 d = some p ∧ parsePlain value = (host, some p) := by
  by_cases once : value.toList.count ':' = 1
  · obtain ⟨host, d, eq, before, after⟩ := count_eq_one_iff.mp once
    have split_ := parsePlain_colon eq before after
    cases read : parseU16 (String.ofList d) with
    | none =>
        rw [read] at split_
        exact .inl split_
    | some p =>
        rw [read] at split_
        refine .inr ⟨String.ofList host, String.ofList d, p, ?_, read, split_⟩
        rw [← String.toList_inj, eq]
        simp
  · exact .inl (if_neg once)

theorem parseU16_decimal (p : UInt16) : parseU16 (toString p.toNat) = some p := by
  have bound := p.toNat_lt
  have text : toString p.toNat = toString (p.toNat : Int) := rfl
  rw [text, parseU16_toString, if_pos (by omega), Int.toNat_natCast, UInt16.ofNat_toNat]

section Notations
variable {h d : String} {p : UInt16}

theorem parseAddress_colon (before : ':' ∉ h.toList) (open_ : h.toList.head? ≠ some '[') (read : parseU16 d = some p) :
    parseAddress (h ++ ":" ++ d) = (h, some p) := by
  have eq : (h ++ ":" ++ d).toList = h.toList ++ ':' :: d.toList := by simp
  have plain : ¬Bracketed (h ++ ":" ++ d) := by
    rintro ⟨inner, start, _⟩
    rw [eq] at start
    cases host : h.toList with
    | nil =>
        rw [host] at start
        cases start
    | cons c rest =>
        rw [host, List.cons_append, List.cons.injEq] at start
        exact open_ (by rw [host, start.1, List.head?_cons])
  rw [parseAddress_plain plain, parsePlain_colon eq before (no_colon_of_parseU16 read), String.ofList_toList, read,
    String.ofList_toList]

theorem parseAddress_brackets (closed : ']' ∉ h.toList) (rest : String) :
    parseAddress ("[" ++ h ++ "]" ++ rest) = (h, bracketPort rest.toList) := by
  have eq : ("[" ++ h ++ "]" ++ rest).toList = '[' :: (h.toList ++ ']' :: rest.toList) := by simp
  rw [parseAddress_bracketed eq closed, String.ofList_toList]

theorem parseAddress_some {value : String} (parsed : parseAddress value = (h, some p)) :
    ∃ d, parseU16 d = some p ∧ (value = h ++ ":" ++ d ∨ value = "[" ++ h ++ "]:" ++ d) := by
  by_cases brackets : Bracketed value
  · obtain ⟨host, rest, eq, first⟩ := brackets.parts
    rw [parseAddress_bracketed eq first, Prod.mk.injEq] at parsed
    obtain ⟨rfl, port⟩ := parsed
    unfold bracketPort at port
    split at port
    · rename_i d
      refine ⟨String.ofList d, port, .inr ?_⟩
      rw [← String.toList_inj, eq]
      simp
    · cases port
  · rw [parseAddress_plain brackets] at parsed
    rcases parsePlain_cases value with whole | ⟨host, d, q, eq, read, split_⟩
    · rw [whole] at parsed
      cases parsed
    · rw [split_] at parsed
      cases parsed
      exact ⟨d, read, .inl eq⟩

theorem parseAddress_none {value : String} (plain : ¬Bracketed value) (parsed : parseAddress value = (h, none)) :
    h = value := by
  rw [parseAddress_plain plain] at parsed
  rcases parsePlain_cases value with whole | ⟨host, d, q, eq, read, split_⟩
  · rw [whole] at parsed
    cases parsed
    rfl
  · rw [split_] at parsed
    cases parsed

end Notations

/-- What is written as a host and a port is read as these, for any text that is parsed as the port; and nothing
else is taken apart. -/
theorem parse_address_exact :
    (∀ p : UInt16, parseU16 (toString p.toNat) = some p) ∧
      (∀ (h d : String) (p : UInt16), ':' ∉ h.toList → h.toList.head? ≠ some '[' → parseU16 d = some p →
        parseAddress (h ++ ":" ++ d) = (h, some p)) ∧
      (∀ (h d : String) (p : UInt16), ']' ∉ h.toList → parseU16 d = some p →
        parseAddress ("[" ++ h ++ "]:" ++ d) = (h, some p) ∧ parseAddress ("[" ++ h ++ "]") = (h, none)) ∧
      (∀ (value h : String) (p : UInt16), parseAddress value = (h, some p) →
        ∃ d, parseU16 d = some p ∧ (value = h ++ ":" ++ d ∨ value = "[" ++ h ++ "]:" ++ d)) ∧
      (∀ value h : String, ¬Bracketed value → parseAddress value = (h, none) → h = value) ∧
      ∀ value : String, 2 ≤ value.toList.count ':' → value.toList.head? ≠ some '[' →
        parseAddress value = (value, none) := by
  refine ⟨parseU16_decimal, fun h d p before open_ read => parseAddress_colon before open_ read, ?_,
    fun value h p parsed => parseAddress_some parsed, fun value h plain parsed => parseAddress_none plain parsed, ?_⟩
  · intro h d p closed read
    have port : bracketPort (":" ++ d).toList = some p := by
      rw [String.toList_append]
      show parseU16 (String.ofList d.toList) = some p
      rw [String.ofList_toList, read]
    constructor
    · have whole : "[" ++ h ++ "]:" ++ d = "[" ++ h ++ "]" ++ (":" ++ d) := by
        rw [← String.toList_inj]
        simp
      rw [whole, parseAddress_brackets closed, port]
    · have whole : "[" ++ h ++ "]" = "[" ++ h ++ "]" ++ "" := by simp
      rw [whole, parseAddress_brackets closed]
      rfl
  · intro value colons open_
    have plain : ¬Bracketed value := by
      rintro ⟨inner, eq, _⟩
      exact open_ (by rw [eq, List.head?_cons])
    rw [parseAddress_plain plain, parsePlain, if_neg (by omega)]

/-- A host name, an IPv6 address in brackets and one without. -/
theorem parse_address_exact_kinds :
    parseAddress ("mc.example.com" ++ ":" ++ "25566") = ("mc.example.com", some 25566) ∧
      parseAddress ("[" ++ "::1" ++ "]:" ++ "25565") = ("::1", some 25565) ∧
      parseAddress "2001:db8::1" = ("2001:db8::1", none) := by
  obtain ⟨_, colon, brackets, _, _, unchanged⟩ := parse_address_exact
  exact ⟨colon _ _ _ (by decide) (by decide) (by decide), (brackets _ _ _ (by decide) (by decide)).1,
    unchanged _ (by decide) (by decide)⟩

end ServerPoller
