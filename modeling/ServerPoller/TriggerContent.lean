import ServerPoller.Lib.Decimals
import ServerPoller.Lib.Words
import ServerPoller.Models

/-! The content of a trigger file: the ids of a list, whichever way they are written, or every server. -/

namespace ServerPoller
open Json RustText Utf8

section Source
variable (fromStr : String → Option Value)

/-- The text of an element, unless it is of another type or empty. -/
def triggerId (v : Value) : Option String :=
  let s := match v with
    | .string s => some (trim s)
    | .number n => some n.render
    | _ => none
  s.bind fun s => if s = "" then none else some s

def triggerObject (fields : List (String × Value)) : Option (List String) :=
  if ((fields.lookup "all").bind Value.asBool).getD false then none
  else
    let items := ((fields.lookup "server_ids").or (fields.lookup "ids")).bind Value.asArray
    some ((items.map fun arr => arr.filterMap triggerId).getD [])

def spacesForCommas (l : List Char) : List Char := l.map fun c => if c = ',' then ' ' else c

/-- Space/comma separated. -/
def triggerText (content : String) : List String :=
  ((splitWhitespace (spacesForCommas content.toList)).map String.ofList).filter fun s => s ≠ ""

/-- Returns `none` for "all", `some ids` for specific targets. `fromStr` is `serde_json::from_str`, which gives
nothing for a text that is not JSON. -/
def parseTriggerContent (content : String) : Option (List String) :=
  let content := trim content
  if content = "" then some []
  else if toLowercase content = "all" ∨ toLowercase content = "*" then none
  else
    let val := if content.toList.head? = some '\x7b' ∨ content.toList.head? = some '[' then fromStr content else none
    match val with
    | some (.object fields) => triggerObject fields
    | some (.array arr) => some (arr.filterMap triggerId)
    | _ => some (triggerText content)

end Source

/-- A decimal numeral of a `u64`, without leading zeros. -/
structure ServerId (id : String) : Prop where
  digits : IsDigits id.toList
  leading : id.toList.head? = some '0' → id = "0"
  bound : Nat.ofDigitChars 10 id.toList 0 < 2 ^ 64

def Blanks (l : List Char) : Prop := ∀ c ∈ l, isWhitespace c = true

/-- Ids one after the other, with commas and whitespace between neighbours. -/
inductive Arranged : List String → List Char → Prop
  | nil : Arranged [] []
  | single (id : String) : Arranged [id] id.toList
  | cons {id next : String} {ids : List String} {gap rest : List Char} :
      gap ≠ [] → (∀ c ∈ gap, c = ',' ∨ isWhitespace c = true) → Arranged (next :: ids) rest →
        Arranged (id :: next :: ids) (id.toList ++ gap ++ rest)

/-- An element of a JSON array: the number, or the numeral with whitespace around it. -/
inductive Spells : Value → String → Prop
  | number (id : String) : Spells (.number (.posInt (UInt64.ofNat (Nat.ofDigitChars 10 id.toList 0)))) id
  | text {lead trail : List Char} (id : String) : Blanks lead → Blanks trail →
      Spells (.string (String.ofList (lead ++ id.toList ++ trail))) id

def jsonBlank (c : Char) : Bool := c = ' ' ∨ c = '\n' ∨ c = '\t' ∨ c = '\r'

/-- Behind its whitespace the text of an array starts with a bracket, and that of an object with a brace. -/
structure ReadsJson (fromStr : String → Option Value) : Prop where
  array : ∀ s items, fromStr s = some (.array items) → (s.toList.dropWhile jsonBlank).head? = some '['
  object : ∀ s fields, fromStr s = some (.object fields) → (s.toList.dropWhile jsonBlank).head? = some '\x7b'

theorem digit_solid {c : Char} (digit : c.isDigit = true) : isWhitespace c = false ∧ c ≠ ',' := by
  obtain ⟨low, high⟩ := isDigit_range digit
  constructor
  · simp only [isWhitespace, Bool.or_eq_false_iff, Bool.and_eq_false_iff, decide_eq_false_iff_not, beq_eq_false_iff_ne]
    omega
  · rintro rfl
    exact absurd low (by decide)

section Id
variable {id : String}

theorem ServerId.solid (h : ServerId id) : ∀ c ∈ id.toList, isWhitespace c = false :=
  fun c member => (digit_solid (h.digits.digits c member)).1

theorem ServerId.nonempty (h : ServerId id) : id ≠ "" := by
  rintro rfl
  exact h.digits.full rfl

theorem ServerId.render (h : ServerId id) :
    (Number.posInt (UInt64.ofNat (Nat.ofDigitChars 10 id.toList 0))).render = id := by
  have leading : id.toList.head? = some '0' → id.toList = ['0'] := by
    intro zero
    rw [h.leading zero]
    rfl
  rw [Number.render, UInt64.toNat_ofNat_of_lt' h.bound, ← String.toList_inj]
  show (Nat.repr _).toList = _
  rw [Nat.toList_repr, toDigits_ofDigitChars h.digits leading]

theorem ServerId.trim (h : ServerId id) {lead trail : List Char} (before : Blanks lead) (after : Blanks trail) :
    RustText.trim (String.ofList (lead ++ id.toList ++ trail)) = id := by
  rw [trim_eq, String.toList_ofList, trimText_surrounded before after
    (fun c first => h.solid c (List.mem_of_mem_head? first))
    (fun c last => h.solid c (List.mem_of_getLast? last)), String.ofList_toList]

theorem ServerId.triggerId (h : ServerId id) {v : Value} (spelled : Spells v id) :
    ServerPoller.triggerId v = some id := by
  cases spelled with
  | number =>
      rw [ServerPoller.triggerId, h.render]
      exact if_neg h.nonempty
  | text _ before after =>
      rw [ServerPoller.triggerId, h.trim before after]
      exact if_neg h.nonempty

end Id

theorem filterMap_triggerId {ids : List String} {items : List Value} (valid : ∀ id ∈ ids, ServerId id)
    (spelled : List.Forall₂ Spells items ids) : items.filterMap triggerId = ids := by
  induction spelled with
  | nil => rfl
  | @cons v id items ids here _ ih =>
      rw [List.filterMap_cons_some ((valid id List.mem_cons_self).triggerId here),
        ih fun id member => valid id (List.mem_cons_of_mem _ member)]

theorem ServerId.spacesForCommas {id : String} (h : ServerId id) :
    ServerPoller.spacesForCommas id.toList = id.toList := by
  refine List.map_congr_left (fun c member => ?_) |>.trans (List.map_id _)
  exact if_neg (digit_solid (h.digits.digits c member)).2

theorem spacesForCommas_append (l m : List Char) : spacesForCommas (l ++ m) = spacesForCommas l ++ spacesForCommas m :=
  List.map_append

theorem spacesForCommas_gap {gap : List Char} (separators : ∀ c ∈ gap, c = ',' ∨ isWhitespace c = true) :
    Blanks (spacesForCommas gap) := by
  intro c member
  obtain ⟨d, inside, rfl⟩ := List.mem_map.mp member
  split
  · exact isWhitespace_space
  · rename_i other
    exact (separators d inside).resolve_left other

theorem Arranged.words {ids : List String} {body : List Char} (h : Arranged ids body)
    (valid : ∀ id ∈ ids, ServerId id) : splitWhitespace (spacesForCommas body) = ids.map String.toList := by
  induction h with
  | nil => rfl
  | single id =>
      have id_ := valid id List.mem_cons_self
      rw [id_.spacesForCommas, splitWhitespace_word id_.digits.full id_.solid]
      rfl
  | @cons id next ids gap rest some_ separators _ ih =>
      have id_ := valid id List.mem_cons_self
      have spaces : spacesForCommas gap ≠ [] := fun empty => some_ (List.map_eq_nil_iff.mp empty)
      rw [spacesForCommas_append, spacesForCommas_append, id_.spacesForCommas,
        splitWhitespace_word_append id_.digits.full id_.solid spaces (spacesForCommas_gap separators),
        ih fun id member => valid id (List.mem_cons_of_mem _ member)]
      rfl

theorem Arranged.ends {ids : List String} {body : List Char} (h : Arranged ids body)
    (valid : ∀ id ∈ ids, ServerId id) :
    (∀ c ∈ body.head?, c.isDigit = true) ∧ (∀ c ∈ body.getLast?, c.isDigit = true) ∧ (body = [] → ids = []) := by
  induction h with
  | nil => exact ⟨nofun, nofun, fun _ => rfl⟩
  | single id =>
      have digits := (valid id List.mem_cons_self).digits
      exact ⟨fun c first => digits.digits c (List.mem_of_mem_head? first),
        fun c last => digits.digits c (List.mem_of_getLast? last), fun empty => absurd empty digits.full⟩
  | @cons id next ids gap rest _ _ _ ih =>
      have digits := (valid id List.mem_cons_self).digits
      obtain ⟨_, last, full⟩ := ih fun id member => valid id (List.mem_cons_of_mem _ member)
      have some_ : rest ≠ [] := fun empty => absurd (full empty) (List.cons_ne_nil next ids)
      refine ⟨fun c first => ?_, fun c final => last c ?_, fun empty => ?_⟩
      · rw [List.append_assoc, List.head?_append_of_ne_nil _ digits.full] at first
        exact digits.digits c (List.mem_of_mem_head? first)
      · rwa [List.getLast?_append_of_ne_nil _ some_] at final
      · exact absurd (List.append_eq_nil_iff.mp empty).2 some_

theorem triggerText_words {content : String} {ids : List String} (valid : ∀ id ∈ ids, ServerId id)
    (words : splitWhitespace (spacesForCommas content.toList) = ids.map String.toList) : triggerText content = ids := by
  have back : (ids.map String.toList).map String.ofList = ids := by
    rw [List.map_map]
    exact (List.map_congr_left fun id _ => String.ofList_toList).trans (List.map_id ids)
  rw [triggerText, words, back]
  exact List.filter_eq_self.mpr fun id member => decide_eq_true (valid id member).nonempty

theorem head?_toLowercase {s : String} {c : Char} (first : s.toList.head? = some c) (ascii : c.toNat < 128) :
    (toLowercase s).toList.head? = some c.toLower := by
  rw [toLowercase, String.toList_ofList]
  cases chars : s.toList with
  | nil =>
      rw [chars] at first
      cases first
  | cons d rest =>
      rw [chars, List.head?_cons, Option.some.injEq] at first
      rw [List.flatMap_cons, first, lowercaseChar, if_pos ascii]
      rfl

/-- What starts with a digit, a bracket or a brace is not one of the words for every server. -/
theorem not_keyword {s : String} {c : Char} (first : s.toList.head? = some c) (ascii : c.toNat < 128)
    (other : c.toLower ≠ 'a' ∧ c.toLower ≠ '*') : s ≠ "" ∧ ¬(toLowercase s = "all" ∨ toLowercase s = "*") := by
  have lower := head?_toLowercase first ascii
  refine ⟨?_, ?_⟩
  · rintro rfl
    cases first
  · rintro (all | star)
    · rw [all] at lower
      exact other.1 (Option.some.inj lower).symm
    · rw [star] at lower
      exact other.2 (Option.some.inj lower).symm

theorem toLower_digit {c : Char} (digit : c.isDigit = true) : c.toLower = c := by
  refine toLower_of_not_upper fun upper => ?_
  have low : 65 ≤ c.toNat := upper.1
  have high := (isDigit_range digit).2
  omega

theorem lowercaseChar_cases (c : Char) :
    lowercaseChar c = [c.toLower] ∨ 'k' ∈ lowercaseChar c ∨ 'i' ∈ lowercaseChar c := by
  unfold lowercaseChar
  split
  · exact .inl rfl
  · rename_i high
    split
    · exact .inr (.inl List.mem_cons_self)
    · split
      · exact .inr (.inr List.mem_cons_self)
      · have same : c.toLower = c := by
          refine toLower_of_not_upper fun upper => high ?_
          have top : c.toNat ≤ 90 := upper.2
          omega
        rw [same]
        exact .inl rfl

/-- A text whose lower case has neither a `k` nor an `i` in it is made lower case letter by letter. -/
theorem toList_toLowercase {s t : String} (lower : toLowercase s = t) (plain : 'k' ∉ t.toList ∧ 'i' ∉ t.toList) :
    s.toList.map Char.toLower = t.toList := by
  rw [← lower, toLowercase, String.toList_ofList] at plain ⊢
  generalize s.toList = l at plain
  induction l with
  | nil => rfl
  | cons c l ih =>
      rw [List.flatMap_cons, List.mem_append, List.mem_append, not_or, not_or] at plain
      obtain ⟨⟨noK, laterK⟩, noI, laterI⟩ := plain
      have one := (lowercaseChar_cases c).resolve_right fun odd => odd.elim noK noI
      rw [List.map_cons, List.flatMap_cons, one, ih ⟨laterK, laterI⟩]
      rfl

section Content
variable {fromStr : String → Option Value} {content : String}

theorem jsonBlank_isWhitespace {c : Char} (blank : jsonBlank c = true) : isWhitespace c = true := by
  simp only [jsonBlank, decide_eq_true_eq] at blank
  rcases blank with rfl | rfl | rfl | rfl <;> decide

theorem trim_dropWhile_jsonBlank (content : String) :
    (trim content).toList.dropWhile jsonBlank = (trim content).toList := by
  cases chars : (trim content).toList with
  | nil => rfl
  | cons c rest =>
      have head : (trimText content.toList).head? = some c := by
        rw [← String.toList_ofList (l := trimText content.toList), ← trim_eq, chars, List.head?_cons]
      refine List.dropWhile_cons_of_neg fun blank => ?_
      exact absurd ((jsonBlank_isWhitespace blank).symm.trans (head?_trimText head)) nofun

theorem parseTriggerContent_json {val : Value} {c : Char} (first : (trim content).toList.head? = some c)
    (opening : c = '\x7b' ∨ c = '[') (read : fromStr (trim content) = some val) :
    parseTriggerContent fromStr content = match some val with
      | some (.object fields) => triggerObject fields
      | some (.array arr) => some (arr.filterMap triggerId)
      | _ => some (triggerText (trim content)) := by
  have plain : c.toNat < 128 ∧ c.toLower ≠ 'a' ∧ c.toLower ≠ '*' := by
    rcases opening with rfl | rfl <;> decide
  obtain ⟨full, other⟩ := not_keyword first plain.1 plain.2
  have json : (trim content).toList.head? = some '\x7b' ∨ (trim content).toList.head? = some '[' := by
    rw [first]
    exact opening.imp (congrArg some) (congrArg some)
  rw [parseTriggerContent]
  dsimp only
  rw [if_neg full, if_neg other, if_pos json, read]

theorem parseTriggerContent_array (reads : ReadsJson fromStr) {items : List Value}
    (read : fromStr (trim content) = some (.array items)) :
    parseTriggerContent fromStr content = some (items.filterMap triggerId) := by
  have first := reads.array _ _ read
  rw [trim_dropWhile_jsonBlank] at first
  rw [parseTriggerContent_json first (.inr rfl) read]

theorem parseTriggerContent_object (reads : ReadsJson fromStr) {fields : List (String × Value)}
    (read : fromStr (trim content) = some (.object fields)) :
    parseTriggerContent fromStr content = triggerObject fields := by
  have first := reads.object _ _ read
  rw [trim_dropWhile_jsonBlank] at first
  rw [parseTriggerContent_json first (.inl rfl) read]

theorem parseTriggerContent_plain {ids : List String} {lead body trail : List Char} (before : Blanks lead)
    (after : Blanks trail) (arranged : Arranged ids body) (valid : ∀ id ∈ ids, ServerId id) :
    parseTriggerContent fromStr (String.ofList (lead ++ body ++ trail)) = some ids := by
  obtain ⟨first, last, full⟩ := arranged.ends valid
  have trimmed : trim (String.ofList (lead ++ body ++ trail)) = String.ofList body := by
    rw [trim_eq, String.toList_ofList, trimText_surrounded before after
      (fun c member => (digit_solid (first c member)).1) (fun c member => (digit_solid (last c member)).1)]
  rw [parseTriggerContent]
  dsimp only
  rw [trimmed, String.toList_ofList]
  cases chars : body with
  | nil =>
      rw [full chars]
      exact if_pos rfl
  | cons c rest =>
      have digit : c.isDigit = true := first c (by rw [chars]; rfl)
      have only : ∀ d : Char, d.isDigit = false → c ≠ d := by
        rintro d other rfl
        exact absurd (digit.symm.trans other) nofun
      have ascii : c.toNat < 128 := by
        have high := (isDigit_range digit).2
        omega
      have head : (String.ofList body).toList.head? = some c := by rw [String.toList_ofList, chars, List.head?_cons]
      have lower : c.toLower ≠ 'a' ∧ c.toLower ≠ '*' := by
        rw [toLower_digit digit]
        exact ⟨only 'a' (by decide), only '*' (by decide)⟩
      obtain ⟨some_, other⟩ := not_keyword head ascii lower
      have text : ¬((c :: rest).head? = some '\x7b' ∨ (c :: rest).head? = some '[') := by
        rw [List.head?_cons, Option.some.injEq, Option.some.injEq]
        exact fun either => either.elim (only _ (by decide)) (only _ (by decide))
      rw [← chars, if_neg some_, if_neg other, chars, if_neg text, ← chars]
      refine congrArg some (triggerText_words valid ?_)
      rw [String.toList_ofList, arranged.words valid]

theorem triggerObject_none {fields : List (String × Value)} :
    triggerObject fields = none ↔ fields.lookup "all" = some (.bool true) := by
  rw [triggerObject]
  split
  · rename_i all
    refine ⟨fun _ => ?_, fun _ => rfl⟩
    cases found : fields.lookup "all" with
    | none =>
        rw [found] at all
        cases all
    | some v =>
        rw [found] at all
        cases v with
        | bool b => exact congrArg (fun b => some (Value.bool b)) all
        | _ => cases all
  · rename_i some_
    refine ⟨nofun, fun all => absurd ?_ some_⟩
    rw [all]
    rfl

/-- An object gives the ids of its `server_ids`, or of its `ids` when it has no `server_ids`. -/
theorem triggerObject_ids {fields : List (String × Value)} {items : List Value}
    (some_ : fields.lookup "all" ≠ some (.bool true))
    (list : fields.lookup "server_ids" = some (.array items) ∨
      fields.lookup "server_ids" = none ∧ fields.lookup "ids" = some (.array items)) :
    triggerObject fields = some (items.filterMap triggerId) := by
  have found : ((fields.lookup "server_ids").or (fields.lookup "ids")).bind Value.asArray = some items := by
    rcases list with first | ⟨absent, second⟩
    · rw [first]
      rfl
    · rw [absent, second]
      rfl
  have not_ : ¬triggerObject fields = none := fun all => some_ (triggerObject_none.mp all)
  rw [triggerObject] at not_ ⊢
  split at not_
  · exact absurd rfl not_
  · rename_i other
    rw [if_neg other, found]
    rfl

theorem parseTriggerContent_none (all : parseTriggerContent fromStr content = none) :
    (trim content).toList.map Char.toLower = "all".toList ∨ (trim content).toList.map Char.toLower = "*".toList ∨
      ∃ fields, fromStr (trim content) = some (.object fields) ∧ fields.lookup "all" = some (.bool true) := by
  rw [parseTriggerContent] at all
  dsimp only at all
  split at all
  · cases all
  · split at all
    · rename_i keyword
      rcases keyword with word | star
      · exact .inl (toList_toLowercase word (by decide))
      · exact .inr (.inl (toList_toLowercase star (by decide)))
    · split at all
      · rename_i fields read
        split at read
        · exact .inr (.inr ⟨fields, read, triggerObject_none.mp all⟩)
        · cases read
      · cases all
      · cases all

end Content

/-- A list of ids is the same list as plain text, as an array and in an object; and only the words for every server,
or an object that says so, mean every server. -/
theorem trigger_spellings {fromStr : String → Option Value} (reads : ReadsJson fromStr) :
    (∀ ids : List String, (∀ id ∈ ids, ServerId id) →
      (∀ lead body trail, Blanks lead → Arranged ids body → Blanks trail →
        parseTriggerContent fromStr (String.ofList (lead ++ body ++ trail)) = some ids) ∧
      ∀ (content : String) (items : List Value), List.Forall₂ Spells items ids →
        (fromStr (trim content) = some (.array items) → parseTriggerContent fromStr content = some ids) ∧
        ∀ fields, fromStr (trim content) = some (.object fields) → fields.lookup "all" ≠ some (.bool true) →
          (fields.lookup "server_ids" = some (.array items) ∨
            fields.lookup "server_ids" = none ∧ fields.lookup "ids" = some (.array items)) →
          parseTriggerContent fromStr content = some ids) ∧
      ∀ content : String, parseTriggerContent fromStr content = none →
        (trim content).toList.map Char.toLower = "all".toList ∨ (trim content).toList.map Char.toLower = "*".toList ∨
          ∃ fields, fromStr (trim content) = some (.object fields) ∧ fields.lookup "all" = some (.bool true) := by
  refine ⟨fun ids valid => ⟨?_, ?_⟩, fun content all => parseTriggerContent_none all⟩
  · exact fun lead body trail before arranged after => parseTriggerContent_plain before after arranged valid
  · intro content items spelled
    have list := filterMap_triggerId valid spelled
    constructor
    · intro read
      rw [parseTriggerContent_array reads read, list]
    · intro fields read some_ found
      rw [parseTriggerContent_object reads read, triggerObject_ids some_ found, list]

def sampleJson (s : String) : Option Value :=
  if s = "[1, \" 20 \"]" then some (.array [.number (.posInt 1), .string " 20 "])
  else if s = "\x7b\"ids\": [1, 20]\x7d" then
    some (.object [("ids", .array [.number (.posInt 1), .number (.posInt 20)])])
  else none

theorem sampleJson_reads : ReadsJson sampleJson := by
  constructor
  · intro s items read
    rw [sampleJson] at read
    split at read
    · rename_i array
      rw [array]
      rfl
    · split at read
      · cases read
      · cases read
  · intro s fields read
    rw [sampleJson] at read
    split at read
    · cases read
    · split at read
      · rename_i object
        rw [object]
        rfl
      · cases read

/-- The same two ids in three notations. -/
theorem trigger_spellings_two :
    parseTriggerContent sampleJson " 1,\n20 " = some ["1", "20"] ∧
      parseTriggerContent sampleJson "[1, \" 20 \"]" = some ["1", "20"] ∧
      parseTriggerContent sampleJson "\x7b\"ids\": [1, 20]\x7d" = some ["1", "20"] := by
  have valid : ∀ id ∈ ["1", "20"], ServerId id := by
    have one : ServerId "1" := ⟨⟨by decide, List.all_eq_true.mp (by decide)⟩, by decide, by decide⟩
    have twenty : ServerId "20" := ⟨⟨by decide, List.all_eq_true.mp (by decide)⟩, by decide, by decide⟩
    simp [one, twenty]
  obtain ⟨plain, json⟩ := (trigger_spellings sampleJson_reads).1 ["1", "20"] valid
  have space : Blanks [' '] := by
    simp [Blanks, isWhitespace_space]
  have gap : ∀ c ∈ [',', '\n'], c = ',' ∨ isWhitespace c = true := by
    simp [isWhitespace]
  have text : " 1,\n20 " = String.ofList ([' '] ++ ("1".toList ++ [',', '\n'] ++ "20".toList) ++ [' ']) := by decide
  have array : trim "[1, \" 20 \"]" = "[1, \" 20 \"]" := by decide
  have object : trim "\x7b\"ids\": [1, 20]\x7d" = "\x7b\"ids\": [1, 20]\x7d" := by decide
  refine ⟨?_, ?_, ?_⟩
  · rw [text]
    exact plain _ _ _ space (.cons (List.cons_ne_nil _ _) gap (.single "20")) space
  · refine (json _ _ (.cons (.number "1") (.cons (.text "20" space space) .nil))).1 ?_
    rw [array]
    exact if_pos rfl
  · have fields : sampleJson (trim "\x7b\"ids\": [1, 20]\x7d") =
        some (.object [("ids", .array [.number (.posInt 1), .number (.posInt 20)])]) := by
      rw [object, sampleJson, if_neg (by decide), if_pos rfl]
    refine (json _ _ (.cons (.number "1") (.cons (.number "20") .nil))).2 _ fields ?_ (.inr ⟨rfl, rfl⟩)
    intro all
    cases all

end ServerPoller
