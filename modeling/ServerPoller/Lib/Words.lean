import ServerPoller.Lib.RustText
import ServerPoller.Lib.Utf8
import Mathlib.Data.List.Chain

/-! Texts made of words: `split_whitespace` and `join`, the texts that they leave as they are, and the
functions that trim a text. -/

namespace RustText
open Utf8

def splitWhitespace (s : Text) : List Text := (s.splitOnP isWhitespace).filter fun word => !word.isEmpty

def joinWords (words : List Text) : Text := [' '].intercalate words

def trimStart (s : Text) : Text := s.dropWhile isWhitespace

def trimText (s : Text) : Text := (trimStart s).rdropWhile isWhitespace

/-- Takes a text off the front for as long as it is there, `n` times at most. -/
def stripPrefixes (pattern : Text) : Nat → Text → Text
  | 0, s => s
  | n+1, s => if pattern <+: s then stripPrefixes pattern n (s.drop pattern.length) else s

def trimEndMatches (pattern s : Text) : Text := (stripPrefixes pattern.reverse s.length s.reverse).reverse

theorem trimText_part (s : Text) : trimText s <:+: s :=
  (List.rdropWhile_prefix isWhitespace _).isInfix.trans (List.dropWhile_suffix isWhitespace).isInfix

theorem trim_eq (s : String) : trim s = String.ofList (trimText s.toList) := rfl

private theorem dropWhile_eq_self {p : Char → Bool} {s : Text} (first : ∀ c ∈ s.head?, p c = false) :
    s.dropWhile p = s := by
  cases s with
  | nil => rfl
  | cons c s => exact List.dropWhile_cons_of_neg (by simp [first c rfl])

/-- What stands between blanks, without blanks at its own ends, is what trimming leaves. -/
theorem trimText_surrounded {lead body trail : Text} (before : ∀ c ∈ lead, isWhitespace c = true)
    (after : ∀ c ∈ trail, isWhitespace c = true) (first : ∀ c ∈ body.head?, isWhitespace c = false)
    (last : ∀ c ∈ body.getLast?, isWhitespace c = false) : trimText (lead ++ body ++ trail) = body := by
  have back : (body ++ trail).rdropWhile isWhitespace = body := by
    rw [List.rdropWhile, List.reverse_append,
      List.dropWhile_append_of_pos fun c member => after c (List.mem_reverse.mp member),
      dropWhile_eq_self (by rwa [List.head?_reverse]), List.reverse_reverse]
  rw [trimText, trimStart, List.append_assoc, List.dropWhile_append_of_pos before]
  cases body with
  | nil =>
      rw [List.nil_append, List.dropWhile_eq_nil_iff.mpr after]
      rfl
  | cons c body => rw [dropWhile_eq_self (by simpa using first), back]

theorem head?_trimText {s : Text} {c : Char} (head : (trimText s).head? = some c) : isWhitespace c = false := by
  obtain ⟨rest, eq⟩ := List.rdropWhile_prefix isWhitespace (trimStart s)
  have front : (trimStart s).head? = some c := by
    rw [← eq, List.head?_append, ← trimText, head]
    rfl
  have dark := List.head?_dropWhile_not isWhitespace s
  rw [← trimStart, front] at dark
  exact dark

theorem getLast?_trimText {s : Text} {c : Char} (last : (trimText s).getLast? = some c) : isWhitespace c = false := by
  have full : (trimStart s).rdropWhile isWhitespace ≠ [] := by
    intro empty
    rw [trimText, empty] at last
    cases last
  have dark := List.rdropWhile_last_not isWhitespace _ full
  rw [trimText, List.getLast?_eq_some_getLast full] at last
  rw [Option.some.inj last] at dark
  exact Bool.eq_false_iff.mpr dark

theorem trimEndMatches_eq_self {pattern s : Text} (other : ¬pattern <:+ s) : trimEndMatches pattern s = s := by
  rw [trimEndMatches]
  cases length : s.length with
  | zero => exact List.reverse_reverse s
  | succ n => rw [stripPrefixes, if_neg (fun here => other (List.reverse_prefix.mp here)), List.reverse_reverse]

/-- What taking the pattern off the end once keeps, taking it off again and again keeps. -/
theorem trimEndMatches_keeps {P : Text → Prop} {pattern : Text} (keep : ∀ t, P (t ++ pattern) → P t)
    {s : Text} (start : P s) : P (trimEndMatches pattern s) := by
  have general : ∀ n t, P t.reverse → P (stripPrefixes pattern.reverse n t).reverse := by
    intro n
    induction n with
    | zero => exact fun t h => h
    | succ n ih =>
        intro t h
        rw [stripPrefixes]
        split
        · rename_i here
          obtain ⟨rest, rfl⟩ := here
          rw [List.drop_left]
          rw [List.reverse_append, List.reverse_reverse] at h
          exact ih rest (keep _ h)
        · exact h
  exact general s.length s.reverse (by rwa [List.reverse_reverse])

/-- A text of words that stand one space apart. -/
structure Tidy (s : Text) : Prop where
  blank : ∀ c ∈ s, isWhitespace c = true → c = ' '
  apart : s.IsChain fun a b => ¬(a = ' ' ∧ b = ' ')
  head : s.head? ≠ some ' '
  last : s.getLast? ≠ some ' '

theorem isWhitespace_space : isWhitespace ' ' = true := by decide

theorem splitWhitespace_words {s word : Text} (member : word ∈ splitWhitespace s) :
    word ≠ [] ∧ ∀ c ∈ word, isWhitespace c = false ∧ c ∈ s := by
  obtain ⟨piece, full⟩ := List.mem_filter.mp member
  refine ⟨by simpa using full, ?_⟩
  clear member full
  induction s generalizing word with
  | nil =>
      rw [List.splitOnP_nil, List.mem_singleton] at piece
      rw [piece]
      exact fun c none => (List.not_mem_nil none).elim
  | cons c s ih =>
      have further : ∀ {w : Text}, w ∈ s.splitOnP isWhitespace → ∀ d ∈ w, isWhitespace d = false ∧ d ∈ c :: s :=
        fun later d inside => ⟨(ih later d inside).1, List.mem_cons_of_mem c (ih later d inside).2⟩
      rw [List.splitOnP_cons_eq_if_modifyHead] at piece
      split at piece
      · rcases List.mem_cons.mp piece with rfl | later
        · exact fun c none => (List.not_mem_nil none).elim
        · exact further later
      · rename_i solid
        cases pieces : s.splitOnP isWhitespace with
        | nil => exact absurd pieces (List.splitOnP_ne_nil _ _)
        | cons first rest =>
            rw [pieces, List.modifyHead_cons] at piece
            rw [pieces] at further
            rcases List.mem_cons.mp piece with rfl | later
            · intro d member
              rcases List.mem_cons.mp member with rfl | inner
              · exact ⟨by simpa using solid, List.mem_cons_self⟩
              · exact further List.mem_cons_self d inner
            · exact further (List.mem_cons_of_mem first later)

section Blanks
variable {word blanks : Text}

theorem splitWhitespace_cons {c : Char} (blank : isWhitespace c = true) (rest : Text) :
    splitWhitespace (c :: rest) = splitWhitespace rest := by
  rw [splitWhitespace, List.splitOnP_cons_eq_if_modifyHead, if_pos blank]
  rfl

theorem splitWhitespace_blanks (blank : ∀ c ∈ blanks, isWhitespace c = true) (rest : Text) :
    splitWhitespace (blanks ++ rest) = splitWhitespace rest := by
  induction blanks with
  | nil => rfl
  | cons c blanks ih =>
      rw [List.cons_append, splitWhitespace_cons (blank c List.mem_cons_self),
        ih fun d member => blank d (List.mem_cons_of_mem c member)]

theorem splitWhitespace_word (full : word ≠ []) (solid : ∀ c ∈ word, isWhitespace c = false) :
    splitWhitespace word = [word] := by
  rw [splitWhitespace, List.splitOnP_eq_singleton solid, List.filter_cons_of_pos (by simpa using full), List.filter_nil]

theorem splitWhitespace_word_append (full : word ≠ []) (solid : ∀ c ∈ word, isWhitespace c = false)
    (gap : blanks ≠ []) (blank : ∀ c ∈ blanks, isWhitespace c = true) (rest : Text) :
    splitWhitespace (word ++ blanks ++ rest) = word :: splitWhitespace rest := by
  cases blanks with
  | nil => exact absurd rfl gap
  | cons c blanks =>
      rw [List.append_assoc, List.cons_append, splitWhitespace,
        List.splitOnP_append_cons_of_forall_mem solid c (blank c List.mem_cons_self),
        List.filter_cons_of_pos (by simpa using full), ← splitWhitespace,
        splitWhitespace_blanks fun d member => blank d (List.mem_cons_of_mem c member)]

end Blanks

theorem joinWords_singleton (word : Text) : joinWords [word] = word := List.intercalate_singleton ..

theorem joinWords_cons (word next : Text) (words : List Text) :
    joinWords (word :: next :: words) = word ++ ' ' :: joinWords (next :: words) := by
  rw [joinWords, List.intercalate_cons_cons, List.append_assoc]
  rfl

theorem mem_joinWords {words : List Text} {c : Char} (member : c ∈ joinWords words) :
    c = ' ' ∨ ∃ word ∈ words, c ∈ word := by
  induction words with
  | nil => cases member
  | cons word words ih =>
      cases words with
      | nil =>
          rw [joinWords_singleton] at member
          exact .inr ⟨word, List.mem_cons_self, member⟩
      | cons next words =>
          rw [joinWords_cons] at member
          rcases List.mem_append.mp member with inside | outside
          · exact .inr ⟨word, List.mem_cons_self, inside⟩
          · rcases List.mem_cons.mp outside with rfl | later
            · exact .inl rfl
            · obtain space | ⟨w, member, inside⟩ := ih later
              · exact .inl space
              · exact .inr ⟨w, List.mem_cons_of_mem word member, inside⟩

/-- The size of a text of these words with a space after each. -/
private def spelled : List Text → Nat
  | [] => 0
  | word :: words => size word + 1 + spelled words

private theorem spelled_splitOnP (s : Text) : spelled (s.splitOnP isWhitespace) ≤ size s + 1 := by
  induction s with
  | nil => exact le_rfl
  | cons c s ih =>
      have width := c.utf8Size_pos
      rw [List.splitOnP_cons_eq_if_modifyHead, size_cons]
      split
      · rw [spelled, size_nil]
        omega
      · cases pieces : s.splitOnP isWhitespace with
        | nil => exact absurd pieces (List.splitOnP_ne_nil _ _)
        | cons first rest =>
            rw [pieces, spelled] at ih
            rw [List.modifyHead_cons, spelled, size_cons]
            omega

private theorem spelled_filter (p : Text → Bool) (words : List Text) : spelled (words.filter p) ≤ spelled words := by
  induction words with
  | nil => exact le_rfl
  | cons word words ih =>
      rw [List.filter_cons, spelled]
      split
      · rw [spelled]
        omega
      · omega

private theorem size_joinWords (words : List Text) : size (joinWords words) ≤ spelled words - 1 := by
  induction words with
  | nil => exact Nat.zero_le _
  | cons word words ih =>
      cases words with
      | nil =>
          rw [joinWords_singleton, spelled]
          omega
      | cons next words =>
          have space : ' '.utf8Size = 1 := rfl
          rw [spelled] at ih
          rw [joinWords_cons, size_append, size_cons, space, spelled, spelled]
          omega

theorem size_joinWords_splitWhitespace (s : Text) : size (joinWords (splitWhitespace s)) ≤ size s := by
  have pieces := spelled_splitOnP s
  have fewer := spelled_filter (fun word => !word.isEmpty) (s.splitOnP isWhitespace)
  have joined := size_joinWords (splitWhitespace s)
  rw [← splitWhitespace] at fewer
  omega

theorem tidy_word {word : Text} (solid : ∀ c ∈ word, isWhitespace c = false) : Tidy word := by
  have dark : ∀ c ∈ word, c ≠ ' ' := by
    rintro c inside rfl
    have light := solid ' ' inside
    rw [isWhitespace_space] at light
    cases light
  refine ⟨fun c inside white => ?_, ?_, ?_, ?_⟩
  · rw [solid c inside] at white
    cases white
  · exact (List.pairwise_of_forall_mem_list fun a first b _ (both : a = ' ' ∧ b = ' ') =>
      dark a first both.1).isChain
  · exact fun head => dark ' ' (List.mem_of_head? head) rfl
  · exact fun last => dark ' ' (List.mem_of_getLast? last) rfl

theorem Tidy.join {first later : Text} (h : Tidy first) (k : Tidy later) (full : first ≠ []) (more : later ≠ []) :
    Tidy (first ++ ' ' :: later) := by
  refine ⟨?_, ?_, ?_, ?_⟩
  · intro c member white
    rcases List.mem_append.mp member with inside | outside
    · exact h.blank c inside white
    · rcases List.mem_cons.mp outside with rfl | further
      · rfl
      · exact k.blank c further white
  · refine List.isChain_append.mpr ⟨h.apart, List.isChain_cons.mpr ⟨?_, k.apart⟩, ?_⟩
    · rintro c head ⟨_, rfl⟩
      exact k.head head
    · rintro c last _ _ ⟨rfl, _⟩
      exact h.last last
  · rw [List.head?_append_of_ne_nil _ full]
    exact h.head
  · rw [List.getLast?_append_of_ne_nil _ (List.cons_ne_nil ' ' _), List.getLast?_cons_of_ne_nil more]
    exact k.last

theorem joinWords_ne_nil {word : Text} (full : word ≠ []) (words : List Text) : joinWords (word :: words) ≠ [] := by
  cases words with
  | nil => rwa [joinWords_singleton]
  | cons next words =>
      rw [joinWords_cons]
      exact fun empty => full (List.append_eq_nil_iff.mp empty).1

theorem tidy_joinWords {words : List Text} (solid : ∀ word ∈ words, word ≠ [] ∧ ∀ c ∈ word, isWhitespace c = false) :
    Tidy (joinWords words) := by
  induction words with
  | nil => exact ⟨fun c none => (List.not_mem_nil none).elim, .nil, nofun, nofun⟩
  | cons word words ih =>
      obtain ⟨full, dark⟩ := solid word List.mem_cons_self
      cases words with
      | nil =>
          rw [joinWords_singleton]
          exact tidy_word dark
      | cons next words =>
          have later := ih fun w member => solid w (List.mem_cons_of_mem word member)
          have more := (solid next (List.mem_cons_of_mem word List.mem_cons_self)).1
          rw [joinWords_cons]
          exact (tidy_word dark).join later full (joinWords_ne_nil more words)

private theorem splitOnP_congr {p q : Char → Bool} {s : Text} (same : ∀ c ∈ s, p c = q c) :
    s.splitOnP p = s.splitOnP q := by
  induction s with
  | nil => rfl
  | cons c s ih =>
      rw [List.splitOnP_cons_eq_if_modifyHead, List.splitOnP_cons_eq_if_modifyHead, same c List.mem_cons_self,
        ih fun d member => same d (List.mem_cons_of_mem c member)]

private theorem nil_notMem_tail_splitOn {s : Text} (apart : s.IsChain fun a b => ¬(a = ' ' ∧ b = ' '))
    (last : s.getLast? ≠ some ' ') : [] ∉ (s.splitOn ' ').tail := by
  induction s with
  | nil => exact List.not_mem_nil
  | cons c s ih =>
      rw [List.splitOn_cons_eq_if_modifyHead]
      cases s with
      | nil => split <;> simp_all
      | cons d s =>
          rw [List.getLast?_cons_cons] at last
          obtain ⟨step, apart'⟩ := List.isChain_cons_cons.mp apart
          have later := ih apart' last
          have pieces := List.splitOn_cons_eq_if_modifyHead (a := ' ') d s
          split
          · rename_i space
            have solid : ¬(d == ' ') = true := fun other => step ⟨eq_of_beq space, eq_of_beq other⟩
            rw [if_neg solid] at pieces
            cases rest : s.splitOn ' ' with
            | nil => exact absurd rest (List.splitOn_ne_nil _ _)
            | cons first rest' =>
                rw [pieces, rest, List.modifyHead_cons] at later ⊢
                intro member
                rcases List.mem_cons.mp member with clash | more
                · cases clash
                · exact later more
          · rwa [List.tail_modifyHead]

theorem joinWords_splitWhitespace {s : Text} (tidy : Tidy s) : joinWords (splitWhitespace s) = s := by
  cases s with
  | nil => rfl
  | cons c s =>
      have split : (c :: s).splitOnP isWhitespace = (c :: s).splitOn ' ' := by
        rw [List.splitOn_eq_splitOnP]
        refine splitOnP_congr fun d member => Bool.eq_iff_iff.mpr ⟨fun white => ?_, fun space => ?_⟩
        · exact beq_iff_eq.mpr (tidy.blank d member white)
        · rw [eq_of_beq space, isWhitespace_space]
      have solid : ¬(c == ' ') = true := fun space => tidy.head (by rw [eq_of_beq space]; rfl)
      have full : [] ∉ (c :: s).splitOn ' ' := by
        have later := nil_notMem_tail_splitOn tidy.apart tidy.last
        rw [List.splitOn_cons_eq_if_modifyHead, if_neg solid] at later ⊢
        cases rest : s.splitOn ' ' with
        | nil => exact absurd rest (List.splitOn_ne_nil _ _)
        | cons first rest' =>
            rw [rest, List.modifyHead_cons] at later
            rw [List.modifyHead_cons]
            intro member
            rcases List.mem_cons.mp member with clash | more
            · cases clash
            · exact later more
      have kept : ((c :: s).splitOn ' ').filter (fun word => !word.isEmpty) = (c :: s).splitOn ' ' := by
        refine List.filter_eq_self.mpr fun word member => ?_
        cases word with
        | nil => exact absurd member full
        | cons _ _ => rfl
      rw [joinWords, splitWhitespace, split, kept, List.intercalate_splitOn]

theorem Tidy.trimText {s part : Text} (tidy : Tidy s) (within : part <:+: s) : Tidy (trimText part) := by
  have inside := (trimText_part part).trans within
  refine ⟨fun c member => tidy.blank c (inside.subset member), tidy.apart.infix inside, ?_, ?_⟩
  · exact fun head => absurd (isWhitespace_space.symm.trans (head?_trimText head)) nofun
  · exact fun last => absurd (isWhitespace_space.symm.trans (getLast?_trimText last)) nofun

end RustText
