/-
ScopeLisp.Proofs.Syntax.LexicalGrammar — how lexemes are written.

The words of a text are said as languages over characters (`Pattern.language`), without
reference to the scanner. What it takes for a word to be in one of these languages is
then brought down to its characters, and to the counts that the scanner goes by: no tail
of a number that stands in a text is longer than `numberTail`, no run of characters of
one kind is longer than the longest.
-/
import Mathlib.Computability.Language
import ScopeLisp.Proofs.Syntax.Scanning

namespace ScopeLisp

open Computability

/-! ## The patterns -/

/-- One character with a property. -/
def oneWith (P : Char → Prop) : Language Char := {w | ∃ c, P c ∧ w = [c]}

def oneOf (chars : List Char) : Language Char := oneWith (· ∈ chars)

def noneOf (chars : List Char) : Language Char := oneWith (· ∉ chars)

/-- The patterns that words of a text are matched against. -/
inductive Pattern
  | blank
  | comment
  | leftParen
  | rightParen
  | number
  | string
  | symbol
deriving DecidableEq

namespace Pattern

def blanks : List Char := [' ', '\t', '\r', '\n', '\x0c']

def delimiters : List Char := ['(', ')', '"', ';']

def digits : List Char := ['0', '1', '2', '3', '4', '5', '6', '7', '8', '9']

/-- Digits, at least one. -/
def digitRun : Language Char := oneOf digits * (oneOf digits)∗

/-- Digits, and perhaps a point with digits after it. -/
def unsigned : Language Char := digitRun * (1 + oneOf ['.'] * digitRun)

/-- What a string is made of: a character other than quote and backslash, or a
backslash with any character but a line end. -/
def stringUnit : Language Char := noneOf ['"', '\\'] + oneOf ['\\'] * noneOf ['\n']

/-- The words that a pattern matches. -/
def language : Pattern → Language Char
  | blank => oneOf blanks * (oneOf blanks)∗
  | comment => oneOf [';'] * (noneOf ['\n'])∗
  | leftParen => oneOf ['(']
  | rightParen => oneOf [')']
  | number => (1 + oneOf ['-']) * unsigned
  | string => oneOf ['"'] * (stringUnit∗ * oneOf ['"'])
  | symbol => noneOf (blanks ++ delimiters ++ digits) * (noneOf (blanks ++ delimiters))∗

/-- The kind of token that a pattern stands for; blanks and comments are skipped. -/
def kind? : Pattern → Option TokenKind
  | blank => none
  | comment => none
  | leftParen => some .leftParen
  | rightParen => some .rightParen
  | number => some .number
  | string => some .string
  | symbol => some .symbol

/-- The text between tokens. -/
def skipped : Language Char := (blank.language + comment.language)∗

end Pattern

/-! ### Words, character by character -/

section words

variable {P : Char → Prop} {L : Language Char} {c d : Char} {v w : List Char}

theorem nil_not_mem_oneWith_mul : [] ∉ oneWith P * L := by
  rintro ⟨_, ⟨c, -, rfl⟩, v, -, h⟩
  cases h

theorem cons_mem_oneWith_mul : c :: v ∈ oneWith P * L ↔ P c ∧ v ∈ L := by
  rw [Language.mem_mul]
  constructor
  · rintro ⟨_, ⟨d, hd, rfl⟩, u, hu, h⟩
    obtain ⟨rfl, rfl⟩ := List.cons.inj h
    exact ⟨hd, hu⟩
  · rintro ⟨hc, hv⟩
    exact ⟨[c], ⟨c, hc, rfl⟩, v, hv, rfl⟩

theorem cons_mem_oneWith : c :: v ∈ oneWith P ↔ P c ∧ v = [] := by
  constructor
  · rintro ⟨d, hd, h⟩
    obtain ⟨rfl, rfl⟩ := List.cons.inj h
    exact ⟨hd, rfl⟩
  · rintro ⟨hc, rfl⟩
    exact ⟨c, hc, rfl⟩

theorem mem_oneWith_kstar : w ∈ (oneWith P)∗ ↔ ∀ c ∈ w, P c := by
  rw [Language.mem_kstar]
  constructor
  · rintro ⟨words, rfl, h⟩ c hc
    obtain ⟨v, hv, hc⟩ := List.mem_flatten.1 hc
    obtain ⟨d, hd, rfl⟩ := h v hv
    rwa [List.mem_singleton.1 hc]
  · intro h
    refine ⟨w.map ([·]), by simp [← List.flatMap_def], ?_⟩
    intro v hv
    obtain ⟨c, hc, rfl⟩ := List.mem_map.1 hv
    exact ⟨c, h c hc, rfl⟩

theorem append_mem_kstar (hv : v ∈ L∗) (hw : w ∈ L∗) : v ++ w ∈ L∗ := by
  rw [← kstar_mul_kstar]
  exact Language.append_mem_mul hv hw

theorem mem_kstar_of_mem (h : w ∈ L) : w ∈ L∗ := le_kstar (a := L) h

end words

namespace Pattern

variable {c : Char} {v w : List Char} {p q : Pattern}

theorem mem_blanks : c ∈ blanks ↔ isLayout c = true := by
  simp [blanks, isLayout, or_assoc]

theorem mem_digits : c ∈ digits ↔ c.isDigit = true := by
  constructor
  · intro h
    exact List.all_eq_true.1 (by decide : digits.all Char.isDigit = true) c h
  · intro h
    have range : 48 ≤ c.toNat ∧ c.toNat ≤ 57 := by
      simpa [Char.isDigit, UInt32.le_iff_toNat_le] using h
    have code : c.toNat ∈ List.range' 48 10 := by
      rw [List.mem_range'_1]
      omega
    have all : (List.range' 48 10).all (Char.ofNat · ∈ digits) = true := by decide
    rw [← Char.ofNat_toNat c]
    exact of_decide_eq_true (List.all_eq_true.1 all _ code)

theorem not_mem_delimiters : c ∉ blanks ++ delimiters ↔ isSymbolChar c = true := by
  rw [isSymbolChar_iff, List.mem_append, mem_blanks]
  simp [delimiters]

/-! ### The patterns, character by character -/

theorem nil_not_mem_unsigned : [] ∉ unsigned := by
  rw [unsigned, digitRun, mul_assoc]
  exact nil_not_mem_oneWith_mul

theorem nil_not_mem : [] ∉ p.language := by
  cases p with
  | blank => exact nil_not_mem_oneWith_mul
  | comment => exact nil_not_mem_oneWith_mul
  | leftParen => exact fun ⟨_, _, h⟩ => nomatch h
  | rightParen => exact fun ⟨_, _, h⟩ => nomatch h
  | number =>
    rintro ⟨sign, -, word, hword, h⟩
    obtain ⟨-, rfl⟩ := List.append_eq_nil_iff.1 h
    exact nil_not_mem_unsigned hword
  | string => exact nil_not_mem_oneWith_mul
  | symbol => exact nil_not_mem_oneWith_mul

theorem cons_mem_blank :
    c :: v ∈ blank.language ↔ isLayout c = true ∧ ∀ d ∈ v, isLayout d = true := by
  simp only [language, oneOf, cons_mem_oneWith_mul, mem_oneWith_kstar, mem_blanks]

theorem cons_mem_comment : c :: v ∈ comment.language ↔ c = ';' ∧ '\n' ∉ v := by
  simp only [language, oneOf, noneOf, cons_mem_oneWith_mul, mem_oneWith_kstar,
    List.mem_singleton, List.forall_mem_ne']

theorem cons_mem_leftParen : c :: v ∈ leftParen.language ↔ c = '(' ∧ v = [] := by
  simp only [language, oneOf, cons_mem_oneWith, List.mem_singleton]

theorem cons_mem_rightParen : c :: v ∈ rightParen.language ↔ c = ')' ∧ v = [] := by
  simp only [language, oneOf, cons_mem_oneWith, List.mem_singleton]

theorem cons_mem_symbol :
    c :: v ∈ symbol.language ↔
      (isSymbolChar c = true ∧ c.isDigit = false) ∧ ∀ d ∈ v, isSymbolChar d = true := by
  simp only [language, noneOf, cons_mem_oneWith_mul, mem_oneWith_kstar,
    List.mem_append (s := blanks ++ delimiters)]
  simp only [not_or, not_mem_delimiters, mem_digits, Bool.not_eq_true]

/-- Whole units of a string are a run of units. -/
theorem mem_stringUnit_kstar : w ∈ stringUnit∗ ↔ StringBody w := by
  constructor
  · rw [Language.mem_kstar]
    rintro ⟨units, rfl, h⟩
    induction units with
    | nil => exact .nil
    | cons unit units ih =>
      obtain ⟨hunit, hunits⟩ := List.forall_mem_cons.1 h
      rcases (Language.mem_add _ _ _).1 hunit with
        ⟨c, hc, rfl⟩ | ⟨_, ⟨b, hb, rfl⟩, _, ⟨c, hc, rfl⟩, rfl⟩
      · simp only [List.mem_cons, List.not_mem_nil, or_false, not_or] at hc
        exact .plain hc.1 hc.2 (ih hunits)
      · obtain rfl := List.mem_singleton.1 hb
        exact .escaped (fun h => hc (List.mem_singleton.2 h)) (ih hunits)
  · intro h
    induction h with
    | nil => exact Language.nil_mem_kstar stringUnit
    | @plain c cs quote backslash _ ih =>
      have unit : [c] ∈ stringUnit :=
        (Language.mem_add _ _ _).2 (.inl ⟨c, by simp [quote, backslash], rfl⟩)
      exact append_mem_kstar (mem_kstar_of_mem unit) ih
    | @escaped c cs newline _ ih =>
      have unit : ['\\', c] ∈ stringUnit :=
        (Language.mem_add _ _ _).2 (.inr ⟨_, ⟨_, List.mem_singleton_self _, rfl⟩, [c],
          ⟨c, by simp [newline], rfl⟩, rfl⟩)
      exact append_mem_kstar (mem_kstar_of_mem unit) ih

theorem cons_mem_string :
    c :: v ∈ string.language ↔ c = '"' ∧ ∃ units, StringBody units ∧ v = units ++ ['"'] := by
  rw [language, oneOf, cons_mem_oneWith_mul, List.mem_singleton, Language.mem_mul]
  simp only [mem_stringUnit_kstar]
  refine and_congr_right fun _ => ⟨?_, ?_⟩
  · rintro ⟨units, hunits, _, ⟨d, hd, rfl⟩, rfl⟩
    exact ⟨units, hunits, by rw [List.mem_singleton.1 hd]⟩
  · rintro ⟨units, hunits, rfl⟩
    exact ⟨units, hunits, _, ⟨_, List.mem_singleton_self _, rfl⟩, rfl⟩

end Pattern

/-- What can follow the first digit of a number: digits, and a point with digits
after it. -/
inductive NumberTail : List Char → Prop
  | whole {ds : List Char} (hds : ∀ d ∈ ds, d.isDigit = true) : NumberTail ds
  | point {ds fs : List Char} (hds : ∀ d ∈ ds, d.isDigit = true)
    (hfs : ∀ f ∈ fs, f.isDigit = true) (nonempty : fs ≠ []) : NumberTail (ds ++ '.' :: fs)

/-- The scanner takes such a tail after the first digit. -/
theorem numberTail_take (cs : List Char) : NumberTail (cs.take (numberTail cs)) := by
  have digits (cs : List Char) : ∀ d ∈ cs.takeWhile Char.isDigit, d.isDigit = true :=
    List.all_eq_true.1 List.all_takeWhile
  rcases numberTail_cases cs with tail | ⟨rest, point, nonempty, tail⟩
  · rw [tail, take_takeWhile_length]
    exact .whole (digits cs)
  · rw [tail, Nat.add_assoc, List.take_add, take_takeWhile_length, drop_takeWhile_length, point,
      Nat.add_comm 1, List.take_succ_cons, take_takeWhile_length]
    exact .point (digits cs) (digits rest) nonempty

/-- A run of characters of one kind is no longer than the longest. -/
theorem length_le_takeWhile {p : Char → Bool} {v cs : List Char} (hv : ∀ c ∈ v, p c = true)
    (h : v <+: cs) : v.length ≤ (cs.takeWhile p).length := by
  obtain ⟨rest, rfl⟩ := h
  rw [List.takeWhile_append_of_pos hv, List.length_append]
  exact Nat.le_add_right ..

/-- No tail that stands here is longer than the one that the scanner takes. -/
theorem NumberTail.length_le {v cs : List Char} (hv : NumberTail v) (h : v <+: cs) :
    v.length ≤ numberTail cs := by
  cases hv with
  | whole hds =>
    refine (length_le_takeWhile hds h).trans ?_
    rcases numberTail_cases cs with tail | ⟨_, -, -, tail⟩ <;> omega
  | @point ds fs hds hfs nonempty =>
    obtain ⟨rest, rfl⟩ := h
    have digits := length_le_takeWhile hfs (List.prefix_append fs rest)
    have fraction : (fs ++ rest).takeWhile Char.isDigit ≠ [] := by
      rw [← List.length_pos_iff] at nonempty ⊢
      omega
    have tail : numberTail (ds ++ '.' :: (fs ++ rest)) =
        ds.length + 1 + ((fs ++ rest).takeWhile Char.isDigit).length := by
      simp [numberTail, List.takeWhile_append_of_pos hds, List.dropWhile_append_of_pos hds,
        fraction]
    rw [List.append_assoc, List.cons_append, tail, List.length_append, List.length_cons]
    omega

namespace Pattern

variable {c : Char} {v : List Char}

theorem mem_digitRun : c :: v ∈ digitRun ↔ ∀ d ∈ c :: v, d.isDigit = true := by
  simp only [digitRun, oneOf, cons_mem_oneWith_mul, mem_oneWith_kstar, mem_digits,
    List.forall_mem_cons]

theorem cons_mem_unsigned : c :: v ∈ unsigned ↔ c.isDigit = true ∧ NumberTail v := by
  rw [unsigned, digitRun, mul_assoc, oneOf, cons_mem_oneWith_mul, mem_digits]
  refine and_congr_right fun _ => ⟨?_, fun h => ?_⟩
  · intro h
    obtain ⟨ds, hds, tail, htail, rfl⟩ := Language.mem_mul.1 h
    simp only [mem_oneWith_kstar, mem_digits] at hds
    rcases (Language.mem_add _ _ _).1 htail with rfl | ⟨_, ⟨point, hpoint, rfl⟩, fs, hfs, rfl⟩
    · rw [List.append_nil]
      exact .whole hds
    · obtain rfl := List.mem_singleton.1 hpoint
      cases fs with
      | nil => exact absurd hfs nil_not_mem_oneWith_mul
      | cons f fs => exact .point hds (mem_digitRun.1 hfs) (List.cons_ne_nil f fs)
  · cases h with
    | whole hds =>
      have digits : v ∈ (oneWith (· ∈ digits))∗ := by simpa only [mem_oneWith_kstar, mem_digits]
      exact ⟨v, digits, [], (Language.mem_add _ _ _).2 (.inl rfl), List.append_nil v⟩
    | @point ds fs hds hfs nonempty =>
      have whole : ds ∈ (oneWith (· ∈ digits))∗ := by simpa only [mem_oneWith_kstar, mem_digits]
      have fraction : '.' :: fs ∈ 1 + oneOf ['.'] * digitRun := by
        refine (Language.mem_add _ _ _).2 (.inr (cons_mem_oneWith_mul.2 ⟨by simp, ?_⟩))
        cases fs with
        | nil => exact absurd rfl nonempty
        | cons f fs => exact mem_digitRun.2 hfs
      exact ⟨ds, whole, '.' :: fs, fraction, rfl⟩

theorem cons_mem_number :
    c :: v ∈ number.language ↔
      (c.isDigit = true ∧ NumberTail v) ∨
        (c = '-' ∧ ∃ d u, v = d :: u ∧ d.isDigit = true ∧ NumberTail u) := by
  rw [language, add_mul, one_mul, Language.mem_add, cons_mem_unsigned, oneOf,
    cons_mem_oneWith_mul, List.mem_singleton]
  refine or_congr_right (and_congr_right fun _ => ?_)
  cases v with
  | nil => simp [nil_not_mem_unsigned]
  | cons d u => simp [cons_mem_unsigned]

/-! ### Which pattern a word can match -/

/-- The pattern of the words that start with `c`, numbers apart. -/
def startedBy (c : Char) : Pattern :=
  if isLayout c then .blank
  else if c = ';' then .comment
  else if c = '(' then .leftParen
  else if c = ')' then .rightParen
  else if c = '"' then .string
  else .symbol

theorem startedBy_layout (h : isLayout c = true) : startedBy c = .blank := if_pos h

theorem startedBy_symbolChar (h : isSymbolChar c = true) : startedBy c = .symbol := by
  obtain ⟨layout, left, right, quote, semicolon⟩ := isSymbolChar_iff.1 h
  simp [startedBy, layout, left, right, quote, semicolon]

theorem eq_startedBy {p : Pattern} (h : c :: v ∈ p.language) :
    p = startedBy c ∨ p = .number ∧ startedBy c = .symbol := by
  cases p with
  | blank => exact .inl (startedBy_layout (cons_mem_blank.1 h).1).symm
  | comment =>
    obtain ⟨rfl, -⟩ := cons_mem_comment.1 h
    exact .inl rfl
  | leftParen =>
    obtain ⟨rfl, -⟩ := cons_mem_leftParen.1 h
    exact .inl rfl
  | rightParen =>
    obtain ⟨rfl, -⟩ := cons_mem_rightParen.1 h
    exact .inl rfl
  | string =>
    obtain ⟨rfl, -⟩ := cons_mem_string.1 h
    exact .inl rfl
  | number =>
    rcases cons_mem_number.1 h with ⟨digit, -⟩ | ⟨rfl, -⟩
    · exact .inr ⟨rfl, startedBy_symbolChar (isSymbolChar_of_isDigit digit)⟩
    · exact .inr ⟨rfl, rfl⟩
  | symbol => exact .inl (startedBy_symbolChar (cons_mem_symbol.1 h).1.1).symm

end Pattern

end ScopeLisp
