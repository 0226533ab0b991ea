/-
ScopeLisp.Proofs.Syntax.MaximalMunch — scanning is maximal munch over the lexical grammar.

A text is munched by taking, again and again, the longest word that any pattern matches
where the last one ended (`Pattern.Wins`, `Munches`); of a number and a symbol of one
length the number wins. There is one way to munch a text until nothing matches. The main
result says that the scanner returns what is munched in this way, each word with its
bytes, and fails exactly where no pattern matches.
-/
import ScopeLisp.Proofs.Syntax.LexicalGrammar

namespace ScopeLisp

open Computability

/-! ## Maximal munch -/

namespace Pattern

/-- Of the words that a text starts with, the pattern takes `word`: no pattern matches
a longer one, and a symbol is not also a number. -/
structure Wins (p : Pattern) (word rest : List Char) : Prop where
  matched : word ∈ p.language
  longest : ∀ q : Pattern, ∀ w ∈ q.language, w <+: word ++ rest → w.length ≤ word.length
  priority : p = .symbol → word ∉ number.language

/-- No pattern matches a word that the text starts with. -/
def Unmatched (rest : List Char) : Prop := ∀ p : Pattern, ∀ w ∈ p.language, ¬ w <+: rest

theorem unmatched_nil : Unmatched [] := by
  intro p w hw h
  rw [List.prefix_nil.1 h] at hw
  exact nil_not_mem hw

/-- The winner is unique. -/
theorem Wins.unique {p q : Pattern} {v w rest rest' : List Char} (hp : p.Wins v rest)
    (hq : q.Wins w rest') (text : v ++ rest = w ++ rest') : p = q ∧ v = w ∧ rest = rest' := by
  have le : v.length ≤ w.length :=
    hq.longest p v hp.matched (text ▸ List.prefix_append v rest)
  have ge : w.length ≤ v.length :=
    hp.longest q w hq.matched (text ▸ List.prefix_append w rest')
  obtain ⟨rfl, rfl⟩ := List.append_inj text (Nat.le_antisymm le ge)
  refine ⟨?_, rfl, rfl⟩
  cases v with
  | nil => exact absurd hp.matched nil_not_mem
  | cons c v =>
    rcases eq_startedBy hp.matched with hp' | ⟨rfl, symbolic⟩ <;>
      rcases eq_startedBy hq.matched with hq' | ⟨rfl, symbolic'⟩
    · rw [hp', hq']
    · exact absurd hq.matched (hp.priority (hp'.trans symbolic'))
    · exact absurd hp.matched (hq.priority (hq'.trans symbolic))
    · rfl

/-- What it takes to win after the first character. -/
theorem Wins.cons {p : Pattern} {c : Char} {cs : List Char} {n : Nat}
    (matched : c :: cs.take n ∈ p.language)
    (longest : ∀ q : Pattern, ∀ v, c :: v ∈ q.language → v <+: cs → v.length ≤ n)
    (priority : p = .symbol → c :: cs.take n ∉ number.language) :
    p.Wins (c :: cs.take n) (cs.drop n) where
  matched := matched
  longest q w hw h := by
    rw [List.cons_append, List.take_append_drop, List.prefix_cons_iff] at h
    obtain rfl | ⟨v, rfl, h⟩ := h
    · exact Nat.zero_le _
    · have count := longest q v hw h
      have whole := h.length_le
      rw [List.length_cons, List.length_cons, List.length_take]
      omega
  priority := priority

/-- Where a text starts with a character of one pattern only, that pattern's longest
word wins. -/
theorem Wins.alone {p : Pattern} {c : Char} {cs : List Char} {n : Nat} (start : startedBy c = p)
    (other : p ≠ .symbol) (matched : c :: cs.take n ∈ p.language)
    (longest : ∀ v, c :: v ∈ p.language → v <+: cs → v.length ≤ n) :
    p.Wins (c :: cs.take n) (cs.drop n) := by
  subst start
  refine .cons matched (fun q v hv h => ?_) fun symbol => absurd symbol other
  rcases eq_startedBy hv with rfl | ⟨-, symbol⟩
  · exact longest v hv h
  · exact absurd symbol other

end Pattern

/-! ### What the scanner takes -/

/-- What stands where a word of the pattern is taken. -/
def Pattern.lexeme (p : Pattern) : Lexeme := p.kind?.elim .gap .token

/-- Whole units that stand before a quote are all that the scanner counts. -/
theorem StringBody.length_eq_of_prefix {units cs : List Char} (h : StringBody units)
    (quote : units ++ ['"'] <+: cs) : units.length = stringUnits cs := by
  obtain ⟨rest, rfl⟩ := quote
  rw [List.append_assoc]
  exact (h.stringUnits_eq rest).symm

/-- No more units stand here than the scanner counts. -/
theorem StringBody.length_le {units cs : List Char} (h : StringBody units) (front : units <+: cs) :
    units.length ≤ stringUnits cs := by
  obtain ⟨rest, rfl⟩ := front
  rw [h.stringUnits_append]
  exact Nat.le_add_right ..

namespace Lexeme

open Pattern

variable {c : Char} {cs : List Char} {n : Nat}

/-- A digit starts a number, which no symbol does. -/
theorem number_wins (digit : c.isDigit = true) :
    Wins .number (c :: cs.take (numberTail cs)) (cs.drop (numberTail cs)) := by
  refine .cons (cons_mem_number.2 (.inl ⟨digit, numberTail_take cs⟩)) (fun q v hv h => ?_)
    fun other => nomatch other
  rcases eq_startedBy hv with rfl | ⟨rfl, -⟩
  · rw [startedBy_symbolChar (isSymbolChar_of_isDigit digit), cons_mem_symbol] at hv
    exact absurd digit (by simp [hv.1.2])
  · rcases cons_mem_number.1 hv with ⟨-, tail⟩ | ⟨rfl, -⟩
    · exact tail.length_le h
    · simp at digit

/-- The number after a minus sign is as long as any. -/
theorem length_le_numberAfterSign {v : List Char} (hv : '-' :: v ∈ number.language)
    (h : v <+: cs) : v ≠ [] ∧ v.length ≤ numberAfterSign cs := by
  rcases cons_mem_number.1 hv with ⟨digit, -⟩ | ⟨-, d, u, rfl, digit, tail⟩
  · simp at digit
  · obtain ⟨rest, rfl⟩ := h
    have longest := tail.length_le (List.prefix_append u rest)
    simp only [numberAfterSign, List.cons_append, digit, if_true, List.length_cons]
    exact ⟨List.cons_ne_nil d u, by omega⟩

theorem numberAfterSign_mem (some : 0 < numberAfterSign cs) :
    '-' :: cs.take (numberAfterSign cs) ∈ number.language := by
  cases cs with
  | nil => simp [numberAfterSign] at some
  | cons d cs =>
    rw [numberAfterSign] at some ⊢
    split
    next digit =>
      rw [Nat.add_comm, List.take_succ_cons]
      exact cons_mem_number.2 (.inr ⟨rfl, d, _, rfl, digit, numberTail_take cs⟩)
    next other => simp [other] at some

/-- Where no digit starts a number, a symbol stands, and perhaps a number, of which
the longer one is taken. -/
theorem symbol_or_number_wins (symbolic : isSymbolChar c = true) (digit : c.isDigit = false)
    {lexeme : Lexeme} (h : first c cs = (lexeme, n)) :
    ∃ p : Pattern, p.lexeme = lexeme ∧ p.Wins (c :: cs.take n) (cs.drop n) := by
  have symbol_mem : c :: cs.takeWhile isSymbolChar ∈ symbol.language :=
    cons_mem_symbol.2 ⟨⟨symbolic, digit⟩, List.all_eq_true.1 List.all_takeWhile⟩
  have symbol_le {v : List Char} (hv : c :: v ∈ symbol.language) (front : v <+: cs) :
      v.length ≤ (cs.takeWhile isSymbolChar).length :=
    length_le_takeWhile (cons_mem_symbol.1 hv).2 front
  have number_le {v : List Char} (hv : c :: v ∈ number.language) (front : v <+: cs) :
      c = '-' ∧ 0 < v.length ∧ v.length ≤ numberAfterSign cs := by
    rcases cons_mem_number.1 hv with ⟨digit', -⟩ | ⟨rfl, -⟩
    · simp [digit] at digit'
    · obtain ⟨nonempty, le⟩ := length_le_numberAfterSign hv front
      exact ⟨rfl, List.length_pos_iff.2 nonempty, le⟩
  have patterns {q : Pattern} {v : List Char} (hv : c :: v ∈ q.language) :
      q = .symbol ∨ q = .number := by
    rw [← startedBy_symbolChar symbolic]
    exact (eq_startedBy hv).imp_right And.left
  rw [first_symbolChar symbolic digit] at h
  split at h
  next number =>
    obtain ⟨rfl, some, le⟩ := number
    obtain ⟨rfl, rfl⟩ := Prod.mk.inj h
    refine ⟨.number, rfl, .cons (numberAfterSign_mem some) (fun q v hv front => ?_)
      fun other => nomatch other⟩
    rcases patterns hv with rfl | rfl
    · exact (symbol_le hv front).trans le
    · exact (number_le hv front).2.2
  next symbol =>
    obtain ⟨rfl, rfl⟩ := Prod.mk.inj h
    refine ⟨.symbol, rfl, .cons ?_ (fun q v hv front => ?_) fun _ hmem => ?_⟩
    · rw [take_takeWhile_length]
      exact symbol_mem
    · rcases patterns hv with rfl | rfl
      · exact symbol_le hv front
      · obtain ⟨sign, some, le⟩ := number_le hv front
        by_contra longer
        exact symbol ⟨sign, by omega, by omega⟩
    · obtain ⟨sign, some, le⟩ := number_le hmem (List.take_prefix _ _)
      rw [take_takeWhile_length] at some le
      exact symbol ⟨sign, by omega, le⟩

/-- What the scanner takes, wins. -/
theorem first_wins {lexeme : Lexeme} (h : first c cs = (lexeme, n))
    (closed : lexeme ≠ .unclosedString) :
    ∃ p : Pattern, p.lexeme = lexeme ∧ p.Wins (c :: cs.take n) (cs.drop n) := by
  rcases character_cases c with layout | rfl | rfl | rfl | rfl | symbolic
  · rw [first_layout layout] at h
    obtain ⟨rfl, rfl⟩ := Prod.mk.inj h
    refine ⟨.blank, rfl, .alone (startedBy_layout layout) Pattern.noConfusion ?_ fun v hv => ?_⟩
    · rw [cons_mem_blank, take_takeWhile_length]
      exact ⟨layout, List.all_eq_true.1 List.all_takeWhile⟩
    · exact length_le_takeWhile (cons_mem_blank.1 hv).2
  · obtain ⟨rfl, rfl⟩ := Prod.mk.inj ((first_semicolon cs).symm.trans h)
    refine ⟨.comment, rfl, .alone rfl Pattern.noConfusion ?_ fun v hv => ?_⟩
    · rw [cons_mem_comment, take_takeWhile_length]
      refine ⟨rfl, fun hmem => ?_⟩
      simpa using List.all_eq_true.1 List.all_takeWhile _ hmem
    · have inside := (cons_mem_comment.1 hv).2
      exact length_le_takeWhile fun d hd => by simpa using ne_of_mem_of_not_mem hd inside
  · obtain ⟨rfl, rfl⟩ := Prod.mk.inj ((first_leftParen cs).symm.trans h)
    refine ⟨.leftParen, rfl, .alone rfl Pattern.noConfusion (cons_mem_leftParen.2 ⟨rfl, rfl⟩)
      fun v hv _ => ?_⟩
    rw [(cons_mem_leftParen.1 hv).2, List.length_nil]
  · obtain ⟨rfl, rfl⟩ := Prod.mk.inj ((first_rightParen cs).symm.trans h)
    refine ⟨.rightParen, rfl, .alone rfl Pattern.noConfusion (cons_mem_rightParen.2 ⟨rfl, rfl⟩)
      fun v hv _ => ?_⟩
    rw [(cons_mem_rightParen.1 hv).2, List.length_nil]
  · rw [first_doubleQuote] at h
    split at h
    next quote =>
      obtain ⟨rfl, rfl⟩ := Prod.mk.inj h
      refine ⟨.string, rfl, .alone rfl Pattern.noConfusion ?_ fun v hv front => ?_⟩
      · refine cons_mem_string.2 ⟨rfl, _, stringBody_take_units cs, ?_⟩
        rw [List.take_add_one, ← List.head?_drop, quote]
        rfl
      · obtain ⟨-, units, hunits, rfl⟩ := cons_mem_string.1 hv
        rw [List.length_append, hunits.length_eq_of_prefix front]
        rfl
    next =>
      obtain ⟨rfl, -⟩ := Prod.mk.inj h
      exact absurd rfl closed
  · cases digit : c.isDigit with
    | true =>
      rw [first_digit digit] at h
      obtain ⟨rfl, rfl⟩ := Prod.mk.inj h
      exact ⟨.number, rfl, number_wins digit⟩
    | false => exact symbol_or_number_wins symbolic digit h

/-- Where the scanner stops at a quote, no pattern matches. -/
theorem unmatched_of_first (h : first c cs = (.unclosedString, n)) :
    c = '"' ∧ n = stringUnits cs ∧ Unmatched (c :: cs) := by
  rcases character_cases c with layout | rfl | rfl | rfl | rfl | symbolic
  · simp [first_layout layout] at h
  · simp [first_semicolon] at h
  · simp [first_leftParen] at h
  · simp [first_rightParen] at h
  · rw [first_doubleQuote] at h
    split at h
    next => simp at h
    next quote =>
      refine ⟨rfl, (Prod.mk.inj h).2.symm, fun p w hw front => ?_⟩
      rcases List.prefix_cons_iff.1 front with rfl | ⟨v, rfl, hv⟩
      · exact nil_not_mem hw
      · obtain rfl | ⟨-, symbol⟩ := eq_startedBy hw
        · obtain ⟨-, units, hunits, rfl⟩ := cons_mem_string.1 hw
          obtain ⟨rest, rfl⟩ := hv
          rw [← hunits.length_eq_of_prefix (List.prefix_append _ rest)] at quote
          simp at quote
        · exact nomatch symbol
  · cases digit : c.isDigit with
    | true => simp [first_digit digit] at h
    | false =>
      rw [first_symbolChar symbolic digit] at h
      split at h <;> simp at h

/-- The scanner takes what wins. -/
theorem first_of_wins {p : Pattern} {word rest : List Char} (wins : p.Wins word rest) :
    ∃ c v n, word = c :: v ∧ first c (v ++ rest) = (p.lexeme, n) ∧
      (v ++ rest).take n = v ∧ (v ++ rest).drop n = rest := by
  cases word with
  | nil => exact absurd wins.matched nil_not_mem
  | cons c v =>
    rcases hfirst : first c (v ++ rest) with ⟨lexeme, n⟩
    refine ⟨c, v, n, rfl, ?_⟩
    by_cases closed : lexeme = .unclosedString
    · subst closed
      obtain ⟨-, -, unmatched⟩ := unmatched_of_first hfirst
      exact absurd (List.prefix_append (c :: v) rest) (unmatched p _ wins.matched)
    · obtain ⟨q, rfl, wins'⟩ := first_wins hfirst closed
      obtain ⟨rfl, taken, left⟩ := wins.unique wins' (by simp)
      exact ⟨hfirst, (List.cons.inj taken).2.symm, left.symm⟩

end Lexeme

/-! ### Bytes -/

@[simp] theorem byteLength_nil : byteLength [] = 0 := rfl

@[simp] theorem byteLength_cons (c : Char) (cs : List Char) :
    byteLength (c :: cs) = c.utf8Size + byteLength cs := rfl

theorem byteLength_append (cs ds : List Char) :
    byteLength (cs ++ ds) = byteLength cs + byteLength ds := by
  induction cs with
  | nil => simp
  | cons c cs ih => simp [ih, Nat.add_assoc]

/-- Every character takes a byte. -/
theorem length_le_byteLength (cs : List Char) : cs.length ≤ byteLength cs := by
  induction cs with
  | nil => exact Nat.le_refl 0
  | cons c cs ih =>
    have := c.utf8Size_pos
    rw [List.length_cons, byteLength_cons]
    omega

/-- The front of a text is known by its bytes. -/
theorem eq_of_byteLength {a b x y : List Char} (text : a ++ x = b ++ y)
    (size : byteLength a = byteLength b) : a = b := by
  rcases List.append_eq_append_iff.1 text with ⟨mid, rfl, -⟩ | ⟨mid, rfl, -⟩ <;>
  · have short := length_le_byteLength mid
    rw [byteLength_append] at size
    rw [List.eq_nil_of_length_eq_zero (by omega : mid.length = 0), List.append_nil]

/-- Bytes are counted as in strings. -/
theorem utf8ByteSize_ofList (cs : List Char) : (String.ofList cs).utf8ByteSize = byteLength cs := by
  induction cs with
  | nil => rfl
  | cons c cs ih =>
    have first : String.ofList (c :: cs) = String.singleton c ++ String.ofList cs := by
      rw [String.singleton_eq_ofList, ← String.ofList_append]
      rfl
    rw [first, String.utf8ByteSize_append, ih, String.utf8ByteSize_singleton]
    rfl

theorem byteLength_toList (s : String) : byteLength s.toList = s.utf8ByteSize := by
  rw [← utf8ByteSize_ofList, String.ofList_toList]

/-- The text stands at the range of the source. -/
def Span.Reads (span : Span) (source text : String) : Prop :=
  ∃ before after, source = before ++ text ++ after ∧
    span = ⟨before.utf8ByteSize, (before ++ text).utf8ByteSize⟩

/-- A word that was taken, with the pattern that took it. -/
structure Piece where
  pattern : Pattern
  word : List Char

/-- Taking the longest word again and again leads from `cs` over the pieces to `rest`. -/
inductive Munches (rest : List Char) : List Char → List Piece → Prop
  | stop : Munches rest rest []
  | take {p : Pattern} {word cs : List Char} {pieces : List Piece} (wins : p.Wins word cs) :
    Munches rest cs pieces → Munches rest (word ++ cs) (⟨p, word⟩ :: pieces)

namespace Piece

/-- The characters of the pieces. -/
def chars (pieces : List Piece) : List Char := pieces.flatMap word

/-- The tokens of pieces that stand at byte `position`: those that are not skipped,
each with its bytes. -/
def tokens : Nat → List Piece → List Token
  | _, [] => []
  | position, ⟨p, word⟩ :: pieces =>
    let next := position + byteLength word
    match p.kind? with
    | none => tokens next pieces
    | some kind => ⟨kind, ⟨position, next⟩, String.ofList word⟩ :: tokens next pieces

section

variable {p : Pattern} {position : Nat} {word : List Char} {pieces : List Piece}

theorem tokens_skip (h : p.kind? = none) :
    tokens position (⟨p, word⟩ :: pieces) = tokens (position + byteLength word) pieces := by
  simp only [tokens, h]

theorem tokens_token {kind : TokenKind} (h : p.kind? = some kind) :
    tokens position (⟨p, word⟩ :: pieces) =
      ⟨kind, ⟨position, position + byteLength word⟩, String.ofList word⟩ ::
        tokens (position + byteLength word) pieces := by
  simp only [tokens, h]

end

end Piece

namespace Munches

variable {rest rest' cs : List Char} {pieces pieces' : List Piece}

theorem chars_append (h : Munches rest cs pieces) : Piece.chars pieces ++ rest = cs := by
  induction h with
  | stop => rfl
  | take _ _ ih => rw [← ih, Piece.chars, List.flatMap_cons, List.append_assoc, ← Piece.chars]

/-- There is one way to munch a text until nothing matches. -/
theorem unique (h : Munches rest cs pieces) (h' : Munches rest' cs pieces')
    (stuck : Pattern.Unmatched rest) (stuck' : Pattern.Unmatched rest') :
    pieces = pieces' ∧ rest = rest' := by
  induction h generalizing pieces' with
  | stop =>
    cases h' with
    | stop => exact ⟨rfl, rfl⟩
    | take wins _ => exact absurd (List.prefix_append _ _) (stuck _ _ wins.matched)
  | @take p word cs pieces wins _ ih =>
    generalize text : word ++ cs = whole at h'
    cases h' with
    | stop => exact absurd ⟨cs, text⟩ (stuck' _ _ wins.matched)
    | take wins' h' =>
      obtain ⟨rfl, rfl, rfl⟩ := wins.unique wins' text
      obtain ⟨rfl, rfl⟩ := ih h'
      exact ⟨rfl, rfl⟩

end Munches

/-- Where nothing matches, a string is opened that is not closed. -/
theorem Pattern.Unmatched.first {c : Char} {cs : List Char} (h : Pattern.Unmatched (c :: cs)) :
    c = '"' ∧ Lexeme.first c cs = (.unclosedString, stringUnits cs) := by
  rcases hfirst : Lexeme.first c cs with ⟨lexeme, n⟩
  by_cases closed : lexeme = .unclosedString
  · obtain ⟨rfl, rfl, -⟩ := Lexeme.unmatched_of_first (closed ▸ hfirst)
    exact ⟨rfl, by rw [closed]⟩
  · obtain ⟨p, -, wins⟩ := Lexeme.first_wins hfirst closed
    have front : c :: cs.take n <+: c :: cs := (List.prefix_cons_inj c).2 (List.take_prefix n cs)
    exact absurd front (h p _ wins.matched)

theorem Pattern.Unmatched.cases {rest : List Char} (h : Pattern.Unmatched rest) :
    rest = [] ∨ ∃ tail, rest = '"' :: tail := by
  cases rest with
  | nil => exact .inl rfl
  | cons c cs =>
    obtain ⟨rfl, -⟩ := h.first
    exact .inr ⟨cs, rfl⟩

/-- Every text can be munched until nothing matches. -/
theorem exists_munches (cs : List Char) :
    ∃ pieces rest, Munches rest cs pieces ∧ Pattern.Unmatched rest := by
  induction hlength : cs.length using Nat.strong_induction_on generalizing cs with
  | _ length ih =>
    cases cs with
    | nil => exact ⟨[], [], .stop, Pattern.unmatched_nil⟩
    | cons c cs =>
      rcases hfirst : Lexeme.first c cs with ⟨lexeme, n⟩
      by_cases closed : lexeme = .unclosedString
      · subst closed
        obtain ⟨-, -, unmatched⟩ := Lexeme.unmatched_of_first hfirst
        exact ⟨[], _, .stop, unmatched⟩
      · obtain ⟨p, -, wins⟩ := Lexeme.first_wins hfirst closed
        have shorter : (cs.drop n).length < length := by
          rw [← hlength, List.length_drop, List.length_cons]
          omega
        obtain ⟨pieces, rest, munches, stuck⟩ := ih _ shorter _ rfl
        refine ⟨⟨p, c :: cs.take n⟩ :: pieces, rest, ?_, stuck⟩
        simpa using Munches.take wins munches

namespace Token

variable {position : Nat} {before : List Token} {rest cs : List Char}

/-- The scanner goes over the pieces. -/
theorem scanFrom_munches {pieces : List Piece} (h : Munches rest cs pieces) :
    scanFrom position before cs =
      scanFrom (position + byteLength (Piece.chars pieces))
        ((Piece.tokens position pieces).reverse ++ before) rest := by
  induction h generalizing position before with
  | stop => rfl
  | @take p word cs pieces wins _ ih =>
    have chars : byteLength (Piece.chars (⟨p, word⟩ :: pieces)) =
        byteLength word + byteLength (Piece.chars pieces) := byteLength_append ..
    obtain ⟨c, v, n, rfl, hfirst, taken, left⟩ := Lexeme.first_of_wins wins
    rw [List.cons_append, scanFrom, hfirst, Pattern.lexeme, chars, ← Nat.add_assoc]
    cases hkind : p.kind? with
    | none =>
      simp only [Option.elim_none, taken, left]
      rw [Piece.tokens_skip hkind, ih]
    | some kind =>
      simp only [Option.elim_some, taken, left]
      rw [Piece.tokens_token hkind, ih, List.reverse_cons, List.append_assoc]
      rfl

/-- Where nothing matches at a quote, the scanner stops. -/
theorem scanFrom_unmatched (h : Pattern.Unmatched ('"' :: rest)) :
    scanFrom position before ('"' :: rest) =
      .error (.on (.invalidToken (String.ofList ('"' :: rest.take (stringUnits rest))))
        ⟨position, position + byteLength ('"' :: rest.take (stringUnits rest))⟩) := by
  rw [scanFrom, h.first.2]

end Token

namespace Munches

variable {cs : List Char} {pieces : List Piece}

end Munches

/-! ## The scanner -/

namespace Token

variable {source : String} {pieces : List Piece} {rest : List Char}

theorem scan_of_munches (h : Munches [] source.toList pieces) :
    scan source = .ok (Piece.tokens 0 pieces ++ [⟨.eof, .point source.utf8ByteSize, ""⟩]) := by
  have size : byteLength (Piece.chars pieces) = source.utf8ByteSize := by
    have text := h.chars_append
    rw [List.append_nil] at text
    rw [text, byteLength_toList]
  rw [scan, scanFrom_munches h, scanFrom, size, Nat.zero_add]
  simp

theorem scan_of_unmatched (h : Munches ('"' :: rest) source.toList pieces)
    (stuck : Pattern.Unmatched ('"' :: rest)) :
    let start := byteLength (Piece.chars pieces)
    let found := '"' :: rest.take (stringUnits rest)
    scan source =
      .error (.on (.invalidToken (String.ofList found)) ⟨start, start + byteLength found⟩) := by
  rw [scan, scanFrom_munches h, scanFrom_unmatched stuck, Nat.zero_add]

end Token

end ScopeLisp
