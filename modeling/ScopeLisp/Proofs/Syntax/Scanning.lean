/-
ScopeLisp.Proofs.Syntax.Scanning — how texts are cut into tokens, apart from
where the tokens stand.

`Scans rest cs ts` says that the characters `cs`, up to where `rest` is left, are
read as the tokens `ts`, given without their places. It goes token by token and
gap by gap, so that it can be put together and taken apart where the scanner,
which counts bytes, can not: what is scanned before the end of a line is scanned
in the same way with the next line after it (`Scans.append`), and a text can be
cut between its lines unless a string stands across the cut (`Scans.split`).
-/
import ScopeLisp.Syntax.Read

namespace ScopeLisp

/-! ## Where a lexeme can end -/

/-- Nothing stands here, or a delimiter. -/
def Delimited (rest : List Char) : Prop := ∀ c ∈ rest.head?, isDelimiter c = true

/-- Nothing stands here, or the end of a line. -/
def LineEnd (rest : List Char) : Prop := ∀ c ∈ rest.head?, c = '\n'

theorem LineEnd.nil : LineEnd [] := fun _ h => nomatch h

theorem LineEnd.newline (rest : List Char) : LineEnd ('\n' :: rest) := fun _ h =>
  (Option.some.inj h).symm

theorem LineEnd.delimited {rest : List Char} (h : LineEnd rest) : Delimited rest := fun c hc => by
  rw [h c hc]
  decide

/-- Where a row of characters without line ends begins a text that is cut at the end
of a line, it stands before the cut. -/
theorem LineEnd.cut {a b line cs : List Char} (h : LineEnd b) (text : line ++ cs = a ++ b)
    (inside : '\n' ∉ line) : ∃ a', a = line ++ a' ∧ cs = a' ++ b := by
  rcases List.append_eq_append_iff.1 text with cut | ⟨line', rfl, rfl⟩
  · exact cut
  · cases line' with
    | nil => exact ⟨[], by simp, rfl⟩
    | cons c line' =>
      obtain rfl : c = '\n' := h c rfl
      simp at inside

theorem Delimited.cons {c : Char} (h : isDelimiter c = true) (rest : List Char) :
    Delimited (c :: rest) := fun _ hc => Option.some.inj hc ▸ h

section stop

variable {p : Char → Bool} {rest : List Char}

theorem takeWhile_eq_nil_of_stop (stop : ∀ c ∈ rest.head?, p c = false) :
    rest.takeWhile p = [] := by
  cases rest with
  | nil => rfl
  | cons c rest => simp [stop c rfl]

theorem dropWhile_eq_self_of_stop (stop : ∀ c ∈ rest.head?, p c = false) :
    rest.dropWhile p = rest := by
  cases rest with
  | nil => rfl
  | cons c rest => simp [stop c rfl]

theorem takeWhile_append_of_stop (stop : ∀ c ∈ rest.head?, p c = false) (cs : List Char) :
    (cs ++ rest).takeWhile p = cs.takeWhile p := by
  induction cs with
  | nil => exact takeWhile_eq_nil_of_stop stop
  | cons c cs ih => simp only [List.cons_append, List.takeWhile_cons, ih]

theorem dropWhile_append_of_stop (stop : ∀ c ∈ rest.head?, p c = false) (cs : List Char) :
    (cs ++ rest).dropWhile p = cs.dropWhile p ++ rest := by
  induction cs with
  | nil => exact dropWhile_eq_self_of_stop stop
  | cons c cs ih =>
    simp only [List.cons_append, List.dropWhile_cons, ih]
    split <;> rfl

end stop

theorem not_isDigit_of_isDelimiter {c : Char} (h : isDelimiter c = true) : c.isDigit = false := by
  simp only [isDelimiter, isLayout, Bool.or_eq_true, beq_iff_eq] at h
  rcases h with (((((((rfl | rfl) | rfl) | rfl) | rfl) | rfl) | rfl) | rfl) | rfl <;> decide

theorem isSymbolChar_of_isDigit {c : Char} (h : c.isDigit = true) : isSymbolChar c = true := by
  rw [isSymbolChar, Bool.not_eq_true', Bool.eq_false_iff]
  intro hd
  simp [not_isDigit_of_isDelimiter hd] at h

namespace Delimited

variable {rest : List Char} (h : Delimited rest)
include h

theorem no_digit : ∀ c ∈ rest.head?, c.isDigit = false := fun c hc =>
  not_isDigit_of_isDelimiter (h c hc)

theorem no_symbolChar : ∀ c ∈ rest.head?, isSymbolChar c = false := fun c hc => by
  rw [isSymbolChar, h c hc]
  rfl

/-! ## Numbers and symbols -/

theorem numberTail_append (cs : List Char) : numberTail (cs ++ rest) = numberTail cs := by
  have no_point : ∀ r, rest ≠ '.' :: r := by
    rintro r rfl
    exact absurd (h '.' rfl) (by decide)
  simp only [numberTail, takeWhile_append_of_stop h.no_digit, dropWhile_append_of_stop h.no_digit]
  rcases cs.dropWhile Char.isDigit with _ | ⟨c, r⟩
  · cases rest <;> simp only [List.nil_append]
  · by_cases hc : c = '.'
    · subst hc
      simp [takeWhile_append_of_stop h.no_digit]
    · simp [hc]

theorem numberAfterSign_append (cs : List Char) :
    numberAfterSign (cs ++ rest) = numberAfterSign cs := by
  cases cs with
  | nil => cases rest with
    | nil => rfl
    | cons d r => simp [numberAfterSign, h.no_digit d rfl]
  | cons d cs => simp only [List.cons_append, numberAfterSign, h.numberTail_append]

end Delimited

theorem take_takeWhile_length (p : Char → Bool) (cs : List Char) :
    cs.take (cs.takeWhile p).length = cs.takeWhile p :=
  (List.prefix_iff_eq_take.1 (List.takeWhile_prefix p)).symm

theorem drop_takeWhile_length (p : Char → Bool) (cs : List Char) :
    cs.drop (cs.takeWhile p).length = cs.dropWhile p :=
  calc
    _ = (cs.takeWhile p ++ cs.dropWhile p).drop (cs.takeWhile p).length := by
      rw [List.takeWhile_append_dropWhile]
    _ = cs.dropWhile p := List.drop_left

/-- A number takes the digits, and with a point the digits after it. -/
theorem numberTail_cases (cs : List Char) :
    numberTail cs = (cs.takeWhile Char.isDigit).length ∨
      ∃ rest, cs.dropWhile Char.isDigit = '.' :: rest ∧ rest.takeWhile Char.isDigit ≠ [] ∧
        numberTail cs =
          (cs.takeWhile Char.isDigit).length + 1 + (rest.takeWhile Char.isDigit).length := by
  simp only [numberTail]
  split
  next rest point =>
    split
    next => exact .inl rfl
    next digits => exact .inr ⟨rest, point, by simpa using digits, rfl⟩
  next => exact .inl rfl

theorem numberTail_le_length (cs : List Char) : numberTail cs ≤ cs.length := by
  rcases numberTail_cases cs with tail | ⟨rest, point, -, tail⟩
  · rw [tail]
    exact (List.takeWhile_prefix Char.isDigit).length_le
  · have parts : (cs.takeWhile Char.isDigit ++ cs.dropWhile Char.isDigit).length = cs.length := by
      rw [List.takeWhile_append_dropWhile]
    have digits : (rest.takeWhile Char.isDigit).length ≤ rest.length :=
      (List.takeWhile_prefix Char.isDigit).length_le
    rw [point, List.length_append, List.length_cons] at parts
    omega

theorem numberAfterSign_le_length (cs : List Char) : numberAfterSign cs ≤ cs.length := by
  cases cs with
  | nil => exact Nat.le_refl 0
  | cons d cs =>
    rw [numberAfterSign, List.length_cons]
    have := numberTail_le_length cs
    split <;> omega

/-- A number has no delimiter in it. -/
theorem isSymbolChar_of_mem_number {cs : List Char} {d : Char}
    (hd : d ∈ cs.take (numberTail cs)) : isSymbolChar d = true := by
  have digits : ∀ {ds : List Char}, d ∈ ds.takeWhile Char.isDigit → isSymbolChar d = true :=
    fun h => isSymbolChar_of_isDigit (List.all_eq_true.1 List.all_takeWhile d h)
  rcases numberTail_cases cs with tail | ⟨rest, point, -, tail⟩
  · rw [tail, take_takeWhile_length] at hd
    exact digits hd
  · rw [tail, Nat.add_assoc, List.take_add, take_takeWhile_length, drop_takeWhile_length, point,
      Nat.add_comm 1, List.take_succ_cons, take_takeWhile_length, List.mem_append,
      List.mem_cons] at hd
    rcases hd with hd | rfl | hd
    · exact digits hd
    · decide
    · exact digits hd

theorem isSymbolChar_of_mem_numberAfterSign {cs : List Char} {d : Char}
    (hd : d ∈ cs.take (numberAfterSign cs)) : isSymbolChar d = true := by
  cases cs with
  | nil => simp [numberAfterSign] at hd
  | cons c cs =>
    rw [numberAfterSign] at hd
    split at hd
    next digit =>
      rw [Nat.add_comm, List.take_succ_cons, List.mem_cons] at hd
      obtain rfl | hd := hd
      · exact isSymbolChar_of_isDigit digit
      · exact isSymbolChar_of_mem_number hd
    next => simp at hd

/-! ## Strings -/

/-- Whole units of a string. -/
inductive StringBody : List Char → Prop
  | nil : StringBody []
  | plain {c : Char} {cs : List Char} (quote : c ≠ '"') (backslash : c ≠ '\\') :
    StringBody cs → StringBody (c :: cs)
  | escaped {c : Char} {cs : List Char} (newline : c ≠ '\n') :
    StringBody cs → StringBody ('\\' :: c :: cs)

theorem StringBody.append {units more : List Char} (h : StringBody units) (h' : StringBody more) :
    StringBody (units ++ more) := by
  induction h with
  | nil => exact h'
  | plain quote backslash _ ih => exact .plain quote backslash ih
  | escaped newline _ ih => exact .escaped newline ih

/-- Units are counted one after the other. -/
theorem StringBody.stringUnits_append {body : List Char} (h : StringBody body) (rest : List Char) :
    stringUnits (body ++ rest) = body.length + stringUnits rest := by
  induction h with
  | nil => exact (Nat.zero_add _).symm
  | plain quote backslash _ ih =>
    simp [stringUnits, quote, backslash, ih]
    omega
  | escaped newline _ ih =>
    simp [stringUnits, newline, ih]
    omega

/-- Units end at the quote after them. -/
theorem StringBody.stringUnits_eq {body : List Char} (h : StringBody body) (rest : List Char) :
    stringUnits (body ++ '"' :: rest) = body.length := by
  rw [h.stringUnits_append]
  rfl

theorem stringUnits_le_length (cs : List Char) : stringUnits cs ≤ cs.length := by
  fun_induction stringUnits cs <;> simp only [List.length_cons, List.length_nil] <;> omega

theorem stringBody_take_units (cs : List Char) : StringBody (cs.take (stringUnits cs)) := by
  fun_induction stringUnits cs with
  | case1 => exact .nil
  | case2 => exact .nil
  | case3 => exact .nil
  | case4 c cs newline ih =>
    rw [Nat.add_comm, List.take_succ_cons, List.take_succ_cons]
    exact .escaped newline ih
  | case5 => exact .nil
  | case6 c cs last unit quote ih =>
    rw [Nat.add_comm, List.take_succ_cons]
    refine .plain quote (fun backslash => ?_) ih
    cases cs with
    | nil => exact last backslash rfl
    | cons d cs => exact unit d cs backslash rfl

/-! ## Lexemes -/

theorem isSymbolChar_iff {c : Char} :
    isSymbolChar c = true ↔ isLayout c = false ∧ c ≠ '(' ∧ c ≠ ')' ∧ c ≠ '"' ∧ c ≠ ';' := by
  simp [isSymbolChar, isDelimiter, and_assoc]

/-- What a character can be. -/
theorem character_cases (c : Char) :
    isLayout c = true ∨ c = ';' ∨ c = '(' ∨ c = ')' ∨ c = '"' ∨ isSymbolChar c = true := by
  rw [isSymbolChar_iff]
  cases isLayout c <;> grind

namespace Lexeme

variable {c : Char} {k : TokenKind} {body cs rest : List Char}

theorem first_layout (h : isLayout c = true) (cs : List Char) :
    first c cs = (.gap, (cs.takeWhile isLayout).length) := by
  rw [first, if_pos h]

theorem first_semicolon (cs : List Char) :
    first ';' cs = (.gap, (cs.takeWhile (· ≠ '\n')).length) := rfl

theorem first_leftParen (cs : List Char) : first '(' cs = (.token .leftParen, 0) := rfl

theorem first_rightParen (cs : List Char) : first ')' cs = (.token .rightParen, 0) := rfl

theorem first_doubleQuote (cs : List Char) :
    first '"' cs =
      if (cs.drop (stringUnits cs)).head? = some '"' then (.token .string, stringUnits cs + 1)
      else (.unclosedString, stringUnits cs) := rfl

theorem first_digit (h : c.isDigit = true) (cs : List Char) :
    first c cs = (.token .number, numberTail cs) := by
  obtain ⟨layout, left, right, quote, semicolon⟩ := isSymbolChar_iff.1 (isSymbolChar_of_isDigit h)
  simp [first, layout, left, right, quote, semicolon, h]

/-- A symbol ends where the next delimiter stands; a number after a minus sign is
one only if no symbol is longer. -/
theorem first_symbolChar (h : isSymbolChar c = true) (digit : c.isDigit = false) (cs : List Char) :
    first c cs =
      if c = '-' ∧ 0 < numberAfterSign cs ∧ (cs.takeWhile isSymbolChar).length ≤ numberAfterSign cs
      then (.token .number, numberAfterSign cs)
      else (.token .symbol, (cs.takeWhile isSymbolChar).length) := by
  obtain ⟨layout, left, right, quote, semicolon⟩ := isSymbolChar_iff.1 h
  by_cases sign : c = '-'
  · subst sign
    simp [first, isLayout]
  · simp [first, layout, left, right, quote, semicolon, digit, sign]

/-- A token ends in the text. -/
theorem le_length_of_first_eq_token {n : Nat} (h : first c cs = (.token k, n)) : n ≤ cs.length := by
  rcases character_cases c with layout | rfl | rfl | rfl | rfl | symbolic
  · simp [first_layout layout] at h
  · simp [first_semicolon] at h
  · obtain ⟨-, rfl⟩ := Prod.mk.inj h
    exact Nat.zero_le _
  · obtain ⟨-, rfl⟩ := Prod.mk.inj h
    exact Nat.zero_le _
  · rw [first_doubleQuote] at h
    split at h
    next closed =>
      obtain ⟨-, rfl⟩ := Prod.mk.inj h
      rw [List.head?_drop] at closed
      exact (List.getElem?_eq_some_iff.1 closed).1
    next => simp at h
  · cases digit : c.isDigit with
    | true =>
      rw [first_digit digit] at h
      obtain ⟨-, rfl⟩ := Prod.mk.inj h
      exact numberTail_le_length cs
    | false =>
      rw [first_symbolChar symbolic digit] at h
      split at h <;> obtain ⟨-, rfl⟩ := Prod.mk.inj h
      · exact numberAfterSign_le_length cs
      · exact (List.takeWhile_prefix isSymbolChar).length_le

/-- A string is read up to a quote that stands after whole units. -/
theorem first_eq_string :
    first '"' (body ++ cs) = (.token k, body.length) ↔
      k = .string ∧ ∃ units, StringBody units ∧ body = units ++ ['"'] := by
  rw [first_doubleQuote]
  constructor
  · intro h
    have units := stringBody_take_units (body ++ cs)
    split at h
    next closed =>
      obtain ⟨rfl, count⟩ : k = .string ∧ stringUnits (body ++ cs) + 1 = body.length := by
        simpa [eq_comm] using h
      have short : stringUnits (body ++ cs) ≤ body.length := by omega
      rw [List.take_append_of_le_length short] at units
      obtain ⟨d, hd⟩ : ∃ d, body.drop (stringUnits (body ++ cs)) = [d] := by
        rw [← List.length_eq_one_iff, List.length_drop]
        omega
      obtain rfl : d = '"' := by
        rw [List.drop_append_of_le_length short, hd] at closed
        exact Option.some.inj closed
      exact ⟨rfl, _, units, by rw [← hd, List.take_append_drop]⟩
    next => simp at h
  · rintro ⟨rfl, units, hunits, rfl⟩
    have text : units ++ ['"'] ++ cs = units ++ '"' :: cs := by simp
    rw [text, hunits.stringUnits_eq, List.drop_left]
    simp

/-- What a token can be. -/
theorem first_eq_token (h : first c (body ++ cs) = (.token k, body.length)) :
    (c = '(' ∧ k = .leftParen ∧ body = []) ∨ (c = ')' ∧ k = .rightParen ∧ body = []) ∨
      (c = '"' ∧ k = .string ∧ ∃ units, StringBody units ∧ body = units ++ ['"']) ∨
      (k = .number ∨ k = .symbol) ∧ ∀ d ∈ c :: body, isSymbolChar d = true := by
  rcases character_cases c with layout | rfl | rfl | rfl | rfl | symbolic
  · simp [first_layout layout] at h
  · simp [first_semicolon] at h
  · exact .inl (by simpa [first_leftParen, eq_comm] using h)
  · exact .inr (.inl (by simpa [first_rightParen, eq_comm] using h))
  · exact .inr (.inr (.inl ⟨rfl, first_eq_string.1 h⟩))
  · refine .inr (.inr (.inr ?_))
    have chars : ∀ n, n = body.length →
        (∀ d ∈ (body ++ cs).take n, isSymbolChar d = true) →
          ∀ d ∈ c :: body, isSymbolChar d = true := by
      rintro _ rfl h
      rw [List.take_left] at h
      exact List.forall_mem_cons.2 ⟨symbolic, h⟩
    cases digit : c.isDigit with
    | true =>
      rw [first_digit digit, Prod.mk.injEq, Lexeme.token.injEq] at h
      exact ⟨.inl h.1.symm, chars _ h.2 fun d => isSymbolChar_of_mem_number⟩
    | false =>
      rw [first_symbolChar symbolic digit] at h
      split at h
      · rw [Prod.mk.injEq, Lexeme.token.injEq] at h
        exact ⟨.inl h.1.symm, chars _ h.2 fun d => isSymbolChar_of_mem_numberAfterSign⟩
      · rw [Prod.mk.injEq, Lexeme.token.injEq] at h
        refine ⟨.inr h.1.symm, chars _ h.2 fun d hd => ?_⟩
        rw [take_takeWhile_length] at hd
        exact List.all_eq_true.1 List.all_takeWhile d hd

/-- Where a token ends before a delimiter, it ends there if the text does. -/
theorem first_eq_token_append (h : Delimited rest) :
    first c (body ++ cs ++ rest) = (.token k, body.length) ↔
      first c (body ++ cs) = (.token k, body.length) := by
  rcases character_cases c with layout | rfl | rfl | rfl | rfl | symbolic
  · simp [first_layout layout]
  · simp [first_semicolon]
  · rw [first_leftParen, first_leftParen]
  · rw [first_rightParen, first_rightParen]
  · rw [List.append_assoc, first_eq_string, first_eq_string]
  · cases digit : c.isDigit with
    | true => rw [first_digit digit, first_digit digit, h.numberTail_append]
    | false =>
      rw [first_symbolChar symbolic digit, first_symbolChar symbolic digit,
        h.numberAfterSign_append, takeWhile_append_of_stop h.no_symbolChar]

theorem first_eq_token_of_delimited (h : Delimited rest) :
    first c (body ++ rest) = (.token k, body.length) ↔
      first c body = (.token k, body.length) := by
  simpa only [List.append_nil] using @first_eq_token_append c k body [] rest h

/-- Only a string can reach over the end of a line. -/
theorem newline_not_mem (h : first c (body ++ cs) = (.token k, body.length))
    (inside : k = .string → c ≠ '\n' ∧ '\n' ∉ body) : '\n' ∉ body := by
  rcases first_eq_token h with ⟨-, -, rfl⟩ | ⟨-, -, rfl⟩ | ⟨-, rfl, -⟩ | ⟨-, symbolic⟩
  · exact List.not_mem_nil
  · exact List.not_mem_nil
  · exact (inside rfl).2
  · intro hmem
    exact absurd (symbolic _ (List.mem_cons_of_mem c hmem)) (by decide)

end Lexeme

/-! ## Texts -/

/-- A token without its place. -/
def Token.bare (t : Token) : Token := { t with span := .point 0 }

/-- The characters `cs`, up to where `rest` is left, are read as tokens. -/
inductive Scans (rest : List Char) : List Char → List Token → Prop
  | done : Scans rest rest []
  | layout {c : Char} {cs : List Char} {ts : List Token} (h : isLayout c = true) :
    Scans rest cs ts → Scans rest (c :: cs) ts
  | comment {line cs : List Char} {ts : List Token} (inside : '\n' ∉ line) (stop : LineEnd cs) :
    Scans rest cs ts → Scans rest (';' :: (line ++ cs)) ts
  | token {c : Char} {k : TokenKind} {body cs : List Char} {ts : List Token}
    (h : Lexeme.first c (body ++ cs) = (.token k, body.length)) :
    Scans rest cs ts →
      Scans rest (c :: (body ++ cs)) (⟨k, .point 0, String.ofList (c :: body)⟩ :: ts)

namespace Scans

variable {rest cs : List Char} {ts us : List Token}

theorem trans {mid : List Char} (h : Scans mid cs ts) (h' : Scans rest mid us) :
    Scans rest cs (ts ++ us) := by
  induction h with
  | done => exact h'
  | layout hc _ ih => exact .layout hc ih
  | comment inside stop _ ih => exact .comment inside stop ih
  | token h _ ih => exact .token h ih

/-- Nothing is read from nothing, whatever follows. -/
theorem empty (rest : List Char) : Scans rest ("".toList ++ rest) [] := by
  rw [String.toList_empty]
  exact .done

theorem layouts {gap : List Char} (h : ∀ c ∈ gap, isLayout c = true) (h' : Scans rest cs ts) :
    Scans rest (gap ++ cs) ts := by
  induction gap with
  | nil => exact h'
  | cons c gap ih =>
    exact .layout (h c List.mem_cons_self) (ih fun d hd => h d (List.mem_cons_of_mem c hd))

theorem leftParen (h : Scans rest cs ts) :
    Scans rest ('(' :: cs) (⟨.leftParen, .point 0, "("⟩ :: ts) :=
  @token rest '(' .leftParen [] cs ts rfl h

theorem rightParen (h : Scans rest cs ts) :
    Scans rest (')' :: cs) (⟨.rightParen, .point 0, ")"⟩ :: ts) :=
  @token rest ')' .rightParen [] cs ts rfl h

/-- Gaps are runs of layout and comments. -/
theorem gap {c : Char} {n : Nat} (hc : Lexeme.first c cs = (.gap, n))
    (h : Scans rest (cs.drop n) ts) : Scans rest (c :: cs) ts := by
  rcases character_cases c with layout | rfl | rfl | rfl | rfl | symbolic
  · rw [Lexeme.first_layout layout] at hc
    obtain ⟨-, rfl⟩ := Prod.mk.inj hc
    rw [drop_takeWhile_length] at h
    rw [← List.takeWhile_append_dropWhile (p := isLayout) (l := cs)]
    exact .layout layout (layouts (List.all_eq_true.1 List.all_takeWhile) h)
  · rw [Lexeme.first_semicolon] at hc
    obtain ⟨-, rfl⟩ := Prod.mk.inj hc
    rw [drop_takeWhile_length] at h
    rw [← List.takeWhile_append_dropWhile (p := (· ≠ '\n')) (l := cs)]
    refine .comment ?_ ?_ h
    · intro hmem
      simpa using List.all_eq_true.1 List.all_takeWhile _ hmem
    · intro c hc
      have stop := List.head?_dropWhile_not (· ≠ '\n') cs
      rw [hc] at stop
      simpa using stop
  · simp [Lexeme.first_leftParen] at hc
  · simp [Lexeme.first_rightParen] at hc
  · rw [Lexeme.first_doubleQuote] at hc
    split at hc <;> simp at hc
  · cases digit : c.isDigit with
    | true => simp [Lexeme.first_digit digit] at hc
    | false =>
      rw [Lexeme.first_symbolChar symbolic digit] at hc
      split at hc <;> simp at hc

theorem eq_nil (h : Scans [] [] ts) : ts = [] := by
  cases h
  rfl

theorem of_newline (h : Scans [] ('\n' :: cs) ts) : Scans [] cs ts := by
  cases h with
  | layout _ h => exact h
  | token h _ =>
    rw [Lexeme.first_layout rfl] at h
    cases h

theorem next {c : Char} {k : TokenKind} {n : Nat} (hc : Lexeme.first c cs = (.token k, n))
    (h : Scans rest (cs.drop n) ts) :
    Scans rest (c :: cs) (⟨k, .point 0, String.ofList (c :: cs.take n)⟩ :: ts) := by
  have whole : (cs.take n).length = n :=
    List.length_take_of_le (Lexeme.le_length_of_first_eq_token hc)
  have token : Lexeme.first c (cs.take n ++ cs.drop n) = (.token k, (cs.take n).length) := by
    rw [List.take_append_drop, whole, hc]
  simpa only [List.take_append_drop] using Scans.token token h

/-- What stands before the end of a line is scanned apart from what comes after. -/
theorem append (h : Scans [] cs ts) (stop : LineEnd rest) : Scans rest (cs ++ rest) ts := by
  induction h with
  | done => exact .done
  | layout hc _ ih => exact .layout hc ih
  | @comment line cs ts inside stop' _ ih =>
    rw [List.cons_append, List.append_assoc]
    refine .comment inside ?_ ih
    cases cs with
    | nil => exact stop
    | cons c cs => exact stop'
  | token h _ ih =>
    rw [List.cons_append, List.append_assoc]
    refine .token ?_ ih
    rwa [← List.append_assoc, Lexeme.first_eq_token_append stop.delimited]

/-- A text can be cut at the end of a line if no string stands across the cut. -/
theorem split {a b : List Char} (h : Scans [] (a ++ b) ts) (stop : LineEnd b)
    (strings : ∀ t ∈ ts, t.kind = .string → '\n' ∉ t.text.toList) :
    ∃ us vs, ts = us ++ vs ∧ Scans [] a us ∧ Scans [] b vs := by
  generalize hcs : a ++ b = cs at h
  induction h generalizing a with
  | done =>
    obtain ⟨rfl, rfl⟩ := List.append_eq_nil_iff.1 hcs
    exact ⟨[], [], rfl, .done, .done⟩
  | @layout c cs ts hc h ih =>
    rcases List.append_eq_cons_iff.1 hcs with ⟨rfl, rfl⟩ | ⟨a, rfl, rfl⟩
    · exact ⟨[], ts, rfl, .done, .layout hc h⟩
    · obtain ⟨us, vs, rfl, ha, hb⟩ := ih strings rfl
      exact ⟨us, vs, rfl, .layout hc ha, hb⟩
  | @comment line cs ts inside stop' h ih =>
    rcases List.append_eq_cons_iff.1 hcs with ⟨rfl, rfl⟩ | ⟨a, rfl, text⟩
    · exact ⟨[], ts, rfl, .done, .comment inside stop' h⟩
    · obtain ⟨a, rfl, rfl⟩ := stop.cut text inside
      obtain ⟨us, vs, rfl, ha, hb⟩ := ih strings rfl
      refine ⟨us, vs, rfl, .comment inside ?_ ha, hb⟩
      cases a with
      | nil => exact .nil
      | cons c a => exact stop'
  | @token c k body cs ts hc h ih =>
    rcases List.append_eq_cons_iff.1 hcs with ⟨rfl, rfl⟩ | ⟨a, rfl, text⟩
    · exact ⟨[], _, rfl, .done, .token hc h⟩
    · obtain ⟨inside, strings⟩ := List.forall_mem_cons.1 strings
      have newline := Lexeme.newline_not_mem hc (by simpa [eq_comm] using inside)
      obtain ⟨a, rfl, rfl⟩ := stop.cut text newline
      obtain ⟨us, vs, rfl, ha, hb⟩ := ih strings rfl
      rw [← List.append_assoc, Lexeme.first_eq_token_append stop.delimited] at hc
      exact ⟨_ :: us, vs, rfl, .token hc ha, hb⟩

end Scans

/-- Where a parenthesis is read, one stands. -/
theorem Scans.leftParen_mem {rest cs : List Char} {ts : List Token} (h : Scans rest cs ts)
    {t : Token} (ht : t ∈ ts) (kind : t.kind = .leftParen) : '(' ∈ cs := by
  induction h with
  | done => cases ht
  | layout _ _ ih => exact List.mem_cons_of_mem _ (ih ht)
  | comment _ _ _ ih => exact List.mem_cons_of_mem _ (List.mem_append_right _ (ih ht))
  | token h _ ih =>
    rcases List.mem_cons.1 ht with rfl | ht
    · obtain rfl : _ = TokenKind.leftParen := kind
      rcases Lexeme.first_eq_token h with ⟨rfl, -, -⟩ | ⟨-, other, -⟩ | ⟨-, other, -⟩ |
        ⟨other | other, -⟩
      · exact List.mem_cons_self
      all_goals cases other
    · exact List.mem_cons_of_mem _ (List.mem_append_right _ (ih ht))

/-! ## The scanner -/

namespace Token

variable {c : Char} {cs : List Char} {position : Nat} {before tokens : List Token}

theorem scanFrom_gap {n : Nat} (h : Lexeme.first c cs = (.gap, n)) :
    scanFrom position before (c :: cs) =
      scanFrom (position + byteLength (c :: cs.take n)) before (cs.drop n) := by
  rw [scanFrom, h]

/-- Layout can be skipped one character at a time. -/
theorem scanFrom_layout (hc : isLayout c = true) (cs : List Char) :
    scanFrom position before (c :: cs) = scanFrom (position + c.utf8Size) before cs := by
  rw [scanFrom_gap (Lexeme.first_layout hc cs), take_takeWhile_length, drop_takeWhile_length]
  cases cs with
  | nil => rfl
  | cons d cs =>
    by_cases hd : isLayout d = true
    · rw [scanFrom_gap (Lexeme.first_layout hd cs), take_takeWhile_length, drop_takeWhile_length,
        List.takeWhile_cons_of_pos hd, List.dropWhile_cons_of_pos hd, Nat.add_assoc]
      rfl
    · rw [List.takeWhile_cons_of_neg hd, List.dropWhile_cons_of_neg hd]
      rfl

theorem scanFrom_comment {line : List Char} (inside : '\n' ∉ line) (stop : LineEnd cs) :
    scanFrom position before (';' :: (line ++ cs)) =
      scanFrom (position + byteLength (';' :: line)) before cs := by
  have ends : ∀ c ∈ cs.head?, decide (c ≠ '\n') = false := fun c hc => by simp [stop c hc]
  have whole : ∀ c ∈ line, decide (c ≠ '\n') = true := fun c hc => by
    simpa using ne_of_mem_of_not_mem hc inside
  rw [scanFrom_gap (Lexeme.first_semicolon _), take_takeWhile_length, drop_takeWhile_length,
    List.takeWhile_append_of_pos whole, List.dropWhile_append_of_pos whole,
    takeWhile_eq_nil_of_stop ends, dropWhile_eq_self_of_stop ends, List.append_nil]

theorem scanFrom_token {k : TokenKind} {body : List Char}
    (h : Lexeme.first c (body ++ cs) = (.token k, body.length)) :
    scanFrom position before (c :: (body ++ cs)) =
      scanFrom (position + byteLength (c :: body))
        (⟨k, ⟨position, position + byteLength (c :: body)⟩, String.ofList (c :: body)⟩ :: before)
        cs := by
  simp only [scanFrom, h, List.take_left, List.drop_left]

end Token

namespace Scans

variable {rest cs : List Char} {ts : List Token}

/-- The scanner reads what `Scans` says and goes on with the rest. -/
theorem scanFrom_eq (h : Scans rest cs ts) (position : Nat) (before : List Token) :
    ∃ (position' : Nat) (new : List Token), new.map Token.bare = ts ∧
      Token.scanFrom position before cs =
        Token.scanFrom position' (new.reverse ++ before) rest := by
  induction h generalizing position before with
  | done => exact ⟨position, [], rfl, rfl⟩
  | layout hc _ ih =>
    rw [Token.scanFrom_layout hc]
    exact ih ..
  | comment inside stop _ ih =>
    rw [Token.scanFrom_comment inside stop]
    exact ih ..
  | @token c k body cs ts hc _ ih =>
    rw [Token.scanFrom_token hc]
    obtain ⟨position', new, rfl, h⟩ := ih (position + byteLength (c :: body))
      (⟨k, ⟨position, position + byteLength (c :: body)⟩, String.ofList (c :: body)⟩ :: before)
    exact ⟨position', _ :: new, rfl, h.trans (by rw [List.reverse_cons, List.append_assoc]; rfl)⟩

theorem kind_ne_eof (h : Scans rest cs ts) : ∀ t ∈ ts, t.kind ≠ .eof := by
  induction h with
  | done => exact fun _ h => nomatch h
  | layout _ _ ih => exact ih
  | comment _ _ _ ih => exact ih
  | token h _ ih =>
    refine List.forall_mem_cons.2 ⟨?_, ih⟩
    rcases Lexeme.first_eq_token h with ⟨-, rfl, -⟩ | ⟨-, rfl, -⟩ | ⟨-, rfl, -⟩ | ⟨rfl | rfl, -⟩ <;>
      exact TokenKind.noConfusion

end Scans

theorem scans_of_scanFrom {cs : List Char} {position : Nat} {before tokens : List Token}
    (h : Token.scanFrom position before cs = .ok tokens) :
    ∃ new position', Scans [] cs (new.map Token.bare) ∧
      tokens = before.reverse ++ new ++ [⟨.eof, .point position', ""⟩] := by
  fun_induction Token.scanFrom position before cs with
  | case1 position before =>
    cases h
    exact ⟨[], position, .done, by simp⟩
  | case2 position before c cs n _ _ gap ih =>
    obtain ⟨new, position', hscans, rfl⟩ := ih h
    exact ⟨new, position', hscans.gap gap, rfl⟩
  | case3 position before c cs n matched next k token ih =>
    obtain ⟨new, position', hscans, rfl⟩ := ih h
    refine ⟨⟨k, ⟨position, next⟩, String.ofList matched⟩ :: new, position', hscans.next token, ?_⟩
    simp
  | case4 => cases h

theorem beforeEnd_append_eof {new : List Token} (h : ∀ t ∈ new, t.kind ≠ .eof) (span : Span) :
    beforeEnd (new ++ [⟨.eof, span, ""⟩]) = new := by
  have before : ∀ t ∈ new, decide (t.kind ≠ .eof) = true := fun t ht => decide_eq_true (h t ht)
  rw [beforeEnd, List.takeWhile_append_of_pos before]
  simp

/-- What the scanner reads, `Scans` says. -/
theorem scans_of_scan {source : String} {tokens : List Token}
    (h : Token.scan source = .ok tokens) :
    Scans [] source.toList ((beforeEnd tokens).map Token.bare) := by
  obtain ⟨new, position, hscans, rfl⟩ := scans_of_scanFrom h
  have kinds : ∀ t ∈ new, t.kind ≠ .eof := fun t ht =>
    hscans.kind_ne_eof t.bare (List.mem_map_of_mem ht)
  rwa [List.reverse_nil, List.nil_append, beforeEnd_append_eof kinds]

/-- What `Scans` says, the scanner reads. -/
theorem Scans.scan {source : String} {ts : List Token} (h : Scans [] source.toList ts) :
    ∃ tokens, Token.scan source = .ok tokens ∧ (beforeEnd tokens).map Token.bare = ts := by
  obtain ⟨position, new, rfl, hscan⟩ := h.scanFrom_eq 0 []
  have kinds : ∀ t ∈ new, t.kind ≠ .eof := fun t ht =>
    h.kind_ne_eof t.bare (List.mem_map_of_mem ht)
  refine ⟨new ++ [⟨.eof, .point position, ""⟩], ?_, by rw [beforeEnd_append_eof kinds]⟩
  rw [Token.scan, hscan, Token.scanFrom]
  simp

end ScopeLisp
