/-
ScopeLisp.Proofs.Syntax.Completion — which texts more input can complete.

A text is not a program for one of three reasons (`Expr.ofProgram_eq_error`). If it
leaves lists open, parentheses on the next line complete it. If a parenthesis closes
nothing, it does so whatever comes after, since all that stands before it is scanned
alike (`Scans.cut`). If the scanner stops at a quote, more input can close the string,
unless a line ends after a backslash in it or the text before it is itself refused.
Errors say of the first reason only that the text is incomplete, so what they say falls
short of what can be completed by the third (`Expr.completable_iff`).
-/
import ScopeLisp.Proofs.Number.ReadBack
import ScopeLisp.Proofs.Syntax.MaximalMunch
import ScopeLisp.Proofs.Syntax.Reading

namespace ScopeLisp

/-! ## Numbers -/

/-- What is written as a number can be read. -/
theorem NumberTail.readNumeral_isSome {d : Char} {v : List Char} (digit : d.isDigit = true)
    (tail : NumberTail v) (negative : Bool) :
    (readNumeral (String.ofList (signed negative (d :: v)))).isSome := by
  obtain ⟨p, text⟩ : ∃ p : PlainNumeral, p.text = d :: v := by
    cases tail with
    | whole hds =>
      exact ⟨⟨d :: v, [], by simp, List.forall_mem_cons.2 ⟨digit, hds⟩, nofun⟩, rfl⟩
    | @point ds fs hds hfs nonempty =>
      exact ⟨⟨d :: ds, fs, by simp, List.forall_mem_cons.2 ⟨digit, hds⟩, hfs⟩, if_neg nonempty⟩
  rw [← text, p.readNumeral_text]
  rfl

theorem Pattern.readNumeral_isSome {w : List Char} (h : w ∈ number.language) :
    (readNumeral (String.ofList w)).isSome := by
  cases w with
  | nil => exact absurd h nil_not_mem
  | cons c v =>
    rcases cons_mem_number.1 h with ⟨digit, tail⟩ | ⟨rfl, d, u, rfl, digit, tail⟩
    · exact tail.readNumeral_isSome digit false
    · exact tail.readNumeral_isSome digit true

theorem Pattern.eq_number_of_lexeme {p : Pattern} (h : p.lexeme = .token .number) :
    p = .number := by
  cases p <;> first | rfl | cases h

namespace Scans

variable {rest cs : List Char} {ts us : List Token}

/-- Every number that is scanned can be read. -/
theorem numbers (h : Scans rest cs ts) :
    ∀ t ∈ ts, t.kind = .number → (readNumeral t.text).isSome := by
  induction h with
  | done => exact fun _ h => nomatch h
  | layout _ _ ih => exact ih
  | comment _ _ _ ih => exact ih
  | @token c k body cs ts h _ ih =>
    refine List.forall_mem_cons.2 ⟨?_, ih⟩
    rintro rfl
    obtain ⟨p, lexeme, wins⟩ := Lexeme.first_wins h Lexeme.noConfusion
    obtain rfl := Pattern.eq_number_of_lexeme lexeme
    have matched := wins.matched
    rw [List.take_left] at matched
    exact Pattern.readNumeral_isSome matched

/-! ## What does not depend on what comes after -/

/-- What is scanned up to a delimiter is scanned alike whatever comes after it, and
at the end of the text. -/
theorem cut {d : Char} {b : List Char} (delimiter : isDelimiter d = true)
    (h : Scans (d :: b) cs ts) :
    ∃ a, cs = a ++ d :: b ∧
      ∀ rest : List Char, (∀ c ∈ rest.head?, c = d) → Scans rest (a ++ rest) ts := by
  induction h with
  | done => exact ⟨[], rfl, fun rest _ => .done⟩
  | @layout c cs ts hc _ ih =>
    obtain ⟨a, rfl, other⟩ := ih
    exact ⟨c :: a, rfl, fun rest hrest => .layout hc (other rest hrest)⟩
  | @comment line cs ts inside stop _ ih =>
    obtain ⟨a, rfl, other⟩ := ih
    refine ⟨';' :: (line ++ a), by simp, fun rest hrest => ?_⟩
    rw [List.cons_append, List.append_assoc]
    refine .comment inside ?_ (other rest hrest)
    cases a with
    | nil => exact fun c hc => hrest c hc ▸ stop d rfl
    | cons c a => exact stop
  | @token c k body cs ts first _ ih =>
    obtain ⟨a, rfl, other⟩ := ih
    refine ⟨c :: (body ++ a), by simp, fun rest hrest => ?_⟩
    rw [List.cons_append, List.append_assoc]
    refine .token ?_ (other rest hrest)
    rw [← List.append_assoc, Lexeme.first_eq_token_append (.cons delimiter b)] at first
    rw [← List.append_assoc, Lexeme.first_eq_token_append]
    · exact first
    · exact fun c hc => hrest c hc ▸ delimiter

/-- Scanning a whole text goes on where scanning a part of it stopped. -/
theorem goes_on {mid : List Char} (h : Scans mid cs ts) (h' : Scans [] cs us) :
    ∃ vs, us = ts ++ vs ∧ Scans [] mid vs := by
  obtain ⟨position, new, rfl, part⟩ := h.scanFrom_eq 0 []
  obtain ⟨position', all, rfl, whole⟩ := h'.scanFrom_eq 0 []
  rw [part, Token.scanFrom] at whole
  obtain ⟨new', position'', scans, same⟩ := scans_of_scanFrom whole
  have tokens : all = new ++ new' := by simpa using congrArg List.dropLast same
  exact ⟨_, by rw [tokens, List.map_append], scans⟩

/-- There is one way to scan a whole text. -/
theorem unique (h : Scans [] cs ts) (h' : Scans [] cs us) : us = ts := by
  obtain ⟨vs, rfl, none⟩ := h.goes_on h'
  rw [none.eq_nil, List.append_nil]

/-- A character that starts no gap starts a token. -/
theorem first_token {c : Char} (layout : isLayout c = false) (semicolon : c ≠ ';')
    (h : Scans [] (c :: cs) ts) :
    ∃ k body rest us, cs = body ++ rest ∧ ts = ⟨k, .point 0, String.ofList (c :: body)⟩ :: us ∧
      Lexeme.first c (body ++ rest) = (.token k, body.length) := by
  generalize hcs : c :: cs = whole at h
  cases h with
  | done => cases hcs
  | layout hc _ =>
    obtain ⟨rfl, -⟩ := List.cons.inj hcs
    rw [hc] at layout
    cases layout
  | comment => exact absurd (List.cons.inj hcs).1 semicolon
  | @token d k body rest us first _ =>
    obtain ⟨rfl, rfl⟩ := List.cons.inj hcs
    exact ⟨k, body, rest, us, rfl, rfl, first⟩

/-- Where a parenthesis closes, one stands. -/
theorem rightParen_split {t : Token} {vs : List Token} (kind : t.kind = .rightParen)
    (h : Scans rest cs (us ++ t :: vs)) : ∃ b, Scans (')' :: b) cs us := by
  generalize hts : us ++ t :: vs = ts at h
  induction h generalizing us with
  | done => simp at hts
  | layout hc _ ih =>
    obtain ⟨b, h⟩ := ih hts
    exact ⟨b, .layout hc h⟩
  | comment inside stop _ ih =>
    obtain ⟨b, h⟩ := ih hts
    exact ⟨b, .comment inside stop h⟩
  | @token c k body cs ts first h ih =>
    rcases List.append_eq_cons_iff.1 hts with ⟨rfl, same⟩ | ⟨us, rfl, rfl⟩
    · obtain ⟨rfl, rfl⟩ := List.cons.inj same
      obtain rfl : k = .rightParen := kind
      have closes : c = ')' ∧ body = [] := by
        simpa using Lexeme.first_eq_token first
      obtain ⟨rfl, rfl⟩ := closes
      exact ⟨cs, .done⟩
    · obtain ⟨b, h⟩ := ih rfl
      exact ⟨b, .token first h⟩

end Scans

/-! ## Closing what is open -/

/-- A parenthesis that closes a list. -/
def Token.closing : Token := ⟨.rightParen, .point 0, ")"⟩

theorem scans_closing (n : Nat) :
    Scans [] (List.replicate n ')') (List.replicate n Token.closing) := by
  induction n with
  | zero => exact .done
  | succ n ih => exact ih.rightParen

theorem Scans.of_rightParen {cs : List Char} {ts : List Token} (h : Scans [] (')' :: cs) ts) :
    ∃ us, ts = Token.closing :: us := by
  obtain ⟨k, body, rest, us, rfl, rfl, first⟩ := h.first_token rfl (by decide)
  rw [Lexeme.first_rightParen, Prod.mk.injEq, Lexeme.token.injEq] at first
  obtain ⟨rfl, none⟩ := first
  obtain rfl := List.length_eq_zero_iff.1 none.symm
  exact ⟨us, rfl⟩

namespace Reading

variable {r q : Reading} {t : Token} {ts us : List Token}

/-- As many parentheses as there are open lists close them all. -/
theorem takes_closing (r : Reading) :
    ∃ es, r.Takes (List.replicate r.opened.length Token.closing) ⟨es, []⟩ := by
  have numbers : ∀ t ∈ List.replicate r.opened.length Token.closing,
      t.kind = .number → (readNumeral t.text).isSome := by
    intro t ht kind
    obtain rfl := List.eq_of_mem_replicate ht
    cases kind
  have within : ∀ us, us <+: List.replicate r.opened.length Token.closing →
      Token.count .rightParen us ≤ r.opened.length + Token.count .leftParen us := by
    intro us front
    have all := front.length_le
    have some := List.countP_le_length (p := (·.kind = TokenKind.rightParen)) (l := us)
    rw [List.length_replicate] at all
    simp only [Token.count]
    omega
  obtain ⟨⟨es, opened⟩, taken⟩ := exists_takes numbers within
  have closed := taken.length_opened
  simp [Token.count, List.countP_replicate, Token.closing] at closed
  subst closed
  exact ⟨es, taken⟩

/-- Tokens are refused at a parenthesis that closes nothing. -/
theorem exists_refused (numbers : ∀ t ∈ ts, t.kind = .number → (readNumeral t.text).isSome)
    (refused : ¬ ∃ q, r.Takes ts q) :
    ∃ us t vs q, ts = us ++ t :: vs ∧ r.Takes us q ∧ t.kind = .rightParen ∧ q.opened = [] := by
  induction ts generalizing r with
  | nil => exact absurd ⟨r, takes_nil.2 rfl⟩ refused
  | cons t ts ih =>
    obtain ⟨number, numbers⟩ := List.forall_mem_cons.1 numbers
    by_cases closes : t.kind = .rightParen → r.opened ≠ []
    · obtain ⟨p, stepped⟩ := exists_step number closes
      obtain ⟨us, u, vs, q, rfl, taken, kind, none⟩ := ih (r := p) numbers fun ⟨q, taken⟩ =>
        refused ⟨q, takes_cons.2 ⟨p, stepped, taken⟩⟩
      exact ⟨t :: us, u, vs, q, rfl, takes_cons.2 ⟨p, stepped, taken⟩, kind, none⟩
    · obtain ⟨kind, none⟩ := Classical.not_imp.1 closes
      exact ⟨[], t, ts, r, rfl, takes_nil.2 rfl, kind, not_not.1 none⟩

end Reading

/-- A text whose tokens are taken, holds expressions when its open lists are closed. -/
theorem exists_holds_closing {cs : List Char} {ts : List Token} {r : Reading}
    (scans : Scans (List.replicate r.opened.length ')') cs ts) (taken : Reading.start.Takes ts r) :
    ∃ es, Holds cs es := by
  obtain ⟨es, closed⟩ := r.takes_closing
  refine ⟨es.reverse, _, scans.trans (scans_closing _), Reading.takes_append.2 ⟨r, taken, ?_⟩⟩
  rwa [List.reverse_reverse]

/-- Where a text with more after it holds expressions, what is scanned up to a delimiter
can be taken, and so can the rest. -/
theorem Holds.goes_on {cs b more : List Char} {d : Char} {ts : List Token} {es : List Expr}
    (holds : Holds (cs ++ more) es) (delimiter : isDelimiter d = true)
    (scans : Scans (d :: b) cs ts) :
    ∃ r vs, Reading.start.Takes ts r ∧ Scans [] (d :: (b ++ more)) vs ∧
      r.Takes vs ⟨es.reverse, []⟩ := by
  obtain ⟨ws, whole, taken⟩ := holds
  obtain ⟨a, rfl, other⟩ := scans.cut delimiter
  have part : Scans (d :: (b ++ more)) (a ++ d :: b ++ more) ts := by
    rw [List.append_assoc]
    exact other (d :: (b ++ more)) (by simp)
  obtain ⟨vs, rfl, after⟩ := part.goes_on whole
  obtain ⟨r, before, taken⟩ := Reading.takes_append.1 taken
  exact ⟨r, vs, before, after, taken⟩

/-- A text whose tokens are refused, is refused whatever comes after it. -/
theorem not_holds_of_refused {cs : List Char} {ts : List Token} (scans : Scans [] cs ts)
    (refused : ¬ ∃ r, Reading.start.Takes ts r) (more : List Char) (es : List Expr) :
    ¬ Holds (cs ++ more) es := by
  intro holds
  obtain ⟨us, t, vs, q, rfl, before, kind, none⟩ := Reading.exists_refused scans.numbers refused
  obtain ⟨b, part⟩ := scans.rightParen_split kind
  obtain ⟨q', after, taken, scans, closed⟩ := holds.goes_on rfl part
  obtain rfl : q' = q := Except.ok.inj (taken.symm.trans before)
  obtain ⟨others, rfl⟩ := scans.of_rightParen
  obtain ⟨p, stepped, -⟩ := Reading.takes_cons.1 closed
  rw [Reading.step, none] at stepped
  cases stepped

/-! ## Strings that are not closed -/

/-- After the units of a string that is not closed stands nothing, a last backslash, or
a backslash at the end of a line. -/
theorem Pattern.Unmatched.after_units {tail : List Char} (h : Pattern.Unmatched ('"' :: tail)) :
    tail.drop (stringUnits tail) = [] ∨ tail.drop (stringUnits tail) = ['\\'] ∨
      ∃ rest, tail.drop (stringUnits tail) = '\\' :: '\n' :: rest := by
  have all := (stringBody_take_units tail).stringUnits_append (tail.drop (stringUnits tail))
  rw [List.take_append_drop, List.length_take_of_le (stringUnits_le_length tail)] at all
  have no_unit : stringUnits (tail.drop (stringUnits tail)) = 0 := by omega
  have no_quote : (tail.drop (stringUnits tail)).head? ≠ some '"' := by
    intro quote
    obtain ⟨-, first⟩ := h.first
    rw [Lexeme.first_doubleQuote, if_pos quote] at first
    cases first
  generalize tail.drop (stringUnits tail) = after at no_unit no_quote
  rcases after with _ | ⟨c, after⟩
  · exact .inl rfl
  by_cases backslash : c = '\\'
  · subst backslash
    rcases after with _ | ⟨d, rest⟩
    · exact .inr (.inl rfl)
    · by_cases newline : d = '\n'
      · exact .inr (.inr ⟨rest, by rw [newline]⟩)
      · simp [stringUnits, newline] at no_unit
  · have quote : c ≠ '"' := fun same => no_quote (congrArg some same)
    simp [stringUnits, backslash, quote] at no_unit

namespace Scans

variable {rest cs : List Char} {ts : List Token}

/-- A string that is scanned is closed after its units. -/
theorem string_closed (h : Scans [] ('"' :: cs) ts) :
    ∃ units rest, StringBody units ∧ cs = units ++ '"' :: rest := by
  obtain ⟨k, body, rest, us, rfl, -, first⟩ := h.first_token rfl (by decide)
  obtain ⟨-, units, hunits, rfl⟩ := Lexeme.first_eq_string.1 first
  exact ⟨units, rest, hunits, by simp⟩

/-- A string up to its quote is one token. -/
theorem string {units : List Char} (h : StringBody units) (rest : List Char) :
    Scans rest ('"' :: (units ++ '"' :: rest))
      [⟨.string, .point 0, String.ofList ('"' :: (units ++ ['"']))⟩] := by
  have token : Scans rest ('"' :: (units ++ ['"'] ++ rest)) _ :=
    .token (Lexeme.first_eq_string.2 ⟨rfl, units, h, rfl⟩) .done
  simpa using token

end Scans

/-! ## Why a text is not a program -/

theorem Munches.scans {rest cs : List Char} {pieces : List Piece} (h : Munches rest cs pieces) :
    ∃ ts, Scans rest cs ts := by
  induction h with
  | stop => exact ⟨[], .done⟩
  | @take p word cs pieces wins _ ih =>
    obtain ⟨ts, scans⟩ := ih
    obtain ⟨c, v, n, rfl, first, -, left⟩ := Lexeme.first_of_wins wins
    rw [← left] at scans
    rw [Pattern.lexeme] at first
    cases hkind : p.kind? with
    | none =>
      rw [hkind] at first
      exact ⟨_, scans.gap first⟩
    | some kind =>
      rw [hkind] at first
      exact ⟨_, scans.next first⟩

namespace Reading

variable {r : Reading} {ts : List Token} {e : SyntaxError}

/-- Nothing but a parenthesis is refused where every number can be read. -/
theorem fault_of_foldlM (numbers : ∀ t ∈ ts, t.kind = .number → (readNumeral t.text).isSome)
    (h : ts.foldlM step r = .error e) : e.fault = .unexpectedClose := by
  have refused : ¬ ∃ q, r.Takes ts q := by
    rintro ⟨q, taken⟩
    cases taken.symm.trans h
  obtain ⟨us, t, vs, q, rfl, before, kind, none⟩ := exists_refused numbers refused
  rw [Takes] at before
  simp only [List.foldlM_append, List.foldlM_cons, before, step, kind, none, bind,
    Except.bind] at h
  obtain rfl := Except.error.inj h
  rfl

end Reading

/-- The scanner has read the tokens `ts` from the characters `a` and stops with an error
at the quote after them. -/
structure StopsAt (source : String) (e : SyntaxError) (a tail : List Char) (ts : List Token) :
    Prop where
  text : source.toList = a ++ '"' :: tail
  scans : Scans ('"' :: tail) source.toList ts
  unmatched : Pattern.Unmatched ('"' :: tail)
  offset : e.offset = byteLength a
  fault : e.fault = .invalidToken (String.ofList ('"' :: tail.take (stringUnits tail)))

/-- Why a text is not a program: a list is left open, a parenthesis closes nothing, or
the scanner stops at a quote. -/
theorem Expr.ofProgram_eq_error {source : String} {e : SyntaxError}
    (h : Expr.ofProgram source = .error e) :
    (∃ ts r, Scans [] source.toList ts ∧ Reading.start.Takes ts r ∧ e.fault = .unclosedList) ∨
      (∃ ts, Scans [] source.toList ts ∧ (¬ ∃ r, Reading.start.Takes ts r) ∧
        e.fault = .unexpectedClose) ∨
      ∃ a tail ts, StopsAt source e a tail ts := by
  obtain ⟨pieces, rest, munches, stuck⟩ := exists_munches source.toList
  obtain rfl | ⟨tail, rfl⟩ := stuck.cases
  · obtain ⟨tokens, scanned⟩ : ∃ tokens, Token.scan source = .ok tokens :=
      ⟨_, Token.scan_of_munches munches⟩
    have scans := scans_of_scan scanned
    simp only [Expr.ofProgram, scanned, bind, Except.bind, readProgram, readAll] at h
    cases read : (beforeEnd tokens).foldlM Reading.step .start with
    | error e' =>
      rw [read] at h
      obtain rfl : e' = e := Except.error.inj h
      refine .inr (.inl ⟨_, scans, ?_, Reading.fault_of_foldlM ?_ read⟩)
      · rintro ⟨r, taken⟩
        obtain ⟨r', taken', -⟩ := (Reading.takes_bare (r := .start)).1 taken
        cases taken'.symm.trans read
      · exact fun t ht => scans.numbers t.bare (List.mem_map_of_mem ht)
    | ok r =>
      have taken : Reading.start.Takes ((beforeEnd tokens).map Token.bare) r.bare :=
        (Reading.takes_bare (r := .start)).2 ⟨r, read, rfl⟩
      rw [read] at h
      obtain ⟨done, _ | ⟨l, outer⟩⟩ := r
      · cases h
      · obtain rfl := Except.error.inj h
        exact .inl ⟨_, _, scans, taken, rfl⟩
  · obtain ⟨ts, scans⟩ := munches.scans
    have fault := Token.scan_of_unmatched munches stuck
    simp only [Expr.ofProgram, fault, bind, Except.bind] at h
    cases h
    exact .inr (.inr ⟨_, tail, ts, munches.chars_append.symm, scans, stuck, rfl, rfl⟩)

/-- The characters before the quote are a text of their own. -/
theorem StopsAt.alone {source : String} {e : SyntaxError} {a tail : List Char} {ts : List Token}
    (h : StopsAt source e a tail ts) : Scans [] a ts := by
  obtain ⟨a', text, other⟩ := h.scans.cut rfl
  obtain rfl : a = a' := List.append_cancel_right (h.text.symm.trans text)
  simpa using other [] nofun

/-! ## Texts that more input can complete -/

/-- A text that is a program, or only leaves lists open. -/
def GoesOn (source : String) : Prop :=
  (∃ program, Expr.ofProgram source = .ok program) ∨
    ∃ e, Expr.ofProgram source = .error e ∧ e.isIncomplete = true

/-- Such a text is one whose tokens can be taken. -/
theorem goesOn_iff {source : String} {ts : List Token} (scans : Scans [] source.toList ts) :
    GoesOn source ↔ ∃ r, Reading.start.Takes ts r := by
  constructor
  · rintro (⟨program, h⟩ | ⟨e, h, incomplete⟩)
    · obtain ⟨es, ⟨us, scans', taken⟩, -⟩ := Expr.ofProgram_eq_ok.1 h
      exact ⟨_, scans.unique scans' ▸ taken⟩
    · rcases Expr.ofProgram_eq_error h with
        ⟨us, r, scans', taken, -⟩ | ⟨_, -, -, fault⟩ | ⟨_, _, _, stops⟩
      · exact ⟨r, scans.unique scans' ▸ taken⟩
      · simp [SyntaxError.isIncomplete, fault] at incomplete
      · simp [SyntaxError.isIncomplete, stops.fault] at incomplete
  · rintro ⟨r, taken⟩
    by_cases closed : r.opened = []
    · obtain ⟨done, opened⟩ := r
      obtain rfl : opened = [] := closed
      refine .inl ⟨_, Expr.ofProgram_eq_ok.2 ⟨done.reverse, ⟨ts, scans, ?_⟩, rfl⟩⟩
      rwa [List.reverse_reverse]
    · exact .inr (Expr.ofProgram_incomplete scans taken closed)

/-- The text ends in a string that is not closed, where the error stands, after a text
that goes on. -/
def OpensString (source : String) (e : SyntaxError) : Prop :=
  ∃ before units : String,
    (source = before ++ "\"" ++ units ∨ source = before ++ "\"" ++ units ++ "\\") ∧
      e.fault = .invalidToken ("\"" ++ units) ∧ e.offset = before.utf8ByteSize ∧ GoesOn before

/-- What a text with more after it holds, it holds as a program. -/
theorem Expr.ofProgram_append {source : String} {more : List Char} {es : List Expr}
    (h : Holds (source.toList ++ more) es) :
    ∃ more program, Expr.ofProgram (source ++ more) = .ok program := by
  refine ⟨String.ofList more, _, Expr.ofProgram_eq_ok.2 ⟨es, ?_, rfl⟩⟩
  rwa [String.toList_append, String.toList_ofList]

/-- A text that leaves lists open is completed by closing them, on the next line
because it can end in a comment. -/
theorem Expr.completable_of_open {source : String} {ts : List Token} {r : Reading}
    (scans : Scans [] source.toList ts) (taken : Reading.start.Takes ts r) :
    ∃ more program, Expr.ofProgram (source ++ more) = .ok program := by
  have nextLine : Scans (List.replicate r.opened.length ')')
      (source.toList ++ '\n' :: List.replicate r.opened.length ')') ts := by
    have closing : Scans _ ('\n' :: List.replicate r.opened.length ')') [] := .layout rfl .done
    simpa using (scans.append (.newline _)).trans closing
  obtain ⟨es, holds⟩ := exists_holds_closing nextLine taken
  exact Expr.ofProgram_append holds

/-- A text that ends in a string is completed by closing the string and the lists
before it. -/
theorem Expr.completable_of_string {source : String} {a tail : List Char} {ts : List Token}
    {r : Reading} (text : source.toList = a ++ '"' :: tail)
    (stop : StringBody tail ∨ ∃ units, StringBody units ∧ tail = units ++ ['\\'])
    (scans : Scans ('"' :: tail) source.toList ts) (taken : Reading.start.Takes ts r) :
    ∃ more program, Expr.ofProgram (source ++ more) = .ok program := by
  -- A last backslash stands for itself with another one after it.
  obtain ⟨units, more, body, closed⟩ : ∃ units more, StringBody units ∧ tail ++ more = units := by
    rcases stop with units | ⟨units, hunits, rfl⟩
    · exact ⟨tail, [], units, List.append_nil tail⟩
    · refine ⟨units ++ ['\\', '\\'], ['\\'], ?_, by simp⟩
      exact hunits.append (.escaped (by decide) .nil)
  let token : Token := ⟨.string, .point 0, String.ofList ('"' :: (units ++ ['"']))⟩
  let literal : Expr := .str (literalValue token.text)
  let closing := List.replicate (r.add literal).opened.length ')'
  obtain ⟨a', text', other⟩ := scans.cut rfl
  obtain rfl : a = a' := List.append_cancel_right (text.symm.trans text')
  have string : Scans closing (a ++ '"' :: (units ++ '"' :: closing)) (ts ++ [token]) :=
    (other ('"' :: (units ++ '"' :: closing)) (by simp)).trans (Scans.string body closing)
  have taken' : Reading.start.Takes (ts ++ [token]) (r.add literal) :=
    Reading.takes_append.2 ⟨r, taken, Reading.takes_singleton.2 rfl⟩
  obtain ⟨es, holds⟩ := exists_holds_closing string taken'
  have whole : source.toList ++ (more ++ '"' :: closing) =
      a ++ '"' :: (units ++ '"' :: closing) := by
    rw [text, List.append_assoc, List.cons_append, ← List.append_assoc tail, closed]
  exact Expr.ofProgram_append (whole ▸ holds)

/-- Where more input closes the string that a text ends in, the tokens before it can be
taken, and no line ends after a backslash. -/
theorem takes_of_holds {cs tail more : List Char} {ts : List Token} {es : List Expr}
    (scans : Scans ('"' :: tail) cs ts) (stuck : Pattern.Unmatched ('"' :: tail))
    (holds : Holds (cs ++ more) es) :
    (∃ r, Reading.start.Takes ts r) ∧
      (tail.drop (stringUnits tail) = [] ∨ tail.drop (stringUnits tail) = ['\\']) := by
  obtain ⟨r, vs, taken, string, -⟩ := holds.goes_on rfl scans
  refine ⟨⟨r, taken⟩, ?_⟩
  obtain ⟨units, rest, hunits, closed⟩ := string.string_closed
  rcases stuck.after_units with none | backslash | ⟨line, broken⟩
  · exact .inl none
  · exact .inr backslash
  · -- The units end at the backslash, where the string would have to be closed.
    have units_tail := stringBody_take_units tail
    rw [← List.take_append_drop (stringUnits tail) tail, broken, List.append_assoc] at closed
    have count := congrArg stringUnits closed
    rw [units_tail.stringUnits_append, hunits.stringUnits_append] at count
    have same := (List.append_inj closed count).2
    cases same

theorem ofList_doubleQuote (cs : List Char) :
    String.ofList ('"' :: cs) = "\"" ++ String.ofList cs :=
  @String.ofList_append ['"'] cs

namespace StopsAt

variable {source : String} {e : SyntaxError} {a tail : List Char} {ts : List Token}

/-- The text in three parts: before the quote, the units after it, and what stops them. -/
theorem source_eq (h : StopsAt source e a tail ts) :
    source = String.ofList a ++ "\"" ++ String.ofList (tail.take (stringUnits tail)) ++
      String.ofList (tail.drop (stringUnits tail)) :=
  calc
    source = String.ofList (a ++ '"' :: tail) := by rw [← h.text, String.ofList_toList]
    _ = String.ofList a ++ ("\"" ++ String.ofList tail) := by
      rw [String.ofList_append, ofList_doubleQuote]
    _ = _ := by
      rw [String.append_assoc, String.append_assoc, ← @String.ofList_append (tail.take _),
        List.take_append_drop]

theorem opensString (h : StopsAt source e a tail ts) {more : String} {program : Expr}
    (complete : Expr.ofProgram (source ++ more) = .ok program) : OpensString source e := by
  obtain ⟨es, holds, -⟩ := Expr.ofProgram_eq_ok.1 complete
  rw [String.toList_append] at holds
  obtain ⟨taken, stop⟩ := takes_of_holds h.scans h.unmatched holds
  refine ⟨String.ofList a, String.ofList (tail.take (stringUnits tail)), ?_, ?_, ?_, ?_⟩
  · have whole := h.source_eq
    rcases stop with none | backslash
    · rw [none, String.ofList_nil, String.append_empty] at whole
      exact .inl whole
    · rw [backslash] at whole
      exact .inr whole
  · rw [h.fault, ofList_doubleQuote]
  · rw [h.offset, utf8ByteSize_ofList]
  · exact (goesOn_iff (by rw [String.toList_ofList]; exact h.alone)).2 taken

theorem completable (h : StopsAt source e a tail ts) (opens : OpensString source e) :
    ∃ more program, Expr.ofProgram (source ++ more) = .ok program := by
  obtain ⟨before, units, source', fault', offset', goesOn⟩ := opens
  obtain ⟨more, hmore, whole⟩ : ∃ more, (more = [] ∨ more = ['\\']) ∧
      source.toList = before.toList ++ '"' :: (units.toList ++ more) := by
    rcases source' with rfl | rfl
    · exact ⟨[], .inl rfl, by simp⟩
    · exact ⟨['\\'], .inr rfl, by simp⟩
  have size : byteLength a = byteLength before.toList := by
    rw [← h.offset, offset', byteLength_toList]
  obtain rfl := eq_of_byteLength (h.text.symm.trans whole) size
  obtain rfl : tail = units.toList ++ more := by simpa using h.text.symm.trans whole
  have body : StringBody units.toList := by
    have same := SyntaxFault.invalidToken.inj (fault'.symm.trans h.fault)
    rw [ofList_doubleQuote] at same
    rw [(String.append_right_inj _).1 same, String.toList_ofList]
    exact stringBody_take_units _
  obtain ⟨r, taken⟩ := (goesOn_iff h.alone).1 goesOn
  refine Expr.completable_of_string h.text ?_ h.scans taken
  rcases hmore with rfl | rfl
  · exact .inl (by rwa [List.append_nil])
  · exact .inr ⟨_, body, rfl⟩

end StopsAt

/-- A text that is not a program can be completed if the error says so, and also if it
ends in a string that is not closed. -/
theorem Expr.completable_iff {source : String} {e : SyntaxError}
    (h : Expr.ofProgram source = .error e) :
    (∃ more program, Expr.ofProgram (source ++ more) = .ok program) ↔
      e.isIncomplete = true ∨ OpensString source e := by
  rcases Expr.ofProgram_eq_error h with
    ⟨ts, r, scans, taken, fault⟩ | ⟨ts, scans, refused, fault⟩ | ⟨a, tail, ts, stops⟩
  · have incomplete : e.isIncomplete = true := by rw [SyntaxError.isIncomplete, fault]
    exact iff_of_true (Expr.completable_of_open scans taken) (.inl incomplete)
  · have complete : e.isIncomplete = false := by rw [SyntaxError.isIncomplete, fault]
    refine iff_of_false ?_ ?_
    · rintro ⟨more, program, read⟩
      obtain ⟨es, holds, -⟩ := Expr.ofProgram_eq_ok.1 read
      rw [String.toList_append] at holds
      exact not_holds_of_refused scans refused _ es holds
    · rintro (incomplete | ⟨_, _, -, fault', -⟩)
      · simp [complete] at incomplete
      · simp [fault] at fault'
  · constructor
    · rintro ⟨more, program, complete⟩
      exact .inr (stops.opensString complete)
    · rintro (incomplete | opens)
      · simp [SyntaxError.isIncomplete, stops.fault] at incomplete
      · exact stops.completable opens

theorem Expr.completable_iff_oops :
    Expr.ofProgram "(print \"oops" = .error ⟨.invalidToken "\"oops", 7, 5⟩ ∧
      OpensString "(print \"oops" ⟨.invalidToken "\"oops", 7, 5⟩ := by
  have h : Expr.ofProgram "(print \"oops" = .error ⟨.invalidToken "\"oops", 7, 5⟩ := by cbv
  have closed : Expr.ofProgram ("(print \"oops" ++ "\")") =
      .ok (.block [.form "print" [.str "oops"]]) := by
    cbv
  exact ⟨h, ((Expr.completable_iff h).1 ⟨_, _, closed⟩).resolve_left (by decide)⟩

/-- An error can say that a text is not incomplete though more input completes it. -/
theorem Expr.open_string_not_incomplete :
    ∃ e, Expr.ofProgram "(print \"oops" = .error e ∧ e.isIncomplete = false ∧
      ∃ more program, Expr.ofProgram ("(print \"oops" ++ more) = .ok program := by
  have closed : Expr.ofProgram ("(print \"oops" ++ "\")") =
      .ok (.block [.form "print" [.str "oops"]]) := by
    cbv
  exact ⟨⟨.invalidToken "\"oops", 7, 5⟩, by cbv, rfl, "\")", _, closed⟩

end ScopeLisp
