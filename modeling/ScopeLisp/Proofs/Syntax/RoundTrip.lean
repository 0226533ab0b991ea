/-
ScopeLisp.Proofs.Syntax.RoundTrip — a printed expression reads back.

A text is a token of its own (`IsToken`) if nothing but a delimiter must stand after
it for it to be read as one token. Printed numbers, strings and symbols are such
texts, and spaces and parentheses are the delimiters that are printed between them.
`Reads rest cs es` says that the characters `cs`, up to where `rest` is left, are
read as the expressions `es`; by recursion over an expression its text is read as an
expression that equals it (`Expr.Legible.reads_write`).

What was read from a source text has only symbols that are tokens of their own
(`Holds.lexical`), so it reads back if its numbers are finite (`Expr.reads_back`).
-/
import ScopeLisp.Proofs.Forms
import ScopeLisp.Proofs.Number.ReadBack
import ScopeLisp.Proofs.Syntax.Reading

namespace ScopeLisp

/-! ## Tokens of their own -/

/-- The characters are one token, to their end. -/
def IsToken (k : TokenKind) (cs : List Char) : Prop :=
  ∃ c body, cs = c :: body ∧ Lexeme.first c body = (.token k, body.length)

theorem IsToken.scans {k : TokenKind} {cs rest : List Char} (h : IsToken k cs)
    (stop : Delimited rest) : Scans rest (cs ++ rest) [⟨k, .point 0, String.ofList cs⟩] := by
  obtain ⟨c, body, rfl, first⟩ := h
  exact .token ((Lexeme.first_eq_token_of_delimited stop).2 first) .done

/-! ## Numbers -/

/-- After its first digit, all of a plain numeral belongs to the number. -/
theorem PlainNumeral.numberTail_eq (p : PlainNumeral) {d : Char} {ds : List Char}
    (h : p.text = d :: ds) : numberTail ds = ds.length := by
  obtain ⟨whole, fraction, nonempty, whole_digits, fraction_digits⟩ := p
  obtain ⟨w, ws, rfl⟩ := List.exists_cons_of_ne_nil nonempty
  obtain ⟨-, digits⟩ := List.forall_mem_cons.1 whole_digits
  simp only [text] at h
  split at h
  next =>
    obtain ⟨rfl, rfl⟩ := List.cons.inj h
    obtain ⟨taken, left⟩ := Prod.mk.inj (spanDigits_digits digits)
    simp [numberTail, taken, left]
  next some_fraction =>
    obtain ⟨rfl, rfl⟩ := List.cons.inj h
    have nonempty : fraction ≠ [] := some_fraction
    obtain ⟨taken, left⟩ := Prod.mk.inj (spanDigits_point digits fraction)
    obtain ⟨all, -⟩ := Prod.mk.inj (spanDigits_digits fraction_digits)
    simp [numberTail, taken, left, all, nonempty]
    omega

/-- A printed number is a token, and a minus sign before it is no symbol. -/
theorem PlainNumeral.isToken (p : PlainNumeral) (negative : Bool) :
    IsToken .number (signed negative p.text) := by
  obtain ⟨d, ds, text, digit⟩ := p.text_eq_cons
  have tail := p.numberTail_eq text
  rw [text]
  cases negative with
  | false => exact ⟨d, ds, rfl, by rw [Lexeme.first_digit digit, tail]⟩
  | true =>
    have after : numberAfterSign (d :: ds) = (d :: ds).length := by
      rw [numberAfterSign, if_pos digit, tail, List.length_cons, Nat.add_comm]
    have longest : ((d :: ds).takeWhile isSymbolChar).length ≤ (d :: ds).length :=
      (List.takeWhile_prefix isSymbolChar).length_le
    refine ⟨'-', d :: ds, rfl, ?_⟩
    rw [Lexeme.first_symbolChar (by decide) (by decide), after]
    exact if_pos ⟨rfl, Nat.succ_pos _, longest⟩

/-! ## Strings -/

theorem escape_cons (c : Char) (cs : List Char) : escape (c :: cs) = escapeChar c ++ escape cs :=
  List.flatMap_cons

/-- What is escaped is whole units of a string. -/
theorem stringBody_escape (cs : List Char) : StringBody (escape cs) := by
  induction cs with
  | nil => exact .nil
  | cons c cs ih =>
    rw [escape_cons, escapeChar]
    split_ifs with quote backslash newline tab
    · exact .escaped (by decide) ih
    · exact .escaped (by decide) ih
    · exact .escaped (by decide) ih
    · exact .escaped (by decide) ih
    · exact .plain quote backslash ih

theorem unescape_escape (cs : List Char) : unescape (escape cs) = cs := by
  induction cs with
  | nil => rfl
  | cons c cs ih =>
    rw [escape_cons, escapeChar]
    split_ifs with quote backslash newline tab
    · simp [unescape, ih, quote, unescapeChar]
    · simp [unescape, ih, backslash, unescapeChar]
    · simp [unescape, ih, newline, unescapeChar]
    · simp [unescape, ih, tab, unescapeChar]
    · simp [unescape, ih, backslash]

theorem isToken_string (cs : List Char) : IsToken .string ('"' :: (escape cs ++ ['"'])) := by
  have first : Lexeme.first '"' (escape cs ++ ['"'] ++ []) =
      (.token .string, (escape cs ++ ['"']).length) :=
    Lexeme.first_eq_string.2 ⟨rfl, _, stringBody_escape cs, rfl⟩
  rw [List.append_nil] at first
  exact ⟨_, _, rfl, first⟩

theorem literalValue_escape (s : String) :
    literalValue (String.ofList ('"' :: (escape s.toList ++ ['"']))) = s := by
  simp [literalValue, stripQuotes, unescape_escape]

/-! ## Symbols -/

/-- The scanner reads the text as one symbol. -/
def IsSymbol (name : String) : Prop :=
  ∃ span stop, Token.scan name = .ok [⟨.symbol, span, name⟩, ⟨.eof, stop, ""⟩]

theorem Scans.length_le {rest cs : List Char} {ts : List Token} (h : Scans rest cs ts) :
    ∀ t ∈ ts, t.text.toList.length ≤ cs.length := by
  induction h with
  | done => exact nofun
  | layout _ _ ih => exact fun t ht => (ih t ht).trans (Nat.le_succ _)
  | comment _ _ _ ih =>
    intro t ht
    have := ih t ht
    simp only [List.length_cons, List.length_append]
    omega
  | token _ _ ih =>
    refine List.forall_mem_cons.2 ⟨by simp, fun t ht => ?_⟩
    have := ih t ht
    simp only [List.length_cons, List.length_append]
    omega

/-- A token that takes all of a text is a token of its own. -/
theorem Scans.isToken {cs : List Char} {t : Token} (h : Scans [] cs [t])
    (whole : t.text.toList = cs) : IsToken t.kind cs := by
  generalize hts : [t] = ts at h
  cases h with
  | done => cases hts
  | layout _ h =>
    have := h.length_le t (by simp [← hts])
    simp [whole] at this
  | comment _ _ h =>
    have := h.length_le t (by simp [← hts])
    simp [whole] at this
  | @token c k body cs ts first _ =>
    obtain ⟨rfl, rfl⟩ := List.cons.inj hts
    obtain rfl : cs = [] := by simpa using whole
    rw [List.append_nil] at first ⊢
    exact ⟨c, body, rfl, first⟩

theorem isSymbol_iff {name : String} : IsSymbol name ↔ IsToken .symbol name.toList := by
  constructor
  · rintro ⟨span, stop, scanned⟩
    exact (scans_of_scan scanned).isToken rfl
  · rintro ⟨c, body, text, first⟩
    have first : Lexeme.first c (body ++ []) = (.token .symbol, body.length) := by
      rwa [List.append_nil]
    have scanned : Token.scan name = _ :=
      (congrArg (Token.scanFrom 0 []) (by simp [text])).trans (Token.scanFrom_token first)
    rw [← text, String.ofList_toList, Token.scanFrom] at scanned
    exact ⟨_, _, scanned⟩

/-- A symbol ends before a delimiter. -/
theorem Lexeme.delimited_of_symbol {c : Char} {body cs : List Char}
    (h : first c (body ++ cs) = (.token .symbol, body.length)) : Delimited cs := by
  have chars : ∀ d ∈ c :: body, isSymbolChar d = true := by
    rcases first_eq_token h with ⟨-, other, -⟩ | ⟨-, other, -⟩ | ⟨-, other, -⟩ | ⟨-, chars⟩
    · cases other
    · cases other
    · cases other
    · exact chars
  obtain ⟨symbolic, chars⟩ := List.forall_mem_cons.1 chars
  cases digit : c.isDigit with
  | true =>
    rw [first_digit digit] at h
    cases h
  | false =>
    rw [first_symbolChar symbolic digit] at h
    split at h
    · cases h
    · intro d hd
      have ends := (Prod.mk.inj h).2
      rw [List.takeWhile_append_of_pos chars, List.length_append, Nat.add_eq_left,
        List.length_eq_zero_iff] at ends
      obtain ⟨ds, rfl⟩ := List.head?_eq_some_iff.1 hd
      simpa [List.takeWhile_cons, isSymbolChar] using ends

theorem Scans.isSymbol {rest cs : List Char} {ts : List Token} (h : Scans rest cs ts) :
    ∀ t ∈ ts, t.kind = .symbol → IsSymbol t.text := by
  induction h with
  | done => exact nofun
  | layout _ _ ih => exact ih
  | comment _ _ _ ih => exact ih
  | @token c k body cs ts first _ ih =>
    refine List.forall_mem_cons.2 ⟨fun kind => ?_, ih⟩
    obtain rfl : k = .symbol := kind
    have stop := Lexeme.delimited_of_symbol first
    rw [isSymbol_iff, String.toList_ofList]
    exact ⟨c, body, rfl, (Lexeme.first_eq_token_of_delimited stop).1 first⟩

namespace Expr

/-- Every symbol of the expression is read as one. -/
def Lexical (e : Expr) : Prop := ∀ name, (symbol name).Occurs e → IsSymbol name

theorem Lexical.list {items : List Expr} (h : ∀ e ∈ items, e.Lexical) : (list items).Lexical := by
  rintro name (_ | ⟨mem, occurs⟩)
  exact h _ mem name occurs

end Expr

/-- What a text holds has only symbols that are read as such. -/
theorem Holds.lexical {cs : List Char} {es : List Expr} (h : Holds cs es) :
    ∀ e ∈ es, e.Lexical := by
  obtain ⟨ts, scans, taken⟩ := h
  have atoms : ∀ t ∈ ts, ∀ e, t.atom? = some e → e.Lexical := by
    intro t ht e atom
    have symbol := scans.isSymbol t ht
    obtain ⟨kind, span, text⟩ := t
    cases kind with
    | number =>
      obtain ⟨x, -, rfl⟩ := Option.map_eq_some_iff.1 atom
      exact fun name occurs => nomatch occurs
    | string =>
      cases atom
      exact fun name occurs => nomatch occurs
    | symbol =>
      cases atom
      rintro name ⟨⟩
      exact symbol rfl
    | leftParen | rightParen | eof => cases atom
  have nothing : Reading.start.All Expr.Lexical := ⟨List.forall_mem_nil _, List.forall_mem_nil _⟩
  have all := nothing.takes (fun _ => Expr.Lexical.list) atoms taken
  exact fun e he => all.done e (List.mem_reverse.2 he)

/-! ## Reading what is printed -/

/-- The characters `cs`, up to where `rest` is left, are read as the expressions. -/
def Reads (rest cs : List Char) (es : List Expr) : Prop :=
  ∃ ts, Scans rest cs ts ∧ ∀ r : Reading, r.Takes ts (es.foldl Reading.add r)

namespace Reads

variable {rest mid cs : List Char} {es fs : List Expr}

theorem done : Reads rest rest [] := ⟨[], .done, fun _ => Reading.takes_nil.2 rfl⟩

theorem trans (h : Reads mid cs es) (h' : Reads rest mid fs) : Reads rest cs (es ++ fs) := by
  obtain ⟨ts, scans, taken⟩ := h
  obtain ⟨us, scans', taken'⟩ := h'
  refine ⟨ts ++ us, scans.trans scans', fun r => ?_⟩
  rw [List.foldl_append]
  exact Reading.takes_append.2 ⟨_, taken r, taken' _⟩

theorem space (h : Reads rest cs es) : Reads rest (' ' :: cs) es := by
  obtain ⟨ts, scans, taken⟩ := h
  exact ⟨ts, .layout rfl scans, taken⟩

theorem atom {k : TokenKind} {e : Expr} (h : IsToken k cs) (stop : Delimited rest)
    (value : Token.atom? ⟨k, .point 0, String.ofList cs⟩ = some e) : Reads rest (cs ++ rest) [e] :=
  ⟨_, h.scans stop, fun r => Reading.takes_singleton.2 (Reading.step_atom value r)⟩

theorem list (h : Reads (')' :: rest) cs es) : Reads rest ('(' :: cs) [.list es] := by
  obtain ⟨ts, scans, taken⟩ := h
  refine ⟨_, (scans.trans (.rightParen .done)).leftParen, fun r => ?_⟩
  refine Reading.takes_cons.2 ⟨_, rfl, Reading.takes_append.2 ⟨_, taken _, ?_⟩⟩
  rw [Reading.foldl_add, Reading.takes_singleton]
  simp [Reading.step]

theorem holds (h : Reads [] cs es) : Holds cs es := by
  obtain ⟨ts, scans, taken⟩ := h
  refine ⟨ts, scans, ?_⟩
  have all := taken .start
  rw [Reading.foldl_add] at all
  simpa [Reading.start] using all

end Reads

namespace Expr

/-- An expression whose text can be read: its numbers are finite and its symbols are
read as such. -/
structure Legible (e : Expr) : Prop where
  finite : ∀ x, (number x).Occurs e → x.isFinite = true
  lexical : e.Lexical

theorem Legible.item {e : Expr} {items : List Expr} (h : (list items).Legible) (mem : e ∈ items) :
    e.Legible :=
  ⟨fun x occurs => h.finite x (.item mem occurs),
    fun name occurs => h.lexical name (.item mem occurs)⟩

mutual

/-- The text of an expression is read as an expression that equals it, wherever a
delimiter stands after it. After an item that is a space or the closing parenthesis. -/
theorem Legible.reads_write : ∀ {e : Expr}, e.Legible → ∀ {rest : List Char}, Delimited rest →
    ∃ e', e'.beq e = true ∧ Reads rest (e.write rest) [e']
  | .number x, h, rest, stop => by
    obtain ⟨negative, p, printed, y, read, same⟩ := formatChars_readsBack (h.finite x .self)
    -- Zero loses its sign, so what is read need not be the number itself.
    rw [formatNumber, printed] at read
    refine ⟨.number y, same, ?_⟩
    rw [write, printed]
    exact .atom (p.isToken negative) stop (congrArg (Option.map number) read)
  | .str s, h, rest, stop => by
    refine ⟨.str s, beq_self_eq_true s, ?_⟩
    have text : (Expr.str s).write rest = '"' :: (escape s.toList ++ ['"']) ++ rest := by
      simp [write]
    rw [text]
    exact .atom (isToken_string s.toList) stop (congrArg (some ∘ Expr.str) (literalValue_escape s))
  | .symbol name, h, rest, stop => by
    refine ⟨.symbol name, beq_self_eq_true name, ?_⟩
    rw [write]
    refine .atom (isSymbol_iff.1 (h.lexical name .self)) stop ?_
    rw [String.ofList_toList]
    rfl
  | .list items, h, rest, stop => by
    obtain ⟨items', same, read⟩ := reads_writeItems (fun _ => h.item)
      (Delimited.cons (c := ')') (by decide) rest)
    exact ⟨.list items', same, read.list⟩

theorem reads_writeItems : ∀ {es : List Expr}, (∀ e ∈ es, e.Legible) → ∀ {rest : List Char},
    Delimited rest → ∃ es', beqItems es' es = true ∧ Reads rest (writeItems es rest) es'
  | [], _, rest, _ => ⟨[], rfl, .done⟩
  | [e], h, rest, stop => by
    obtain ⟨e', same, read⟩ := (h e List.mem_cons_self).reads_write stop
    exact ⟨[e'], by simp [beqItems, same], read⟩
  | e :: f :: es, h, rest, stop => by
    obtain ⟨e', same, read⟩ := (h e List.mem_cons_self).reads_write
      (Delimited.cons (c := ' ') (by decide) (writeItems (f :: es) rest))
    obtain ⟨es', same', read'⟩ := reads_writeItems
      (fun d hd => h d (List.mem_cons_of_mem e hd)) stop
    exact ⟨e' :: es', by simp [beqItems, same, same'], read.trans read'.space⟩

end

/-- The text of the expression is read, as one expression, which equals it. -/
def ReadsBack (e : Expr) : Prop :=
  ∃ tokens e', Token.scan e.text = .ok tokens ∧
    readOne tokens e.text.utf8ByteSize = .ok e' ∧ (e' == e) = true

theorem Legible.readsBack {e : Expr} (h : e.Legible) : e.ReadsBack := by
  obtain ⟨e', same, read⟩ := h.reads_write LineEnd.nil.delimited
  have holds : Holds e.text.toList [e'] := by
    rw [text, String.toList_ofList]
    exact read.holds
  obtain ⟨tokens, scanned, one⟩ := bind_eq_ok.1 (ofText_eq_ok.2 holds)
  exact ⟨tokens, e', scanned, one, same⟩

theorem isSymbol_begin : IsSymbol "begin" := ⟨⟨0, 5⟩, .point 5, by cbv⟩

/-- What is read from a source text has only symbols that are read as such. -/
theorem lexical_of_read {source : String} {p : Expr}
    (h : ofText source = .ok p ∨ ofProgram source = .ok p) : p.Lexical := by
  rcases h with one | program
  · exact (ofText_eq_ok.1 one).lexical p List.mem_cons_self
  · obtain ⟨es, holds, rfl⟩ := ofProgram_eq_ok.1 program
    refine .list (List.forall_mem_cons.2 ⟨?_, holds.lexical⟩)
    rintro name ⟨⟩
    exact isSymbol_begin

/-- **Printing and then reading gives the expression back.** An expression of finite
numbers, whose symbols are each read as one symbol, has a text that is read as an
expression that equals it. Every expression that stands in what is read from a source
text is such an expression if its numbers are finite. -/
theorem reads_back {e : Expr} (finite : ∀ x, (number x).Occurs e → x.isFinite = true) :
    ((∀ name, (symbol name).Occurs e → IsSymbol name) → e.ReadsBack) ∧
      ∀ source p, ofText source = .ok p ∨ ofProgram source = .ok p → e.Occurs p → e.ReadsBack := by
  refine ⟨fun symbols => Legible.readsBack ⟨finite, symbols⟩, fun source p read occurs => ?_⟩
  have symbols : e.Lexical := fun name inside => lexical_of_read read name (inside.trans occurs)
  exact Legible.readsBack ⟨finite, symbols⟩

/-- A printed symbol that could be a sign, with a number after it, and a symbol that is
read from a text and starts like a number. -/
theorem reads_back_signs :
    let e : Expr := .list [.symbol "-", .number (Float.ofBits 0xBFF8000000000000), .str "\"\n"]
    let f : Expr := .list [.symbol "-5x", .str "\\"]
    (∀ x, (number x).Occurs e → x.isFinite = true) ∧
      (∀ name, (symbol name).Occurs e → IsSymbol name) ∧ e.ReadsBack ∧
        ofText "(-5x \"\\\\\" ; -5\n)" = .ok f ∧ f.ReadsBack := by
  intro e f
  have finite : ∀ x, (number x).Occurs e → x.isFinite = true := by
    intro x h
    obtain rfl : x = Float.ofBits 0xBFF8000000000000 := by
      simpa using h.mem_of_atoms rfl (by decide)
    decide
  have symbols : ∀ name, (symbol name).Occurs e → IsSymbol name := by
    intro name h
    obtain rfl : name = "-" := by
      simpa using h.mem_of_atoms rfl (by decide)
    exact ⟨⟨0, 1⟩, .point 1, by cbv⟩
  have no_number : ∀ x, ¬ (number x).Occurs f := by
    intro x h
    simpa using h.mem_of_atoms rfl (by decide)
  have read : ofText "(-5x \"\\\\\" ; -5\n)" = .ok f := by cbv
  exact ⟨finite, symbols, (reads_back finite).1 symbols, read,
    (reads_back fun x h => absurd h (no_number x)).2 _ f (.inl read) .self⟩

end Expr

end ScopeLisp
