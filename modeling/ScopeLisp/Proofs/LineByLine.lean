/-
ScopeLisp.Proofs.LineByLine — giving a text to a session line by line.

A session runs the lines that it has gathered as soon as their parentheses balance,
so it cuts a text into other parts than its forms. `Session.Midway` says where it
stands: what is gathered is read in the same way whatever comes next, it is a part
of the text that is not balanced, and the forms that are still to come begin with
those that it opens. Each line leads from such a session to another one
(`Midway.feed`), and at the end the whole text has been run (`Interp.line_by_line`).
-/
import ScopeLisp.Proofs.Concatenation
import ScopeLisp.Eval.Session

namespace ScopeLisp

/-! ## Lines -/

/-- The lines of a text: what stands between its line ends. -/
def linesOf (text : String) : List String := (text.toList.splitOn '\n').map String.ofList

/-- The characters of lines, each with its line end. -/
def charsOf (lines : List String) : List Char := lines.flatMap fun l => l.toList ++ ['\n']

theorem charsOf_linesOf (text : String) : charsOf (linesOf text) = text.toList ++ ['\n'] := by
  have joined : ∀ ls : List (List Char), ls ≠ [] →
      ls.flatMap (· ++ ['\n']) = ['\n'].intercalate ls ++ ['\n'] := by
    intro ls h
    induction ls with
    | nil => exact absurd rfl h
    | cons l ls ih =>
      cases ls with
      | nil => simp
      | cons m ls => simp [List.flatMap_cons, ih, List.intercalate]
  simp only [charsOf, linesOf, List.flatMap_map, String.toList_ofList]
  exact (joined _ (List.splitOn_ne_nil '\n' text.toList)).trans
    (congrArg (· ++ ['\n']) (List.intercalate_splitOn '\n'))

/-- What becomes of one line. -/
structure Fed where
  before : Session
  line : String
  step : SessionStep
  after : Session

/-- The lines gathered with the one that is given. -/
def Fed.gathered (f : Fed) : String := f.before.buffer ++ f.line ++ "\n"

/-- What is to become of a line: it is not refused, and it is run with the lines before
it unless their parentheses do not balance yet. -/
structure Fed.Sound (f : Fed) : Prop where
  accepted : f.step = .incomplete ∨ ∃ v, f.step = .value v
  balance : ∃ tokens, Token.scan f.gathered = .ok tokens ∧
    (f.step = .incomplete ↔ ¬ Token.Balanced (beforeEnd tokens))
  kept : f.step = .incomplete → f.after.buffer = f.gathered
  emptied : f.step ≠ .incomplete → f.after.buffer = ""
  continuing : f.after.isContinuing = true ↔ f.step = .incomplete

namespace Session

/-- Gives lines to a session, one after the other. -/
def feedLines (s : Session) (fuel : Nat) : List String → List Fed × Session
  | [] => ([], s)
  | line :: lines =>
    let (step, s') := s.feed fuel line
    let (fed, s'') := s'.feedLines fuel lines
    (⟨s, line, step, s'⟩ :: fed, s'')

/-! ## One line -/

variable {s : Session} {fuel : Nat} {line : String}

/-- A text with a character that is not blank is not blank. -/
theorem trimBlank_isEmpty {text : String} {c : Char} (h : c ∈ text.toList)
    (hc : isBlank c = false) : (trimBlank text).isEmpty = false := by
  have kept : ∀ {cs : List Char}, c ∈ cs → c ∈ cs.dropWhile isBlank := by
    intro cs h
    rw [← List.takeWhile_append_dropWhile (p := isBlank) (l := cs), List.mem_append] at h
    refine h.resolve_left fun blank => ?_
    have := List.all_eq_true.1 List.all_takeWhile c blank
    rw [hc] at this
    cases this
  have inside : c ∈ (trimBlank text).toList := by
    rw [trimBlank, String.toList_ofList, List.mem_reverse]
    exact kept (List.mem_reverse.2 (kept h))
  cases empty : (trimBlank text).isEmpty with
  | false => rfl
  | true =>
    rw [String.isEmpty_iff] at empty
    simp [empty] at inside

theorem feed_complete {es : List Expr} {v : Value} {i : Interp}
    (plain : (trimBlank line).toList.head? ≠ some ':')
    (holds : Holds (s.buffer ++ line ++ "\n").toList es)
    (value : s.interp.evalProgram fuel (.block es) = (.value v, i)) :
    s.feed fuel line = (.value v, ⟨i, ""⟩) := by
  simp [feed, plain, Expr.ofProgram_eq_ok.2 ⟨es, holds, rfl⟩, value, stepOfAnswer]

theorem feed_incomplete {ts : List Token} {r : Reading}
    (plain : (trimBlank line).toList.head? ≠ some ':')
    (scans : Scans [] (s.buffer ++ line ++ "\n").toList ts)
    (takes : Reading.start.Takes ts r) (opened : r.opened ≠ []) :
    s.feed fuel line = (.incomplete, ⟨s.interp, s.buffer ++ line ++ "\n"⟩) := by
  obtain ⟨e, unread, incomplete⟩ := Expr.ofProgram_incomplete scans takes opened
  have paren : '(' ∈ (s.buffer ++ line ++ "\n").toList := by
    have counts := takes.length_opened
    have some_open := List.length_pos_iff.2 opened
    simp only [Reading.start, List.length_nil] at counts
    have left : 0 < Token.count .leftParen ts := by omega
    obtain ⟨t, ht, kind⟩ := List.countP_pos_iff.1 left
    exact scans.leftParen_mem ht (of_decide_eq_true kind)
  have blank := trimBlank_isEmpty paren (by decide)
  simp [feed, plain, unread, incomplete, blank]

/-! ## In the middle of a text -/

/-- A session in the middle of a text. The lines `before` that it has gathered are
read in the same way whatever follows, and are not balanced; with the tokens `later`
of the lines to come they hold the forms `es`. -/
structure Midway (s : Session) (lines : List String) (before later : List Token)
    (es : List Expr) : Prop where
  gathered : ∀ rest, Scans rest (s.buffer.toList ++ rest) before
  follows : Scans [] (charsOf lines) later
  strings : ∀ t ∈ later, t.kind = .string → '\n' ∉ t.text.toList
  holds : Reading.start.Takes (before ++ later) ⟨es.reverse, []⟩
  unbalanced : Token.Balanced before → s.buffer = ""

namespace Midway

variable {s : Session} {line : String} {lines : List String} {before later : List Token}
variable {es : List Expr}

/-- The tokens of the next line, and those after it. -/
theorem next (h : s.Midway (line :: lines) before later es) :
    ∃ now later', later = now ++ later' ∧ Scans [] (charsOf lines) later' ∧
      ∀ rest, Scans rest ((s.buffer ++ line ++ "\n").toList ++ rest) (before ++ now) := by
  have text : charsOf (line :: lines) = line.toList ++ '\n' :: charsOf lines := by
    simp [charsOf]
  obtain ⟨now, later', rfl, hline, hlater⟩ :=
    Scans.split (text ▸ h.follows) (.newline _) h.strings
  refine ⟨now, later', rfl, hlater.of_newline, fun rest => ?_⟩
  have joined := (h.gathered _).trans
    ((hline.append (.newline rest)).trans (.layout rfl .done))
  simpa using joined

/-- When all lines have been given, nothing is gathered and nothing is to come. -/
theorem done (h : s.Midway [] before later es) : s.buffer = "" ∧ es = [] := by
  obtain rfl := h.follows.eq_nil
  have holds := h.holds
  rw [List.append_nil] at holds
  have empty := h.unbalanced (holds.balanced_iff.2 rfl)
  have before_nil := h.gathered []
  rw [empty, List.append_nil] at before_nil
  obtain rfl := before_nil.eq_nil
  refine ⟨empty, ?_⟩
  have same := Reading.takes_nil.1 holds
  exact List.reverse_eq_nil_iff.1 (congrArg Reading.done same).symm

/-- A line is gathered, or it is run with the lines before it. -/
theorem feed {fuel : Nat} {v : Value} {i : Interp} (h : s.Midway (line :: lines) before later es)
    (plain : (trimBlank line).toList.head? ≠ some ':')
    (value : s.interp.evalProgram fuel (.block es) = (.value v, i)) :
    ∃ step s' before' later' es' v', s.feed fuel line = (step, s') ∧
      s'.Midway lines before' later' es' ∧
      s'.interp.evalProgram fuel (.block es') = (.value v', i) ∧ Fed.Sound ⟨s, line, step, s'⟩ := by
  obtain ⟨now, later', rfl, hlater, hgathered⟩ := h.next
  have scans : Scans [] (s.buffer ++ line ++ "\n").toList (before ++ now) := by
    simpa using hgathered []
  have holds := h.holds
  rw [← List.append_assoc] at holds
  obtain ⟨r, takes, rest⟩ := Reading.takes_append.1 holds
  obtain ⟨tokens, r', scanned, taken, bare⟩ := scans.takes takes
  have strings : ∀ t ∈ later', t.kind = .string → '\n' ∉ t.text.toList := fun t ht =>
    h.strings t (List.mem_append_right now ht)
  have balance : Token.Balanced (beforeEnd tokens) ↔ r.opened = [] := by
    rw [taken.balanced_iff, ← Reading.opened_bare, bare]
  by_cases opened : r.opened = []
  · obtain ⟨done, _⟩ := r
    obtain rfl : _ = [] := opened
    -- The lines hold forms that are complete, and the rest of the forms comes later.
    have complete : Holds (s.buffer ++ line ++ "\n").toList done.reverse :=
      ⟨_, scans, by rwa [List.reverse_reverse]⟩
    obtain ⟨q, takes', atop⟩ := (Reading.takes_atop (r := .start)).1 rest
    obtain ⟨done', rfl, forms⟩ := Reading.atop_eq_mk_nil atop
    obtain rfl : es = done.reverse ++ done'.reverse := by
      rw [← List.reverse_append, ← forms, List.reverse_reverse]
    obtain ⟨v₁, i₁, v₂, first, second⟩ := Interp.evalProgram_append_eq_value value
    refine ⟨.value v₁, ⟨i₁, ""⟩, [], later', done'.reverse, v₂,
      feed_complete plain complete first, ?_, second, ?_⟩
    · exact ⟨Scans.empty, hlater, strings, by rwa [List.reverse_reverse], fun _ => rfl⟩
    · exact ⟨.inr ⟨v₁, rfl⟩, ⟨tokens, scanned, by simp [balance]⟩, nofun, fun _ => rfl,
        by simp [isContinuing]⟩
  · refine ⟨.incomplete, ⟨s.interp, s.buffer ++ line ++ "\n"⟩, before ++ now, later', es, v,
      feed_incomplete plain scans takes opened, ⟨hgathered, hlater, strings, holds, ?_⟩, value, ?_⟩
    · intro balanced
      exact absurd (takes.balanced_iff.1 balanced) opened
    · exact ⟨.inl rfl, ⟨tokens, scanned, by simp [balance, opened]⟩, fun _ => rfl,
        fun h => absurd rfl h, by simp [isContinuing]⟩

/-- All lines are taken as they should be, and what they hold is run. -/
theorem feedLines {fuel : Nat} {i : Interp} (plain : ∀ l ∈ lines,
    (trimBlank l).toList.head? ≠ some ':') {v : Value} (h : s.Midway lines before later es)
    (value : s.interp.evalProgram fuel (.block es) = (.value v, i)) :
    (∀ f ∈ (s.feedLines fuel lines).1, f.Sound) ∧ (s.feedLines fuel lines).2 = ⟨i, ""⟩ := by
  induction lines generalizing s before later es v with
  | nil =>
    obtain ⟨empty, rfl⟩ := h.done
    rw [Interp.evalProgram_nil] at value
    obtain ⟨-, rfl⟩ := Prod.mk.inj value
    exact ⟨List.forall_mem_nil _, congrArg (Session.mk s.interp) empty⟩
  | cons line lines ih =>
    obtain ⟨plain, others⟩ := List.forall_mem_cons.1 plain
    obtain ⟨step, s', before', later', es', v', fed, h', value', sound⟩ := h.feed plain value
    obtain ⟨all, last⟩ := ih others h' value'
    simp only [Session.feedLines, fed]
    exact ⟨List.forall_mem_cons.2 ⟨sound, all⟩, last⟩

end Midway

end Session

/-! ## A whole text -/

/-- **Line-by-line input equals running the whole text.** If a text, in which no
string goes over the end of a line and no line is a command, runs to a value, then
a session takes its lines without an error, each with those before it as soon as their
parentheses balance; nothing is gathered in the end, and the interpreter is as the run
leaves it. -/
theorem Interp.line_by_line {i i' : Interp} {fuel : Nat} {text : String} {tokens : List Token}
    {v : Value} (scanned : Token.scan text = .ok tokens)
    (strings : ∀ t ∈ tokens, t.kind = .string → '\n' ∉ t.text.toList)
    (plain : ∀ l ∈ linesOf text, (trimBlank l).toList.head? ≠ some ':')
    (value : i.run fuel text = (.value v, i')) :
    let fed := (Session.start i).feedLines fuel (linesOf text)
    (∀ f ∈ fed.1, f.Sound) ∧ fed.2.buffer = "" ∧ fed.2.interp = i' := by
  obtain ⟨es, ⟨ts, scans, takes⟩, value⟩ := run_eq_value value
  obtain ⟨tokens', scanned', rfl⟩ := scans.scan
  obtain rfl : tokens' = tokens := Except.ok.inj (scanned'.symm.trans scanned)
  have midway :
      (Session.start i).Midway (linesOf text) [] ((beforeEnd tokens').map Token.bare) es := by
    refine ⟨Scans.empty, ?_, ?_, takes, fun _ => rfl⟩
    · rw [charsOf_linesOf]
      simpa using (scans.append (.newline [])).trans (.layout rfl .done)
    · simp only [List.forall_mem_map]
      exact fun t ht => strings t ((List.takeWhile_sublist _).subset ht)
  obtain ⟨sound, last⟩ := midway.feedLines plain value
  exact ⟨sound, congrArg Session.buffer last, congrArg Session.interp last⟩

/-- A form over two lines, with a blank line after it. -/
theorem Interp.line_by_line_twoLines :
    let i := Interp.new blankModule .standard
    let text := "(var x\n  \"one\")\n"
    let fed := (Session.start i).feedLines 9 (linesOf text)
    (i.run 9 text).1 = .value (.str "one") ∧
      (∀ f ∈ fed.1, f.Sound) ∧ fed.2.buffer = "" ∧ fed.2.interp = (i.run 9 text).2 := by
  intro i text fed
  have scanned : Token.scan text = .ok
      [⟨.leftParen, ⟨0, 1⟩, "("⟩, ⟨.symbol, ⟨1, 4⟩, "var"⟩, ⟨.symbol, ⟨5, 6⟩, "x"⟩,
        ⟨.string, ⟨9, 14⟩, "\"one\""⟩, ⟨.rightParen, ⟨14, 15⟩, ")"⟩, ⟨.eof, ⟨16, 16⟩, ""⟩] := by
    cbv
  have value : (i.run 9 text).1 = .value (.str "one") := by
    cbv
  exact ⟨value, line_by_line scanned (by decide) (by decide +kernel) (Prod.ext value rfl)⟩

end ScopeLisp
