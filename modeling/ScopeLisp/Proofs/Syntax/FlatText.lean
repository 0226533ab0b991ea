/-
ScopeLisp.Proofs.Syntax.FlatText — reading tokens loses nothing.

Written flat, an expression is a row of parentheses and decoded atoms (`Expr.flat`),
and so is a token list (`Token.flat?`). A token adds itself to what a reading holds,
written flat (`Reading.flat_step`); so expressions that have been read are, written
flat, the tokens that they were read from. The other way round, tokens that write
expressions flat are read as these expressions, by recursion over the expressions
(`Reading.takes_flat`).
-/
import Mathlib.Data.List.Infix
import ScopeLisp.Proofs.Syntax.Reading

namespace ScopeLisp

/-! ## Writing flat -/

/-- A parenthesis or an atom. -/
inductive Flat
  | leftParen
  | rightParen
  | number (value : Float)
  | str (value : String)
  | symbol (name : String)

/-- The atom, if it is one. -/
def Flat.atom? : Flat → Option Expr
  | .leftParen => none
  | .rightParen => none
  | .number value => some (.number value)
  | .str value => some (.str value)
  | .symbol name => some (.symbol name)

/-- What a token stands for; nothing for a number that can not be read, and for the
end of the text. -/
def Token.flat? (t : Token) : Option Flat :=
  match t.kind with
  | .leftParen => some .leftParen
  | .rightParen => some .rightParen
  | .number => (readNumeral t.text).map .number
  | .string => some (.str (literalValue t.text))
  | .symbol => some (.symbol t.text)
  | .eof => none

mutual

def Expr.flat : Expr → List Flat
  | .number value => [.number value]
  | .str value => [.str value]
  | .symbol name => [.symbol name]
  | .list items => .leftParen :: (Expr.flatItems items ++ [.rightParen])

def Expr.flatItems : List Expr → List Flat
  | [] => []
  | e :: es => e.flat ++ Expr.flatItems es

end

theorem Expr.flatItems_append (es fs : List Expr) :
    Expr.flatItems (es ++ fs) = Expr.flatItems es ++ Expr.flatItems fs := by
  induction es with
  | nil => rfl
  | cons e es ih => simp only [List.cons_append, Expr.flatItems, ih, List.append_assoc]

theorem Expr.flatItems_concat (es : List Expr) (e : Expr) :
    Expr.flatItems (es ++ [e]) = Expr.flatItems es ++ e.flat := by
  rw [Expr.flatItems_append, Expr.flatItems, Expr.flatItems, List.append_nil]

theorem Flat.flat_of_atom? {f : Flat} {e : Expr} (h : f.atom? = some e) : e.flat = [f] := by
  cases f with
  | leftParen | rightParen => cases h
  | number | str | symbol =>
    cases h
    rfl

namespace Token

variable {t : Token}

theorem atom?_eq_bind (t : Token) : t.atom? = t.flat?.bind Flat.atom? := by
  obtain ⟨kind, span, text⟩ := t
  cases kind with
  | number =>
    simp only [atom?, flat?]
    cases readNumeral text <;> rfl
  | _ => rfl

theorem flat?_eq_leftParen (h : t.flat? = some .leftParen) : t.kind = .leftParen := by
  obtain ⟨kind, span, text⟩ := t
  cases kind <;> simp [flat?] at h ⊢

theorem flat?_eq_rightParen (h : t.flat? = some .rightParen) : t.kind = .rightParen := by
  obtain ⟨kind, span, text⟩ := t
  cases kind <;> simp [flat?] at h ⊢

end Token

namespace Reading

variable {r q : Reading} {t : Token} {ts : List Token}

/-- The open lists written flat, each up to where its next item will stand. -/
def flatOpened : List OpenList → List Flat
  | [] => []
  | l :: outer => flatOpened outer ++ .leftParen :: Expr.flatItems l.items.reverse

/-- All that has been read, written flat. -/
def flat (r : Reading) : List Flat := Expr.flatItems r.done.reverse ++ flatOpened r.opened

theorem flat_add (r : Reading) (e : Expr) : (r.add e).flat = r.flat ++ e.flat := by
  obtain ⟨done, _ | ⟨l, outer⟩⟩ := r
  · simp [flat, add, flatOpened, Expr.flatItems_concat]
  · simp [flat, add, flatOpened, Expr.flatItems_concat]

/-- A token adds itself. -/
theorem flat_step (kind : t.kind ≠ .eof) (h : r.step t = .ok q) :
    ∃ f, t.flat? = some f ∧ q.flat = r.flat ++ [f] := by
  rcases step_cases h with ⟨left, rfl⟩ | ⟨right, l, outer, opened, rfl⟩ | ⟨e, atom, rfl⟩ | ⟨eof, -⟩
  · exact ⟨.leftParen, by simp [Token.flat?, left], by simp [flat, flatOpened, Expr.flatItems]⟩
  · refine ⟨.rightParen, by simp [Token.flat?, right], ?_⟩
    rw [flat_add]
    simp [flat, flatOpened, opened, Expr.flat]
  · rw [Token.atom?_eq_bind] at atom
    obtain ⟨f, same, written⟩ := Option.bind_eq_some_iff.1 atom
    exact ⟨f, same, by rw [flat_add, Flat.flat_of_atom? written]⟩
  · exact absurd eof kind

theorem Takes.flat (kinds : ∀ t ∈ ts, t.kind ≠ .eof) (h : r.Takes ts q) :
    ∃ fs, ts.map Token.flat? = fs.map some ∧ q.flat = r.flat ++ fs := by
  induction ts generalizing r with
  | nil =>
    obtain rfl := takes_nil.1 h
    exact ⟨[], rfl, (List.append_nil _).symm⟩
  | cons t ts ih =>
    obtain ⟨kind, kinds⟩ := List.forall_mem_cons.1 kinds
    obtain ⟨p, stepped, taken⟩ := takes_cons.1 h
    obtain ⟨f, first, added⟩ := flat_step kind stepped
    obtain ⟨fs, others, all⟩ := ih kinds taken
    refine ⟨f :: fs, by rw [List.map_cons, first, others, List.map_cons], ?_⟩
    rw [all, added, List.append_assoc, List.singleton_append]

/-- A token that writes an atom adds it. -/
theorem takes_atom {f : Flat} {e : Expr} (atom : f.atom? = some e)
    (h : ts.map Token.flat? = [some f]) (r : Reading) : r.Takes ts (r.add e) := by
  obtain ⟨t, rfl, same⟩ := List.map_eq_singleton_iff.1 h
  refine takes_singleton.2 (step_atom ?_ r)
  rw [Token.atom?_eq_bind, same, Option.bind_some, atom]

mutual

/-- Tokens that write an expression add it. -/
theorem takes_flat (e : Expr) {ts : List Token} (h : ts.map Token.flat? = e.flat.map some)
    (r : Reading) : r.Takes ts (r.add e) := by
  cases e with
  | number value => exact takes_atom (f := .number value) rfl h r
  | str value => exact takes_atom (f := .str value) rfl h r
  | symbol name => exact takes_atom (f := .symbol name) rfl h r
  | list items =>
    rw [Expr.flat, List.map_cons, List.map_append] at h
    obtain ⟨t, ts, rfl, opening, h⟩ := List.map_eq_cons_iff.1 h
    obtain ⟨inner, last, rfl, hinner, hlast⟩ := List.map_eq_append_iff.1 h
    obtain ⟨u, rfl, closing⟩ := List.map_eq_singleton_iff.1 hlast
    have opened : r.step t = .ok ⟨r.done, ⟨t.span, []⟩ :: r.opened⟩ := by
      rw [step, Token.flat?_eq_leftParen opening]
    have items := takes_flatItems items hinner ⟨r.done, ⟨t.span, []⟩ :: r.opened⟩
    rw [foldl_add] at items
    refine takes_cons.2 ⟨_, opened, takes_append.2 ⟨_, items, takes_singleton.2 ?_⟩⟩
    simp [step, Token.flat?_eq_rightParen closing]

theorem takes_flatItems (es : List Expr) {ts : List Token}
    (h : ts.map Token.flat? = (Expr.flatItems es).map some) (r : Reading) :
    r.Takes ts (es.foldl add r) := by
  cases es with
  | nil =>
    obtain rfl := List.map_eq_nil_iff.1 h
    exact takes_nil.2 rfl
  | cons e es =>
    rw [Expr.flatItems, List.map_append] at h
    obtain ⟨first, others, rfl, hfirst, hothers⟩ := List.map_eq_append_iff.1 h
    exact takes_append.2 ⟨_, takes_flat e hfirst r, takes_flatItems es hothers _⟩

end

end Reading

/-! ## Whole token lists -/

variable {tokens : List Token} {es : List Expr}

/-- Expressions are read from the tokens that write them. -/
theorem readAll_eq_ok_iff_flat :
    readAll tokens = .ok es ↔
      (beforeEnd tokens).map Token.flat? = (Expr.flatItems es).map some := by
  rw [readAll_eq_ok]
  constructor
  · intro taken
    obtain ⟨fs, same, all⟩ := taken.flat kind_ne_eof_of_mem_beforeEnd
    have written : Expr.flatItems es = fs := by
      simpa [Reading.flat, Reading.flatOpened, Reading.start, Expr.flatItems] using all
    rw [same, written]
  · intro h
    have taken := Reading.takes_flatItems es h .start
    rw [Reading.foldl_add] at taken
    simpa [Reading.start] using taken

/-- Reading tokens succeeds exactly when they are balanced, and loses nothing: the
expressions are those, and only those, that are written flat by the tokens. One
expression is read where all that is read is this one, and a program is all that is
read as one block. -/
theorem readAll_exact
    (numbers : ∀ t ∈ beforeEnd tokens, t.kind = .number → (readNumeral t.text).isSome) :
    ((∃ es, readAll tokens = .ok es) ↔ Token.Balanced (beforeEnd tokens)) ∧
      (∀ es, readAll tokens = .ok es ↔
        (beforeEnd tokens).map Token.flat? = (Expr.flatItems es).map some) ∧
      (∀ es es', readAll tokens = .ok es →
        (beforeEnd tokens).map Token.flat? = (Expr.flatItems es').map some → es' = es) ∧
      (∀ e size, readOne tokens size = .ok e ↔ readAll tokens = .ok [e]) ∧
      readProgram tokens =
        (readAll tokens).map fun es => .list (.symbol "begin" :: es) := by
  refine ⟨⟨?_, fun balanced => ?_⟩, fun _ => readAll_eq_ok_iff_flat,
    fun es es' h h' => ?_, fun e size => ?_, rfl⟩
  · rintro ⟨es, h⟩
    exact (readAll_eq_ok.1 h).balanced_iff.2 rfl
  · obtain ⟨⟨done, opened⟩, taken⟩ := Reading.exists_takes (r := .start) numbers fun us front => by
      simpa [Reading.start] using balanced.within us front
    obtain rfl : opened = [] := taken.balanced_iff.1 balanced
    exact ⟨done.reverse, readAll_eq_ok.2 (by rwa [List.reverse_reverse])⟩
  · rw [readAll_eq_ok_iff_flat.2 h'] at h
    exact Except.ok.inj h
  · rw [readOne_eq_ok, readAll_eq_ok]
    rfl

/-- A list with one number in it, with no end of text after it. -/
def oneNumber : List Token :=
  [⟨.leftParen, ⟨0, 1⟩, "("⟩, ⟨.number, ⟨1, 3⟩, "-5"⟩, ⟨.rightParen, ⟨3, 4⟩, ")"⟩]

theorem readAll_exact_oneNumber :
    (∀ t ∈ beforeEnd oneNumber, t.kind = .number → (readNumeral t.text).isSome) ∧
      ∃ es, readAll oneNumber = .ok es := by
  have numbers : ∀ t ∈ beforeEnd oneNumber, t.kind = .number → (readNumeral t.text).isSome := by
    decide
  have within : ∀ us ∈ (beforeEnd oneNumber).inits,
      Token.count .rightParen us ≤ Token.count .leftParen us := by
    decide
  exact ⟨numbers,
    (readAll_exact numbers).1.2 ⟨fun us h => within us ((List.mem_inits us _).2 h), by decide⟩⟩

end ScopeLisp
