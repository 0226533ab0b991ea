/-
ScopeLisp.Proofs.Classification — which expressions are forms, and which are refused.

What a keyword asks of its operands is written down as its signature
(`Keyword.signature`): how many there are, and where a symbol, a list of symbols, a
clause or a target has to stand. A list with a keyword at its head is a form exactly if
its operands fit the signature (`Keyword.isSome_form?_iff`); so the empty list and the
lists that do not fit are all that is refused, and a list is an application only if no
keyword stands at its head (`Form.classify_exact`).
-/
import ScopeLisp.Proofs.Forms

namespace ScopeLisp

/-! ## Signatures -/

/-- What a keyword can ask of an operand. -/
inductive OperandSort
  | any
  | symbol
  /-- A list of symbols. -/
  | params
  /-- A condition and a body. -/
  | clause
  /-- A symbol, or a property of an object. -/
  | target

/-- Whether an operand is of a sort. -/
def OperandSort.Admits : OperandSort → Expr → Prop
  | any, _ => True
  | symbol, e => ∃ name, e = .symbol name
  | params, e => ∃ names, e = paramsExpr names
  | clause, e => ∃ condition body, e = .list [condition, body]
  | target, e => (∃ name, e = .symbol name) ∨
      ∃ object name, e = .form Keyword.property.name [object, .symbol name]

/-- The sorts of the first operands, and the sort of all that follow, if any may follow. -/
structure Signature where
  first : List OperandSort
  rest : Option OperandSort

/-- Operands are of the sorts that are asked for, as many as there should be. -/
def Signature.Fits : Signature → List Expr → Prop
  | ⟨[], none⟩, operands => operands = []
  | ⟨[], some sort⟩, operands => ∀ e ∈ operands, sort.Admits e
  | ⟨_ :: _, _⟩, [] => False
  | ⟨sort :: sorts, rest⟩, e :: operands => sort.Admits e ∧ Fits ⟨sorts, rest⟩ operands

open OperandSort in
/-- What each keyword asks for. -/
def Keyword.signature : Keyword → Signature
  | block => ⟨[], some any⟩
  | declare => ⟨[symbol, any], none⟩
  | assign => ⟨[target, any], none⟩
  | branch => ⟨[any, any, any], none⟩
  | loop => ⟨[any, any], none⟩
  | define => ⟨[symbol, params, any], none⟩
  | switch => ⟨[clause], some clause⟩
  | iterate => ⟨[any, any, any, any], none⟩
  | increment | decrement => ⟨[target], none⟩
  | addAssign | subAssign => ⟨[target, any], none⟩
  | lambda => ⟨[params, any], none⟩
  | classDecl => ⟨[symbol, any, any], none⟩
  | superclass => ⟨[symbol], none⟩
  | create => ⟨[any], some any⟩
  | property => ⟨[any, symbol], none⟩
  | moduleDecl => ⟨[symbol, any], none⟩
  | importDecl => ⟨[symbol], none⟩

/-! ## Operands that are read -/

theorem isSome_asSymbol?_iff {e : Expr} : e.asSymbol?.isSome ↔ OperandSort.symbol.Admits e := by
  simp [Option.isSome_iff_exists, asSymbol?_eq_some, OperandSort.Admits]

/-- A list is read item by item if each of its items is. -/
theorem isSome_mapM_iff {α β : Type} {read : α → Option β} {as : List α} :
    (as.mapM read).isSome ↔ ∀ a ∈ as, (read a).isSome := by
  induction as with
  | nil => simp
  | cons a as ih =>
    rw [List.forall_mem_cons, ← ih, List.mapM_cons]
    cases read a <;> cases as.mapM read <;> simp

theorem paramNames?_paramsExpr (names : List String) :
    paramNames? (paramsExpr names) = some names := by
  have one : ∀ name, (Expr.symbol name).asSymbol? = some name := fun _ => rfl
  exact mapM_map_of_read one names

theorem isSome_paramNames?_iff {e : Expr} :
    (paramNames? e).isSome ↔ OperandSort.params.Admits e := by
  constructor
  · intro h
    obtain ⟨names, h⟩ := Option.isSome_iff_exists.1 h
    exact ⟨names, paramNames?_eq_some h⟩
  · rintro ⟨names, rfl⟩
    rw [paramNames?_paramsExpr, Option.isSome_some]

theorem isSome_clause?_iff {e : Expr} : (clause? e).isSome ↔ OperandSort.clause.Admits e := by
  constructor
  · intro h
    obtain ⟨c, h⟩ := Option.isSome_iff_exists.1 h
    exact ⟨c.1, c.2, clause?_eq_some h⟩
  · rintro ⟨condition, body, rfl⟩
    rfl

theorem Target.ofExpr?_toExpr (t : Target) : Target.ofExpr? t.toExpr = some t := by
  cases t <;> rfl

/-- Targets are what can be read as one. -/
theorem OperandSort.admits_target_iff {e : Expr} :
    target.Admits e ↔ ∃ t : Target, e = t.toExpr := by
  constructor
  · rintro (⟨name, rfl⟩ | ⟨object, name, rfl⟩)
    · exact ⟨.variable name, rfl⟩
    · exact ⟨.property object name, rfl⟩
  · rintro ⟨name | ⟨object, name⟩, rfl⟩
    · exact .inl ⟨name, rfl⟩
    · exact .inr ⟨object, name, rfl⟩

theorem isSome_target?_iff {e : Expr} :
    (Target.ofExpr? e).isSome ↔ OperandSort.target.Admits e := by
  rw [OperandSort.admits_target_iff]
  constructor
  · intro h
    obtain ⟨t, h⟩ := Option.isSome_iff_exists.1 h
    exact ⟨t, Target.ofExpr?_eq_some h⟩
  · rintro ⟨t, rfl⟩
    rw [Target.ofExpr?_toExpr, Option.isSome_some]

theorem isSome_assignable?_iff {e : Expr} :
    (assignable? e).isSome ↔ OperandSort.target.Admits e := by
  rw [assignable?, Option.isSome_map, isSome_target?_iff]

/-! ## Forms of a keyword -/

/-- A keyword makes a form of operands that fit its signature, and of no others. -/
theorem Keyword.isSome_form?_iff {k : Keyword} {operands : List Expr} :
    (k.form? operands).isSome ↔ k.signature.Fits operands := by
  cases k with
  | block => simp [form?, signature, Signature.Fits, OperandSort.Admits]
  | create => cases operands <;> simp [form?, signature, Signature.Fits, OperandSort.Admits]
  | switch =>
    cases operands with
    | nil => simp [form?, signature, Signature.Fits]
    | cons clause clauses =>
      rw [form?, Option.isSome_map, isSome_mapM_iff]
      simp [isSome_clause?_iff, signature, Signature.Fits]
  | define =>
    rcases operands with _ | ⟨name, _ | ⟨params, _ | ⟨body, _ | ⟨_, _⟩⟩⟩⟩ <;>
      simp only [form?, signature, Signature.Fits, reduceCtorEq, Option.isSome_none,
        Bool.false_eq_true, and_false]
    rw [← isSome_asSymbol?_iff, ← isSome_paramNames?_iff]
    cases name.asSymbol? <;> cases paramNames? params <;> simp [OperandSort.Admits]
  | _ =>
    -- As many operands as are asked for; or more or fewer, and then neither side holds.
    rcases operands with _ | ⟨_, _ | ⟨_, _ | ⟨_, _ | ⟨_, _ | ⟨_, _⟩⟩⟩⟩⟩ <;>
      simp [form?, signature, Signature.Fits, OperandSort.Admits, isSome_asSymbol?_iff,
        isSome_paramNames?_iff, isSome_target?_iff, isSome_assignable?_iff]

/-- No keyword makes an application. -/
theorem Keyword.form?_ne_apply {k : Keyword} {operands args : List Expr} {callee : Expr} :
    k.form? operands ≠ some (.apply callee args) := by
  unfold form?
  split <;> simp [Option.bind_eq_some_iff, -List.mapM_cons]

/-! ## Classification -/

/-- An expression is an atom, the empty list, a list with a keyword at its head, or a list
with something else there. -/
theorem Expr.head_cases (e : Expr) :
    e.isAtom ∨ e = .list [] ∨ (∃ (k : Keyword) (operands : List Expr), e = .form k.name operands) ∨
      ∃ callee args, e = .list (callee :: args) ∧ ∀ k : Keyword, callee ≠ .symbol k.name := by
  rcases e with _ | _ | _ | (_ | ⟨head, operands⟩)
  · exact .inl rfl
  · exact .inl rfl
  · exact .inl rfl
  · exact .inr (.inl rfl)
  · by_cases h : ∃ k : Keyword, head = .symbol k.name
    · obtain ⟨k, rfl⟩ := h
      exact .inr (.inr (.inl ⟨k, operands, rfl⟩))
    · exact .inr (.inr (.inr ⟨head, operands, rfl, not_exists.1 h⟩))

namespace Form

theorem exists_classify_atom {e : Expr} (h : e.isAtom) :
    ∃ f, classify e = .ok f ∧ ∀ callee args, f ≠ .apply callee args := by
  cases e with
  | list => cases h
  | _ => exact ⟨_, rfl, nofun⟩

theorem classify_keyword (k : Keyword) (operands : List Expr) :
    classify (.form k.name operands) =
      match k.form? operands with
      | some f => .ok f
      | none => .error (.malformed k (.form k.name operands)) := by
  cases read : k.form? operands <;>
    simp only [Expr.form, classify, Keyword.ofName?_eq_some_iff.2 rfl, read]

theorem classify_of_no_keyword {callee : Expr} (h : ∀ k : Keyword, callee ≠ .symbol k.name)
    (args : List Expr) : classify (.list (callee :: args)) = .ok (.apply callee args) := by
  cases callee with
  | symbol name =>
    have unread : Keyword.ofName? name = none := by
      refine Option.eq_none_iff_forall_ne_some.2 fun k hk => h k ?_
      rw [Keyword.ofName?_eq_some_iff.1 hk]
    simp only [classify, unread]
  | _ => rfl

theorem classify_eq_empty_iff {e : Expr} : classify e = .error .empty ↔ e = .list [] := by
  constructor
  · intro h
    rcases e.head_cases with atom | rfl | ⟨k, operands, rfl⟩ | ⟨callee, args, rfl, other⟩
    · obtain ⟨f, hf, -⟩ := exists_classify_atom atom
      rw [hf] at h
      cases h
    · rfl
    · rw [classify_keyword] at h
      split at h <;> cases h
    · rw [classify_of_no_keyword other] at h
      cases h
  · rintro rfl
    rfl

/-- What is malformed is a list with a keyword at its head and operands that do not fit. -/
theorem classify_eq_malformed_iff {e d : Expr} {k : Keyword} :
    classify e = .error (.malformed k d) ↔
      d = e ∧ ∃ operands, e = .form k.name operands ∧ ¬ k.signature.Fits operands := by
  constructor
  · intro h
    rcases e.head_cases with atom | rfl | ⟨k', operands, rfl⟩ | ⟨callee, args, rfl, other⟩
    · obtain ⟨f, hf, -⟩ := exists_classify_atom atom
      rw [hf] at h
      cases h
    · cases h
    · rw [classify_keyword] at h
      split at h
      · cases h
      · next none =>
        cases h
        exact ⟨rfl, operands, rfl, by simp [← Keyword.isSome_form?_iff, none]⟩
    · rw [classify_of_no_keyword other] at h
      cases h
  · rintro ⟨rfl, operands, rfl, misfit⟩
    have none : k.form? operands = none := by
      simpa [← Keyword.isSome_form?_iff] using misfit
    rw [classify_keyword, none]

/-- What is applied is any list without a keyword at its head. -/
theorem classify_eq_apply_iff {e callee : Expr} {args : List Expr} :
    classify e = .ok (.apply callee args) ↔
      e = .list (callee :: args) ∧ ∀ k : Keyword, callee ≠ .symbol k.name := by
  constructor
  · intro h
    rcases e.head_cases with atom | rfl | ⟨k, operands, rfl⟩ | ⟨callee', args', rfl, other⟩
    · obtain ⟨f, hf, never⟩ := exists_classify_atom atom
      rw [hf] at h
      exact absurd (Except.ok.inj h) (never callee args)
    · cases h
    · exact absurd (classify_form.1 h) Keyword.form?_ne_apply
    · rw [classify_of_no_keyword other] at h
      cases h
      exact ⟨rfl, other⟩
  · rintro ⟨rfl, other⟩
    exact classify_of_no_keyword other args

/-- A list with a keyword at its head is a form exactly if the operands fit. -/
theorem exists_classify_keyword_iff {k : Keyword} {operands : List Expr} :
    (∃ f, classify (.form k.name operands) = .ok f) ↔ k.signature.Fits operands := by
  simp only [classify_form, ← Keyword.isSome_form?_iff, Option.isSome_iff_exists]

theorem fits_of_classify {k : Keyword} {operands : List Expr} {f : Form}
    (h : classify (.form k.name operands) = .ok f) : k.signature.Fits operands :=
  exists_classify_keyword_iff.1 ⟨f, h⟩

/-- A property of an object is what the keyword makes of an object and a name. -/
theorem classify_eq_property_iff {e object : Expr} {name : String} :
    classify e = .ok (.property object name) ↔
      e = .form Keyword.property.name [object, .symbol name] := by
  constructor
  · intro h
    exact (toExpr_of_classify h).symm
  · rintro rfl
    exact classify_form.2 rfl

end Form

/-- A name, or an expression that is itself a property of an object. -/
def Expr.IsTarget (e : Expr) : Prop :=
  (∃ name, e = .symbol name) ∨ ∃ object name, Form.classify e = .ok (.property object name)

/-- **Classification is exact.** A form has all of the expression that it was read from.
Only the empty list is refused as empty, and as malformed only a list that has a keyword at
its head and operands that do not fit it; the keyword is the one that is named. Every list
without a keyword at its head is an application. What an assignment and the four updates
accept as a target is the same: a name, or what is itself a property of an object. -/
theorem Form.classify_exact (e : Expr) :
    (∀ f, classify e = .ok f → f.toExpr = e) ∧
      (classify e = .error .empty ↔ e = .list []) ∧
      (∀ k d, classify e = .error (.malformed k d) ↔
        d = e ∧ ∃ operands, e = .form k.name operands ∧ ¬ k.signature.Fits operands) ∧
      (∀ callee args, classify e = .ok (.apply callee args) ↔
        e = .list (callee :: args) ∧ ∀ k : Keyword, callee ≠ .symbol k.name) ∧
      (∀ k ∈ [Keyword.assign, .addAssign, .subAssign], ∀ operand,
        (∃ f, classify (.form k.name [e, operand]) = .ok f) ↔ e.IsTarget) ∧
      ∀ k ∈ [Keyword.increment, .decrement],
        (∃ f, classify (.form k.name [e]) = .ok f) ↔ e.IsTarget := by
  have target : OperandSort.target.Admits e ↔ e.IsTarget := by
    simp only [OperandSort.Admits, Expr.IsTarget, classify_eq_property_iff]
  refine ⟨fun f => toExpr_of_classify, classify_eq_empty_iff, fun k d => classify_eq_malformed_iff,
    fun callee args => classify_eq_apply_iff, fun k hk operand => ?_, fun k hk => ?_⟩
  · rw [exists_classify_keyword_iff, ← target]
    simp only [List.mem_cons, List.not_mem_nil, or_false] at hk
    rcases hk with rfl | rfl | rfl <;> simp [Keyword.signature, Signature.Fits, OperandSort.Admits]
  · rw [exists_classify_keyword_iff, ← target]
    simp only [List.mem_cons, List.not_mem_nil, or_false] at hk
    rcases hk with rfl | rfl <;> simp [Keyword.signature, Signature.Fits, OperandSort.Admits]

end ScopeLisp
