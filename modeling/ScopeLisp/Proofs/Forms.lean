/-
ScopeLisp.Proofs.Forms — the expression that a form was read from, and what
occurs in expressions.

`Form.toExpr` writes a form as an expression; classification loses nothing
(`Form.toExpr_of_classify`), so the parts of a form stand in the expression it
was read from (`Form.parts_inside`, `Form.parts_of_classify`). Sugar is written
out with what stands in it and a few heads of its own (`Sugar.avoids_expand`).
-/
import ScopeLisp.Form.Desugar
import ScopeLisp.Proofs.Comparison.Basic

namespace ScopeLisp

/-! ## Forms as expressions -/

def Target.toExpr : Target → Expr
  | .variable name => .symbol name
  | .property object name => .form Keyword.property.name [object, .symbol name]

/-- A clause of `switch` as an expression. -/
def clauseExpr (c : Expr × Expr) : Expr := .list [c.1, c.2]

/-- Parameters as an expression. -/
def paramsExpr (names : List String) : Expr := .list (names.map .symbol)

def Sugar.toExpr : Sugar → Expr
  | define name params body => .form Keyword.define.name [.symbol name, params, body]
  | switch clauses => .form Keyword.switch.name (clauses.map clauseExpr)
  | iterate init condition update body =>
    .form Keyword.iterate.name [init, condition, update, body]
  | increment target => .form Keyword.increment.name [target]
  | decrement target => .form Keyword.decrement.name [target]
  | addAssign target delta => .form Keyword.addAssign.name [target, delta]
  | subAssign target delta => .form Keyword.subAssign.name [target, delta]

def Form.toExpr : Form → Expr
  | number value => .number value
  | str value => .str value
  | symbol name => .symbol name
  | block body => .form Keyword.block.name body
  | declare name value => .form Keyword.declare.name [.symbol name, value]
  | assign target value => .form Keyword.assign.name [target.toExpr, value]
  | branch condition consequent alternate =>
    .form Keyword.branch.name [condition, consequent, alternate]
  | loop condition body => .form Keyword.loop.name [condition, body]
  | sugar s => s.toExpr
  | lambda params body => .form Keyword.lambda.name [paramsExpr params, body]
  | classDecl name parent body => .form Keyword.classDecl.name [.symbol name, parent, body]
  | superclass name => .form Keyword.superclass.name [.symbol name]
  | create ofClass args => .form Keyword.create.name (ofClass :: args)
  | property object name => .form Keyword.property.name [object, .symbol name]
  | moduleDecl name body => .form Keyword.moduleDecl.name [.symbol name, body]
  | importDecl name => .form Keyword.importDecl.name [.symbol name]
  | apply callee args => .list (callee :: args)

theorem asSymbol?_eq_some {e : Expr} {name : String} :
    e.asSymbol? = some name ↔ e = .symbol name := by
  cases e <;> simp [Expr.asSymbol?]

/-- What is read item by item is written item by item. -/
theorem eq_map_of_mapM {α β : Type} {read : α → Option β} {write : β → α}
    (one : ∀ a b, read a = some b → a = write b) :
    ∀ {as : List α} {bs : List β}, as.mapM read = some bs → as = bs.map write := by
  intro as
  induction as with
  | nil => simp
  | cons a as ih =>
    intro bs h
    simp only [List.mapM_cons, Option.bind_eq_bind, Option.bind_eq_some_iff, Option.pure_def,
      Option.some.injEq] at h
    obtain ⟨b, hb, bs', hbs, rfl⟩ := h
    rw [List.map_cons, ← one a b hb, ← ih hbs]

/-- What is written item by item is read item by item. -/
theorem mapM_map_of_read {α β : Type} {read : α → Option β} {write : β → α}
    (one : ∀ b, read (write b) = some b) (bs : List β) : (bs.map write).mapM read = some bs := by
  induction bs with
  | nil => rfl
  | cons b bs ih => simp [one, ih]

theorem paramNames?_eq_some {params : Expr} {names : List String}
    (h : paramNames? params = some names) : params = paramsExpr names := by
  cases params with
  | list items => exact congrArg Expr.list (eq_map_of_mapM (fun _ _ => asSymbol?_eq_some.1) h)
  | _ => cases h

theorem clause?_eq_some {e : Expr} {c : Expr × Expr} (h : clause? e = some c) :
    e = clauseExpr c := by
  unfold clause? at h
  split at h
  · cases h
    rfl
  · cases h

theorem Target.ofExpr?_eq_some {e : Expr} {t : Target} (h : Target.ofExpr? e = some t) :
    e = t.toExpr := by
  unfold Target.ofExpr? at h
  split at h
  · cases h
    rfl
  · split at h
    · rename_i hhead
      cases h
      subst hhead
      rfl
    · cases h
  · cases h

theorem assignable?_eq_some {target t : Expr} (h : assignable? target = some t) : target = t := by
  obtain ⟨_, _, rfl⟩ := Option.map_eq_some_iff.1 h
  rfl

theorem toExpr_of_form? {k : Keyword} {operands : List Expr} {f : Form}
    (h : k.form? operands = some f) : f.toExpr = .form k.name operands := by
  unfold Keyword.form? at h
  split at h
  case h_6 =>
    simp only [Option.bind_eq_bind, Option.bind_eq_some_iff, Option.some.injEq,
      asSymbol?_eq_some] at h
    obtain ⟨n, rfl, names, hnames, rfl⟩ := h
    rfl
  case h_7 =>
    obtain ⟨cs, hcs, rfl⟩ := Option.map_eq_some_iff.1 h
    rw [eq_map_of_mapM (fun _ _ => clause?_eq_some) hcs]
    rfl
  case h_20 => cases h
  case h_1 | h_4 | h_5 | h_8 | h_16 =>
    cases h
    rfl
  case h_3 =>
    obtain ⟨t, ht, rfl⟩ := Option.map_eq_some_iff.1 h
    rw [Target.ofExpr?_eq_some ht]
    rfl
  case h_9 | h_10 | h_11 | h_12 =>
    obtain ⟨t, ht, rfl⟩ := Option.map_eq_some_iff.1 h
    rw [assignable?_eq_some ht]
    rfl
  case h_13 =>
    obtain ⟨names, hnames, rfl⟩ := Option.map_eq_some_iff.1 h
    rw [paramNames?_eq_some hnames]
    rfl
  all_goals
    obtain ⟨n, hn, rfl⟩ := Option.map_eq_some_iff.1 h
    rw [asSymbol?_eq_some.1 hn]
    rfl

/-- Classification loses nothing: the form, written as an expression, is the
expression that was read. -/
theorem Form.toExpr_of_classify {e : Expr} {f : Form} (h : Form.classify e = .ok f) :
    f.toExpr = e := by
  unfold Form.classify at h
  split at h
  case h_5 =>
    split at h
    · cases h
      rfl
    · rename_i k hk
      split at h
      · rename_i f' hf
        cases h
        rw [toExpr_of_form? hf, Keyword.ofName?_eq_some_iff.1 hk]
        rfl
      · cases h
  case h_4 => cases h
  all_goals
    cases h
    rfl

/-- A form of a keyword is what the keyword makes of its operands. -/
theorem Form.classify_form {k : Keyword} {operands : List Expr} {f : Form} :
    Form.classify (.form k.name operands) = .ok f ↔ k.form? operands = some f := by
  simp only [Expr.form, Form.classify, Keyword.ofName?_eq_some_iff.2 rfl]
  cases k.form? operands <;> simp

/-- The module that an expression imports, if it is an import. -/
def Expr.imported? (e : Expr) : Option String :=
  match Form.classify e with
  | .ok (.importDecl name) => some name
  | _ => none

theorem Expr.imported?_eq_some {e : Expr} {name : String} :
    e.imported? = some name ↔ Form.classify e = .ok (.importDecl name) := by
  unfold imported?
  split
  · next n h => simp [h]
  · next h => simpa using fun h' => h name h'

/-! ## What occurs in an expression -/

namespace Expr

/-- An expression is, or stands somewhere in, another one. -/
inductive Occurs (d : Expr) : Expr → Prop
  | self : Occurs d d
  | item {e : Expr} {items : List Expr} (mem : e ∈ items) (occurs : Occurs d e) :
    Occurs d (.list items)

/-- The atoms that occur in a list of atoms are its items. -/
theorem Occurs.mem_of_atoms {d : Expr} {items : List Expr} (h : d.Occurs (.list items))
    (atom : d.isAtom = true) (atoms : ∀ e ∈ items, e.isAtom = true) : d ∈ items := by
  cases h with
  | self => cases atom
  | item mem occurs =>
    cases occurs with
    | self => exact mem
    | item => exact absurd (atoms _ mem) (by simp [isAtom])

/-- An expression stands in the items of another one. -/
def Inside (d e : Expr) : Prop := ∃ items, e = .list items ∧ ∃ x ∈ items, d.Occurs x

theorem Occurs.trans {a b c : Expr} (h : a.Occurs b) (h' : b.Occurs c) : a.Occurs c := by
  induction h' with
  | self => exact h
  | item mem _ ih => exact .item mem ih

theorem Inside.occurs {d e : Expr} (h : d.Inside e) : d.Occurs e := by
  obtain ⟨items, rfl, x, hx, h⟩ := h
  exact .item hx h

theorem inside_list {d : Expr} {items : List Expr} :
    d.Inside (.list items) ↔ ∃ x ∈ items, d.Occurs x := by
  simp [Inside]

theorem inside_of_mem {d : Expr} {items : List Expr} (h : d ∈ items) : d.Inside (.list items) :=
  ⟨items, rfl, d, h, .self⟩

theorem inside_form {head : String} {operands : List Expr} {d : Expr} (h : d ∈ operands) :
    d.Inside (.form head operands) :=
  inside_of_mem (List.mem_cons_of_mem _ h)

/-- No list that is headed by one of these names occurs in the expression. -/
def Avoids (heads : List String) (e : Expr) : Prop :=
  ∀ d : Expr, d.Occurs e → ∀ name ∈ heads, d.head? ≠ some name

variable {heads : List String}

theorem Avoids.inside {d e : Expr} (h : e.Avoids heads) (hd : d.Inside e) : d.Avoids heads :=
  fun x hx => h x (hx.trans hd.occurs)

theorem avoids_list {items : List Expr} :
    (Expr.list items).Avoids heads ↔
      (∀ name ∈ heads, (Expr.list items).head? ≠ some name) ∧ ∀ x ∈ items, x.Avoids heads := by
  constructor
  · intro h
    exact ⟨h _ .self, fun x hx => h.inside (inside_of_mem hx)⟩
  · rintro ⟨top, below⟩ d hd
    cases hd with
    | self => exact top
    | item mem occurs => exact below _ mem d occurs

theorem avoids_form {head : String} {operands : List Expr} :
    (Expr.form head operands).Avoids heads ↔
      head ∉ heads ∧ ∀ x ∈ operands, x.Avoids heads := by
  have symbol : (Expr.symbol head).Avoids heads := by
    intro d hd
    cases hd
    simp [head?]
  rw [form, avoids_list, List.forall_mem_cons, head?]
  constructor
  · rintro ⟨top, -, below⟩
    exact ⟨fun h => top head h rfl, below⟩
  · rintro ⟨top, below⟩
    refine ⟨fun name hname h => top ?_, symbol, below⟩
    cases h
    exact hname

theorem avoids_symbol {name : String} : (Expr.symbol name).Avoids heads := by
  intro d hd
  cases hd
  simp [head?]

theorem avoids_number {value : Float} : (Expr.number value).Avoids heads := by
  intro d hd
  cases hd
  simp [head?]

theorem avoids_str {value : String} : (Expr.str value).Avoids heads := by
  intro d hd
  cases hd
  simp [head?]

end Expr

/-! ## Where the parts of a form stand -/

/-- The expressions that sugar is made of. -/
def Sugar.operands : Sugar → List Expr
  | define _ params body => [params, body]
  | switch clauses => clauses.flatMap fun c => [c.1, c.2]
  | iterate init condition update body => [init, condition, update, body]
  | increment target | decrement target => [target]
  | addAssign target delta | subAssign target delta => [target, delta]

theorem Sugar.operands_inside (s : Sugar) : ∀ x ∈ s.operands, x.Inside s.toExpr := by
  cases s with
  | switch clauses =>
    intro x hx
    obtain ⟨c, hc, hx⟩ := List.mem_flatMap.1 hx
    refine Expr.inside_list.2 ⟨clauseExpr c, ?_, ?_⟩
    · exact List.mem_cons_of_mem _ (List.mem_map_of_mem hc)
    · exact (Expr.inside_of_mem hx).occurs
  | _ =>
    intro x hx
    exact Expr.inside_form (by simp [operands] at hx ⊢; tauto)

/-- The parts of a form that is no sugar stand in it. -/
theorem Form.parts_inside {f : Form} (h : ∀ s, f ≠ .sugar s) :
    f.Parts (·.Inside f.toExpr) (·.Inside f.toExpr) (fun n => (Expr.symbol n).Occurs f.toExpr) := by
  -- The operands of a form, and the names among them.
  have operand : ∀ {head : String} {operands : List Expr} {x : Expr}, x ∈ operands →
      x.Inside (.form head operands) := Expr.inside_form
  have named : ∀ {head : String} {operands : List Expr} {n : String}, .symbol n ∈ operands →
      (Expr.symbol n).Occurs (.form head operands) := fun h => (operand h).occurs
  cases f with
  | number | str => trivial
  | symbol name => exact Expr.Occurs.self
  | block es => exact fun e he => operand he
  | declare name e | moduleDecl name e => exact ⟨named (by simp), operand (by simp)⟩
  | assign target e =>
    cases target with
    | «variable» name => exact ⟨named (by simp [Target.toExpr]), operand (by simp)⟩
    | property o name =>
      have target : (Target.property o name).toExpr ∈ [(Target.property o name).toExpr, e] := by
        simp
      have inner : o.Inside (Target.property o name).toExpr := operand (by simp)
      have inner' : (Expr.symbol name).Occurs (Target.property o name).toExpr := named (by simp)
      exact ⟨Expr.inside_list.2 ⟨_, List.mem_cons_of_mem _ target, inner.occurs⟩,
        inner'.trans (operand target).occurs, operand (by simp)⟩
  | branch condition consequent alternate =>
    exact ⟨operand (by simp), operand (by simp), operand (by simp)⟩
  | loop condition e => exact ⟨operand (by simp), operand (by simp)⟩
  | sugar s => exact absurd rfl (h s)
  | lambda params e =>
    refine ⟨fun p hp => ?_, operand (by simp)⟩
    have inner : (Expr.symbol p).Occurs (paramsExpr params) :=
      (Expr.inside_of_mem (List.mem_map_of_mem hp)).occurs
    exact inner.trans (operand (by simp)).occurs
  | classDecl name parent e => exact ⟨named (by simp), operand (by simp), operand (by simp)⟩
  | superclass name | importDecl name => exact named (by simp)
  | create k args =>
    exact ⟨operand (by simp), fun a ha => operand (List.mem_cons_of_mem _ ha)⟩
  | property o name => exact ⟨operand (by simp), named (by simp)⟩
  | apply f args =>
    exact ⟨Expr.inside_of_mem (by simp), fun a ha => Expr.inside_of_mem (List.mem_cons_of_mem _ ha)⟩

theorem Form.Parts.imp {now now' later later' : Expr → Prop} {name name' : String → Prop} {f : Form}
    (h : f.Parts now later name) (hnow : ∀ e, now e → now' e) (hlater : ∀ e, later e → later' e)
    (hname : ∀ n, name n → name' n) : f.Parts now' later' name' := by
  cases f with
  | assign target e => cases target <;> simp_all [Form.Parts]
  | _ => simp_all [Form.Parts]

/-- What holds of everything that stands in an expression holds of the parts of
its form; those of sugar are seen to on their own. -/
theorem Form.parts_of_classify {now later : Expr → Prop} {e : Expr} {f : Form}
    (hf : Form.classify e = .ok f) (hnow : ∀ d : Expr, d.Inside e → now d)
    (hlater : ∀ d : Expr, d.Inside e → later d) (sugar : ∀ s, f = .sugar s → now s.expand) :
    f.Parts now later (fun _ => True) := by
  obtain rfl := Form.toExpr_of_classify hf
  by_cases hs : ∃ s, f = .sugar s
  · obtain ⟨s, rfl⟩ := hs
    exact sugar s rfl
  · exact (Form.parts_inside fun s hf => hs ⟨s, hf⟩).imp hnow hlater fun _ _ => trivial

/-! ## Sugar written out -/

/-- Nested `if`s bring in nothing but lists with the head `if`. -/
theorem Sugar.avoids_expandSwitch {heads : List String} (hif : "if" ∉ heads) :
    ∀ {clauses : List (Expr × Expr)},
      (∀ c ∈ clauses, c.1.Avoids heads ∧ c.2.Avoids heads) →
        (expandSwitch clauses).Avoids heads
  | [], _ => Expr.avoids_symbol
  | [(_, _)], h => (h _ List.mem_cons_self).2
  | (condition, body) :: c :: cs, h => by
    have first := h (condition, body) (by simp)
    have rest : (expandSwitch (c :: cs)).Avoids heads :=
      avoids_expandSwitch hif fun c' hc => h c' (List.mem_cons_of_mem _ hc)
    refine Expr.avoids_form.2 ⟨hif, ?_⟩
    simpa using ⟨first.1, first.2, rest⟩

/-- Writing sugar out brings in lists with these heads, and a loop only for a
loop. -/
theorem Sugar.avoids_expand {heads : List String} {s : Sugar}
    (core : ∀ name ∈ ["var", "lambda", "if", "begin", "set", "+", "-"], name ∉ heads)
    (loops : "while" ∈ heads → ∀ i c u b, s ≠ .iterate i c u b)
    (h : ∀ x ∈ s.operands, x.Avoids heads) : s.expand.Avoids heads := by
  simp only [List.forall_mem_cons] at core
  obtain ⟨hvar, hlambda, hif, hbegin, hset, hplus, hminus, -⟩ := core
  -- `(set target (operator target operand))`
  have update : ∀ {target operand : Expr} {operator : String}, operator ∉ heads →
      target.Avoids heads → operand.Avoids heads →
      (expandUpdate target operator operand).Avoids heads := by
    intro target operand operator hop ht hx
    refine Expr.avoids_form.2 ⟨hset, ?_⟩
    simpa [ht, Expr.avoids_form, hop] using hx
  cases s with
  | define name params body =>
    refine Expr.avoids_form.2 ⟨hvar, ?_⟩
    simpa [operands, Expr.avoids_form, hlambda, Expr.avoids_symbol] using h
  | switch clauses =>
    refine avoids_expandSwitch hif fun c hc => ⟨h _ ?_, h _ ?_⟩
    all_goals exact List.mem_flatMap.2 ⟨c, hc, by simp⟩
  | iterate init condition update body =>
    have hwhile : "while" ∉ heads := fun hmem => loops hmem _ _ _ _ rfl
    simp only [operands, List.forall_mem_cons] at h
    obtain ⟨hi, hc, hu, hb, -⟩ := h
    simp [expand, expandIterate, Expr.block, Expr.avoids_form, hbegin, hwhile, hi, hc, hu, hb]
  | increment target => exact update hplus (h _ (by simp [operands])) Expr.avoids_number
  | decrement target => exact update hminus (h _ (by simp [operands])) Expr.avoids_number
  | addAssign target delta =>
    exact update hplus (h _ (by simp [operands])) (h _ (by simp [operands]))
  | subAssign target delta =>
    exact update hminus (h _ (by simp [operands])) (h _ (by simp [operands]))

/-! ## Programs without some heads -/

/-- The parts of an expression, what sugar is written out as among them, avoid
what it avoids. -/
theorem Expr.Avoids.parts {heads : List String} {e : Expr} {f : Form} (h : e.Avoids heads)
    (core : ∀ name ∈ ["var", "lambda", "if", "begin", "set", "+", "-"], name ∉ heads)
    (loops : "while" ∈ heads → Keyword.iterate.name ∈ heads) (hf : Form.classify e = .ok f) :
    f.Parts (Avoids heads) (Avoids heads) (fun _ => True) := by
  refine Form.parts_of_classify hf (fun _ => h.inside) (fun _ => h.inside) ?_
  rintro s rfl
  obtain rfl := Form.toExpr_of_classify hf
  refine Sugar.avoids_expand core ?_ fun x hx => h.inside (s.operands_inside x hx)
  rintro hwhile init condition update body rfl
  exact (avoids_form.1 h).1 (loops hwhile)

/-- No text of a module that can be read has a list with one of these heads. -/
def Settings.Avoids (c : Settings) (heads : List String) : Prop :=
  ∀ name text program, c.modules name = .ok text → Expr.ofProgram text = .ok program →
    program.Avoids heads

theorem Settings.Avoids.moduleForm {c : Settings} {heads : List String} (h : c.Avoids heads)
    (head : Keyword.moduleDecl.name ∉ heads) {name : String} {e : Expr}
    (he : Eval.moduleForm c name = .ok e) : e.Avoids heads := by
  obtain ⟨text, program, htext, hprogram, rfl⟩ := Eval.moduleForm_eq_ok he
  refine Expr.avoids_form.2 ⟨head, ?_⟩
  simpa using ⟨Expr.avoids_symbol, h name text program htext hprogram⟩

end ScopeLisp
