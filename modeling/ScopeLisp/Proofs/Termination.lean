/-
ScopeLisp.Proofs.Termination — only loops can run for ever.

Evaluation goes into nested expressions in three ways. It goes to a part of the
expression, or to what sugar is written out as: then the weight of the
expression goes down, since the items of sugar weigh more than those of other
lists (`Sugar.weight_expand_lt`). It goes to the body of a closure, or to the
text of a module: then there is room for one call, or one import, less. Weight
and room, the room first, decrease lexicographically, so that every evaluation
ends (`Interp.loopFree_answers`), as long as no loop is met; a loop would
evaluate the same condition again.
-/
import ScopeLisp.Proofs.Bookkeeping
import ScopeLisp.Proofs.Forms

namespace ScopeLisp

/-! ## The weight of an expression -/

namespace Expr

/-- The heads of sugar. -/
def sugarHeads : List String :=
  [Keyword.define, .switch, .iterate, .increment, .decrement, .addAssign, .subAssign].map
    Keyword.name

/-- How much the weight of its items counts in a list: sugar holds enough for
the heads that it is written out with, and for one more copy of what is
copied. -/
def factor (items : List Expr) : Nat :=
  match (list items).head? with
  | some head => if head ∈ sugarHeads then 4 else 1
  | none => 1

mutual

/-- What an expression weighs. -/
def weight : Expr → Nat
  | .list items => 1 + factor items * itemsWeight items
  | _ => 1

def itemsWeight : List Expr → Nat
  | [] => 0
  | e :: es => e.weight + itemsWeight es

end

theorem one_le_weight (e : Expr) : 1 ≤ e.weight := by
  cases e <;> simp [weight]

theorem weight_le_itemsWeight {e : Expr} {items : List Expr} (h : e ∈ items) :
    e.weight ≤ itemsWeight items := by
  induction items with
  | nil => cases h
  | cons d items ih =>
    rw [itemsWeight]
    rcases List.mem_cons.1 h with rfl | h
    · exact Nat.le_add_right ..
    · exact (ih h).trans (Nat.le_add_left ..)

theorem itemsWeight_lt (items : List Expr) : itemsWeight items < (list items).weight := by
  have one_le : 1 ≤ factor items := by
    unfold factor
    split
    · split <;> decide
    · exact Nat.le_refl 1
  rw [weight]
  have := Nat.le_mul_of_pos_left (itemsWeight items) one_le
  omega

theorem Occurs.weight_le {d e : Expr} (h : d.Occurs e) : d.weight ≤ e.weight := by
  induction h with
  | self => exact Nat.le_refl _
  | item mem _ ih => exact ih.trans ((weight_le_itemsWeight mem).trans (itemsWeight_lt _).le)

/-- What stands in an expression weighs less. -/
theorem Inside.weight_lt {d e : Expr} (h : d.Inside e) : d.weight < e.weight := by
  obtain ⟨items, rfl, x, hx, occurs⟩ := h
  exact (occurs.weight_le.trans (weight_le_itemsWeight hx)).trans_lt (itemsWeight_lt items)

theorem weight_form {head : String} (h : head ∉ sugarHeads) (operands : List Expr) :
    (form head operands).weight = 2 + itemsWeight operands := by
  simp only [form, weight, factor, head?, if_neg h, itemsWeight]
  omega

theorem weight_sugar {head : String} (h : head ∈ sugarHeads) (operands : List Expr) :
    (form head operands).weight = 5 + 4 * itemsWeight operands := by
  simp only [form, weight, factor, head?, if_pos h, itemsWeight]
  omega

end Expr

namespace Sugar

open ScopeLisp.Expr

/-- The `if`s of a `switch` weigh no more than its clauses, of which each
weighs more than the two expressions in it. -/
theorem weight_expandSwitch_le :
    ∀ clauses, (expandSwitch clauses).weight ≤ 1 + 2 * itemsWeight (clauses.map clauseExpr)
  | [] => by simp [expandSwitch, weight, itemsWeight]
  | [(condition, body)] => by
    have inside : body.Inside (clauseExpr (condition, body)) := inside_of_mem (by simp)
    have := inside.weight_lt
    simp only [expandSwitch, List.map_cons, List.map_nil, itemsWeight]
    omega
  | (condition, body) :: c :: cs => by
    have ih := weight_expandSwitch_le (c :: cs)
    have clause : itemsWeight [condition, body] < (clauseExpr (condition, body)).weight :=
      itemsWeight_lt _
    rw [expandSwitch, weight_form (by decide), List.map_cons, itemsWeight]
    simp only [itemsWeight] at clause ⊢
    omega

/-- What sugar is written out as weighs less than the sugar. -/
theorem weight_expand_lt (s : Sugar) : s.expand.weight < s.toExpr.weight := by
  -- `(set target (operator target operand))` has the target twice.
  have update : ∀ (target operand : Expr) {operator : String}, operator ∉ sugarHeads →
      (expandUpdate target operator operand).weight =
        4 + 2 * target.weight + operand.weight := by
    intro target operand operator h
    rw [expandUpdate, weight_form (by decide), itemsWeight, itemsWeight, itemsWeight,
      weight_form h, itemsWeight, itemsWeight, itemsWeight]
    omega
  cases s with
  | define name params body =>
    rw [toExpr, weight_sugar (by decide), expand, expandDefine, weight_form (by decide)]
    simp only [itemsWeight, weight_form (show "lambda" ∉ sugarHeads by decide)]
    have := params.one_le_weight
    omega
  | switch clauses =>
    have := weight_expandSwitch_le clauses
    rw [toExpr, weight_sugar (by decide), expand]
    omega
  | iterate init condition update body =>
    rw [toExpr, weight_sugar (by decide), expand, expandIterate, block,
      weight_form (by decide)]
    simp only [itemsWeight, block, weight_form (show "while" ∉ sugarHeads by decide),
      weight_form (show "begin" ∉ sugarHeads by decide)]
    have := init.one_le_weight
    have := body.one_le_weight
    omega
  | increment target | decrement target =>
    rw [toExpr, weight_sugar (by decide), expand, update _ _ (by decide)]
    simp only [itemsWeight, weight]
    have := target.one_le_weight
    omega
  | addAssign target delta | subAssign target delta =>
    rw [toExpr, weight_sugar (by decide), expand, update _ _ (by decide)]
    simp only [itemsWeight]
    have := delta.one_le_weight
    omega

end Sugar

/-! ## Loop-free programs -/

/-- No loop stands in the expression, nor sugar for one. -/
def Expr.LoopFree (e : Expr) : Prop := e.Avoids [Keyword.loop.name, Keyword.iterate.name]

/-- The body of the function, if it is a closure, has no loop. -/
def Value.LoopFree : Value → Prop
  | .closure f => f.body.LoopFree
  | _ => True

/-- No function in the scopes has a loop. -/
def Store.LoopFree (st : Store) : Prop :=
  ∀ id name v, (st.record id).get? name = some v → v.LoopFree

/-- No text of a module that can be read has a loop. -/
def Settings.LoopFree (c : Settings) : Prop :=
  ∀ name text program, c.modules name = .ok text → Expr.ofProgram text = .ok program →
    program.LoopFree

/-- What a request brings along has no loop. -/
def Request.LoopFree : Request → Prop
  | run source => ∀ e, Expr.ofProgram source = .ok e → e.LoopFree
  | program e => e.LoopFree
  | .eval e _ => e.LoopFree
  | call callee args => callee.LoopFree ∧ ∀ v ∈ args, v.LoopFree

theorem Store.LoopFree.child {st : Store} (h : st.LoopFree) (p : ScopeId) (k : ScopeKind) :
    (st.child p k).LoopFree :=
  AllBound.child h p k

theorem Store.LoopFree.define {st : Store} (h : st.LoopFree) {v : Value} (hv : v.LoopFree)
    (id : ScopeId) (name : String) : (st.define id name v).LoopFree :=
  AllBound.define h hv id name

/-- A new interpreter has no loop in its scopes if its prelude has none. -/
theorem State.loopFree_fresh {p : Prelude} (h : ∀ e ∈ p.entries.entries, e.2.LoopFree) :
    (State.fresh p).store.LoopFree := by
  exact State.fresh_induction (Store.AllBound.root _ _) fun he hst => hst.define (h _ he) _ _

/-- A loop-free expression is loop-free in all its parts. -/
theorem Expr.LoopFree.parts {e : Expr} {f : Form} (h : e.LoopFree)
    (hf : Form.classify e = .ok f) : f.Parts Expr.LoopFree Expr.LoopFree (fun _ => True) :=
  Expr.Avoids.parts h (by decide) (by decide) hf

theorem Expr.LoopFree.ne_loop {e : Expr} (h : e.LoopFree) {condition body : Expr} :
    Form.classify e ≠ .ok (.loop condition body) := by
  intro hf
  obtain rfl := Form.toExpr_of_classify hf
  exact (Expr.avoids_form.1 h).1 (by decide)

theorem Settings.LoopFree.moduleForm {c : Settings} (h : c.LoopFree) {name : String} {e : Expr}
    (he : Eval.moduleForm c name = .ok e) : e.LoopFree :=
  Settings.Avoids.moduleForm h (by decide) he

/-! ## Descent -/

/-- How many calls and imports may still start inside those that are running. -/
def State.room (c : Settings) (s : State) : Nat :=
  (c.maxCallDepth - s.depth) + (c.maxCallDepth - s.importing.length)

/-- The parts of an expression weigh less than it does. -/
theorem Form.parts_weight_lt {e : Expr} {f : Form} (hf : Form.classify e = .ok f) :
    f.Parts (·.weight < e.weight) (fun _ => True) (fun _ => True) := by
  refine Form.parts_of_classify hf (fun _ => Expr.Inside.weight_lt) (fun _ _ => trivial) ?_
  rintro s rfl
  exact Form.toExpr_of_classify hf ▸ s.weight_expand_lt

/-- The comparison of loop-free evaluation with itself, from states with room
for no more than `n`; it may go into expressions that weigh less than `w`, and
into all others when there is less room. No run starves. -/
def descent (c : Settings) (n w : Nat) : Comparison where
  rel s t := s = t ∧ s.store.LoopFree ∧ s.room c ≤ n
  value _ := Value.LoopFree
  code := Expr.LoopFree
  enter s e := s.room c < n ∨ s.room c = n ∧ e.weight < w
  fails f := f ≠ none

theorem descent_lawful {c : Settings} (h : c.LoopFree) (n w : Nat) :
    (descent c n w).Lawful c c where
  memoize := rfl
  moduleForm _ := rfl
  moduleCode _ := h.moduleForm
  limit_le := Nat.le_refl _
  limit _ _ hk := .inl ⟨hk, by simp [descent]⟩
  error _ := by simp [descent]
  grow_refl _ := trivial
  grow_trans _ _ := trivial
  scope_mono _ _ := trivial
  home_mono _ _ := trivial
  home_scope _ := trivial
  loaded_mono _ _ := trivial
  value_mono _ hv := hv
  enter_mono := by
    intro s s' e grows henter
    have same : s'.room c = s.room c := by rw [State.room, grows.depth, grows.importing, State.room]
    simpa only [descent, same] using henter
  parts he hf := he.parts hf
  block := by
    intro s es henter e he
    have inside : e.Inside (.block es) := Expr.inside_form he
    exact henter.imp_right fun h => ⟨h.1, inside.weight_lt.trans h.2⟩
  constructorName := trivial
  plain := by
    intro st v hv
    cases v <;> trivial
  closure := by simp [descent, Value.LoopFree]
  object _ := trivial
  alike := by
    rintro s _ ⟨rfl, -⟩
    exact .refl s
  global _ := trivial
  lookup := by
    rintro s _ id name ⟨rfl, -⟩ _ _
    rfl
  found := by
    rintro s _ id name v ⟨rfl, hs, -⟩ _ _ hv
    exact Store.AllBound.lookup? hs hv
  resolve := by
    rintro s _ id name ⟨rfl, -⟩ _ _
    rfl
  superclass _ _ _ _ _ _ := trivial
  cached _ _ := ⟨trivial, trivial⟩
  block_opens := trivial
  call_opens := trivial
  openScope := by
    rintro s _ p k ⟨rfl, hs, hn⟩ _ _
    exact ⟨⟨rfl, hs.child p k, hn⟩, trivial, trivial, fun _ => trivial⟩
  loaded _ := trivial
  define := by
    rintro s _ id name v ⟨rfl, hs, hn⟩ _ _ hv
    exact ⟨⟨rfl, hs.define hv id name, hn⟩, trivial⟩
  assign := by
    rintro s _ id name o v ⟨rfl, hs, hn⟩ _ _ hv _
    exact ⟨⟨rfl, hs.define hv o name, hn⟩, trivial⟩
  bindModule := by
    rintro s _ name id ⟨rfl, hs, hn⟩ _ _ _
    exact ⟨⟨rfl, hs.define (v := .scope id) trivial State.globalId name, hn⟩, trivial⟩
  serial := by
    rintro s _ ⟨rfl, hs, hn⟩
    exact ⟨⟨rfl, hs, hn⟩, trivial⟩
  print := by
    rintro s _ line ⟨rfl, hs, hn⟩
    exact ⟨⟨rfl, hs, hn⟩, trivial⟩
  call := by
    rintro s _ ⟨rfl, hs, hn⟩ hlt
    refine ⟨rfl, hs, ?_⟩
    simp only [State.room, State.pushCall] at hn ⊢
    omega
  call_enter := by
    rintro s _ e ⟨rfl, hs, hn⟩ hlt _
    refine .inl ?_
    simp only [State.room, State.pushCall] at hn ⊢
    omega
  call_back := by
    rintro s _ s' _ ⟨rfl, -, hn⟩ ⟨rfl, hs', -⟩ grows
    refine ⟨⟨rfl, hs', ?_⟩, trivial⟩
    simpa [State.room, State.popCall, grows.depth, grows.importing, State.pushCall] using hn
  load := by
    rintro s _ name ⟨rfl, hs, hn⟩ _ _ hfree
    refine ⟨rfl, hs, ?_⟩
    simp only [State.room, State.pushImport, List.length_cons] at hn ⊢
    omega
  load_enter := by
    rintro s _ name e ⟨rfl, hs, hn⟩ hfree _
    have := (State.Orderly.of_importRefused? hfree).2
    refine .inl ?_
    simp only [State.room, State.pushImport, List.length_cons] at hn ⊢
    omega
  load_back := by
    rintro s _ s' _ name ⟨rfl, -, hn⟩ ⟨rfl, hs', -⟩ grows
    refine ⟨⟨rfl, hs', ?_⟩, trivial⟩
    simpa [State.room, State.popImport, grows.depth, grows.importing, State.pushImport] using hn
  keep := by
    rintro s _ s' _ name id ⟨rfl, -, hn⟩ _ _ _ _ ⟨rfl, hs', -⟩ grows _ _
    refine ⟨⟨rfl, hs', ?_⟩, trivial⟩
    simpa [State.room, State.popImport, State.keep, grows.depth, grows.importing,
      State.pushImport] using hn

open Filter in
/-- Evaluation that descends comes to an end. -/
theorem descent_agree {c : Settings} (h : c.LoopFree) (n w : Nat) :
    (descent c n w).EvalAgree atTop (Eval.evaluate c) (Eval.evaluate c) := by
  rintro e env s _ ⟨rfl, hs, hn⟩ _ he henter
  -- Nested evaluations descend from the room and the weight of this one.
  have nested := descent_agree h (s.room c) e.weight
  have stepped : (descent c (s.room c) e.weight).Agree atTop (descent c n w).value
      (fun k => Eval.evaluate c (k + 1) e env) (fun k => Eval.evaluate c (k + 1) e env) s s :=
    (descent_lawful h _ _).step nested
      ((descent_lawful h _ _).load_agree nested (fun _ => trivial) fun _ _ _ => trivial)
      ⟨rfl, hs, Nat.le_refl _⟩ (.inl trivial) he (fun _ _ hf => absurd hf he.ne_loop)
      (fun f hf => (Form.parts_weight_lt hf).imp (fun _ hlt => .inr ⟨rfl, hlt⟩)
        (fun _ _ => trivial) fun _ _ => trivial)
      fun _ _ => ⟨fun _ => trivial, fun _ => trivial⟩
  rw [← map_add_atTop_eq_nat 1, Comparison.agree_map]
  exact stepped.imp (fun _ _ ⟨heq, hs, hle⟩ => ⟨heq, hs, hle.trans hn⟩) (fun _ _ _ => trivial)
    (fun _ _ hv => hv) (fun _ hf => hf) fun _ hf => hf
termination_by (n, w)
decreasing_by
  rcases henter with less | ⟨same, lighter⟩
  · exact .left _ _ less
  · exact same ▸ .right _ lighter

/-! ## Answers -/

namespace Interp

/-- A loop-free request is within some descent from any state. -/
theorem exists_admits_of_loopFree {c : Settings} {s : State} {q : Request} (hq : q.LoopFree) :
    ∃ w, (descent c (s.room c) w).Admits s q := by
  have enters : ∀ {e : Expr}, e.LoopFree →
      (descent c (s.room c) (e.weight + 1)).code e ∧
        (descent c (s.room c) (e.weight + 1)).enter s e :=
    fun he => ⟨he, .inr ⟨rfl, Nat.lt_succ_self _⟩⟩
  cases q with
  | run source =>
    simp only [Comparison.Admits]
    cases h : Expr.ofProgram source with
    | error =>
      refine ⟨0, fun e he => ?_⟩
      cases he
    | ok program =>
      refine ⟨program.weight + 1, fun e he => ?_⟩
      cases he
      exact ⟨trivial, enters (hq program h)⟩
  | program e => exact ⟨_, trivial, enters hq⟩
  | eval e env => exact ⟨_, .inl trivial, enters hq⟩
  | call callee args => exact ⟨0, hq⟩

/-- **Only loops can run for ever.** Where neither the request nor the functions
in the scopes nor the texts of the modules have a loop, the request is answered,
with a value or with an error; and then there is still no loop in the scopes. -/
theorem loopFree_answers {i : Interp} (modules : i.settings.LoopFree)
    (state : i.state.store.LoopFree) {q : Request} (hq : q.LoopFree) :
    ∃ a i', i.Answers q a i' ∧ i'.state.store.LoopFree := by
  obtain ⟨w, admits⟩ := exists_admits_of_loopFree (c := i.settings) (s := i.state) hq
  rcases (descent_lawful modules _ w).request_agree (descent_agree modules _ w)
    ⟨rfl, state, Nat.le_refl _⟩ admits with ⟨e, unread⟩ | ⟨x, y, computes, agree⟩
  · exact ⟨_, i, ⟨by simp, 0, answerWith_error (unread 0).1⟩, state⟩
  · cases agree with
    | value left right rel grows holds =>
      exact ⟨_, _, .of_ends (fun n => (computes n).1) left (by simp), rel.2.1⟩
    | stopped left right rel grows fails =>
      obtain ⟨e, rfl⟩ := Option.ne_none_iff_exists'.1 fails
      exact ⟨_, _, .of_ends (fun n => (computes n).1) left (by simp [Outcome.stopped]), rel.2.1⟩
    | ahead _ never => exact never.elim

theorem loopFree_answers_selfApplication :
    let q := Request.program (.list [selfApplication, selfApplication])
    twoCalls.settings.LoopFree ∧ twoCalls.state.store.LoopFree ∧ q.LoopFree ∧
      ∃ a i', twoCalls.Answers q a i' ∧ i'.state.store.LoopFree := by
  intro q
  have modules : twoCalls.settings.LoopFree := fun _ _ _ h => nomatch h
  have state : twoCalls.state.store.LoopFree := State.loopFree_fresh fun _ h => nomatch h
  have expression : q.LoopFree := by
    simp [q, Request.LoopFree, Expr.LoopFree, selfApplication, Expr.avoids_list,
      Expr.avoids_symbol, Expr.head?, Expr.form, Keyword.name]
  exact ⟨modules, state, expression, loopFree_answers modules state expression⟩

end Interp

end ScopeLisp
