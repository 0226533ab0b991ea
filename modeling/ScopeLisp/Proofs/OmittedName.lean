/-
ScopeLisp.Proofs.OmittedName — a name that a program does not mention cannot influence
it.

Two runs start in states that differ at most in what the global scope has for one name
(`State.SameBut`). Names are looked up where code has them, but for `constructor`, which
`new` looks up, and for `+` and `-`, which sugar is written out with. So if the code has
the name nowhere, both runs read the same and write the same, and in the end their
states differ in that name and in nothing else (`Interp.omitted_name`).

Sugar is also written out with keywords, which are never looked up, so that the name may
be one of them. `Expr.Spares` is what evaluation keeps of an expression that omits the
name: the name stands in it at most as a keyword that sugar has brought in.
-/
import ScopeLisp.Proofs.Forms
import ScopeLisp.Proofs.Requests
import ScopeLisp.Proofs.Syntax.Reading

namespace ScopeLisp

/-! ## Code without a name -/

/-- The name does not occur in the expression. -/
def Expr.Omits (n : String) (e : Expr) : Prop := ¬ (Expr.symbol n).Occurs e

/-- The function, if the value is a closure, has the name neither in its body nor
among its parameters. -/
def Value.Omits (n : String) : Value → Prop
  | .closure f => f.body.Omits n ∧ n ∉ f.params
  | _ => True

/-- No function that is bound in a scope has the name, unless it is bound to the name. -/
def Store.Omits (n : String) (st : Store) : Prop :=
  ∀ id name v, name ≠ n → (st.record id).get? name = some v → v.Omits n

/-- No text of a module that can be read has the name. -/
def Settings.Omits (n : String) (c : Settings) : Prop :=
  ∀ name text es, c.modules name = .ok text → Expr.ofProgram text = .ok (.block es) →
    ∀ e ∈ es, e.Omits n

/-- What a request brings along does not have the name. -/
def Request.Omits (n : String) : Request → Prop
  | run source => ∀ es, Expr.ofProgram source = .ok (.block es) → ∀ e ∈ es, e.Omits n
  | program e | .eval e _ => e.Omits n
  | call callee args => callee.Omits n ∧ ∀ v ∈ args, v.Omits n

namespace Expr

variable {n : String}

theorem omits_symbol {name : String} : (symbol name).Omits n ↔ name ≠ n := by
  refine not_congr ⟨fun h => ?_, fun h => h ▸ .self⟩
  cases h
  rfl

theorem omits_number {value : Float} : (number value).Omits n := nofun

theorem omits_str {value : String} : (str value).Omits n := nofun

theorem omits_list {items : List Expr} : (list items).Omits n ↔ ∀ x ∈ items, x.Omits n := by
  constructor
  · exact fun h x hx occurs => h (.item hx occurs)
  · rintro h (_ | ⟨hx, occurs⟩)
    exact h _ hx occurs

theorem omits_form {head : String} {operands : List Expr} :
    (form head operands).Omits n ↔ head ≠ n ∧ ∀ x ∈ operands, x.Omits n := by
  rw [form, omits_list, List.forall_mem_cons, omits_symbol]

theorem Omits.inside {d e : Expr} (h : e.Omits n) (hd : d.Inside e) : d.Omits n :=
  fun occurs => h (occurs.trans hd.occurs)

/-- The expression omits the name, or was written out from sugar that omits it. -/
inductive Spares (n : String) : Expr → Prop
  | omits {e : Expr} (h : e.Omits n) : Spares n e
  | block {es : List Expr} (h : ∀ e ∈ es, Spares n e) : Spares n (.block es)
  | declare {name : String} {e : Expr} (other : name ≠ n) (h : Spares n e) :
    Spares n (.form Keyword.declare.name [.symbol name, e])
  | assign {target e : Expr} (ht : target.Omits n) (h : Spares n e) :
    Spares n (.form Keyword.assign.name [target, e])
  | branch {c a b : Expr} (hc : Spares n c) (ha : Spares n a) (hb : Spares n b) :
    Spares n (.form Keyword.branch.name [c, a, b])
  | loop {c e : Expr} (hc : Spares n c) (h : Spares n e) :
    Spares n (.form Keyword.loop.name [c, e])
  | lambda {params e : Expr} (hp : params.Omits n) (h : e.Omits n) :
    Spares n (.form Keyword.lambda.name [params, e])
  | moduleDecl {name : String} {e : Expr} (other : name ≠ n) (h : Spares n e) :
    Spares n (.form Keyword.moduleDecl.name [.symbol name, e])

end Expr

/-! ## Parts -/

section Parts

variable {n : String}

theorem Sugar.spares_expandSwitch :
    ∀ {clauses : List (Expr × Expr)}, clauses ≠ [] →
      (∀ c ∈ clauses, c.1.Omits n ∧ c.2.Omits n) → (expandSwitch clauses).Spares n
  | [(_, _)], _, h => .omits (h _ List.mem_cons_self).2
  | (condition, body) :: c :: cs, _, h => by
    obtain ⟨first, rest⟩ := List.forall_mem_cons.1 h
    exact .branch (.omits first.1) (.omits first.2)
      (spares_expandSwitch (List.cons_ne_nil c cs) rest)

/-- What sugar is written out as spares a name that the sugar omits. -/
theorem Sugar.spares_expand (plus : n ≠ "+") (minus : n ≠ "-") {s : Sugar}
    (clauses : s ≠ .switch []) (h : s.toExpr.Omits n) : s.expand.Spares n := by
  -- `(set target (operator target operand))`
  have update : ∀ {target operand : Expr} {operator : String}, n ≠ operator →
      target.Omits n → operand.Omits n → (expandUpdate target operator operand).Spares n := by
    intro target operand operator hop ht hx
    refine .assign ht (.omits (Expr.omits_form.2 ⟨hop.symm, ?_⟩))
    simpa using ⟨ht, hx⟩
  have operand : ∀ x ∈ s.operands, x.Omits n := fun x hx => h.inside (s.operands_inside x hx)
  cases s with
  | define name params body =>
    have name_ne : (Expr.symbol name).Omits n := h.inside (Expr.inside_form (by simp))
    exact .declare (Expr.omits_symbol.1 name_ne)
      (.lambda (operand _ (by simp [operands])) (operand _ (by simp [operands])))
  | switch cs =>
    refine spares_expandSwitch (fun none => clauses (none ▸ rfl)) fun c hc =>
      ⟨operand _ ?_, operand _ ?_⟩
    all_goals exact List.mem_flatMap.2 ⟨c, hc, by simp⟩
  | iterate init condition update body =>
    simp only [operands, List.forall_mem_cons] at operand
    obtain ⟨hi, hc, hu, hb, -⟩ := operand
    have round : (Expr.block [body, update]).Spares n :=
      .block (by simp [Expr.Spares.omits hb, Expr.Spares.omits hu])
    have whole : (Expr.form "while" [condition, .block [body, update]]).Spares n :=
      .loop (.omits hc) round
    exact .block (by simp [Expr.Spares.omits hi, whole])
  | increment target => exact update plus (operand _ (by simp [operands])) Expr.omits_number
  | decrement target => exact update minus (operand _ (by simp [operands])) Expr.omits_number
  | addAssign target delta =>
    exact update plus (operand _ (by simp [operands])) (operand _ (by simp [operands]))
  | subAssign target delta =>
    exact update minus (operand _ (by simp [operands])) (operand _ (by simp [operands]))

theorem Expr.Omits.parts (plus : n ≠ "+") (minus : n ≠ "-") {e : Expr} {f : Form} (h : e.Omits n)
    (hf : Form.classify e = .ok f) : f.Parts (Expr.Spares n) (Expr.Spares n) (· ≠ n) := by
  obtain rfl := Form.toExpr_of_classify hf
  by_cases hs : ∃ s, f = .sugar s
  · obtain ⟨s, rfl⟩ := hs
    refine s.spares_expand plus minus ?_ h
    rintro rfl
    cases hf
  · refine (Form.parts_inside fun s hs' => hs ⟨s, hs'⟩).imp (fun _ hd => .omits (h.inside hd))
      (fun _ hd => .omits (h.inside hd)) ?_
    rintro m occurs rfl
    exact h occurs

/-- The parts of an expression that spares a name spare it. -/
theorem Expr.Spares.parts (plus : n ≠ "+") (minus : n ≠ "-") {e : Expr} {f : Form}
    (h : e.Spares n) (hf : Form.classify e = .ok f) :
    f.Parts (Expr.Spares n) (Expr.Spares n) (· ≠ n) := by
  cases h with
  | omits h => exact h.parts plus minus hf
  | block h =>
    cases hf
    exact h
  | declare other h | moduleDecl other h =>
    cases hf
    exact ⟨other, h⟩
  | @assign target e ht h =>
    obtain ⟨t, targeted, rfl⟩ := Option.map_eq_some_iff.1 (Form.classify_form.1 hf)
    obtain rfl := Target.ofExpr?_eq_some targeted
    cases t with
    | «variable» name => exact ⟨Expr.omits_symbol.1 ht, h⟩
    | property o name =>
      simp only [Target.toExpr, Expr.omits_form, List.forall_mem_cons, Expr.omits_symbol] at ht
      exact ⟨.omits ht.2.1, ht.2.2.1, h⟩
  | branch hc ha hb =>
    cases hf
    exact ⟨hc, ha, hb⟩
  | loop hc h =>
    cases hf
    exact ⟨hc, h⟩
  | @lambda params e hp h =>
    obtain ⟨names, named, rfl⟩ := Option.map_eq_some_iff.1 (Form.classify_form.1 hf)
    obtain rfl := paramNames?_eq_some named
    refine ⟨fun p hp' => ?_, .omits h⟩
    exact Expr.omits_symbol.1 (Expr.omits_list.1 hp _ (List.mem_map_of_mem hp'))

end Parts

/-! ## States that differ in one name -/

/-- Bindings that differ at most in one name. It stands for `a` in the first and for
`b` in the second, `none` if it is not there; all other names stand for the same and in
the same order. -/
def Bindings.SameBut {α : Type} (n : String) (a b : Option α) (r q : Bindings α) : Prop :=
  ∃ before after, r.entries = before ++ (a.map (n, ·)).toList ++ after ∧
    q.entries = before ++ (b.map (n, ·)).toList ++ after ∧ ∀ e ∈ before ++ after, e.1 ≠ n

/-- Stores that differ at most in one name of the global scope. -/
structure Store.SameBut (n : String) (a b : Option Value) (st st' : Store) : Prop where
  size : st.size = st'.size
  kind : ∀ id, st.kind? id = st'.kind? id
  parent : ∀ id, st.parent? id = st'.parent? id
  record : ∀ id, id ≠ State.globalId → st.record id = st'.record id
  global : (st.record State.globalId).SameBut n a b (st'.record State.globalId)

/-- States that differ at most in one name of the global scope. -/
structure State.SameBut (n : String) (a b : Option Value) (s t : State) : Prop where
  store : s.store.SameBut n a b t.store
  serials : s.serials = t.serials
  cache : s.cache = t.cache
  output : s.output = t.output
  depth : s.depth = t.depth
  importing : s.importing = t.importing

namespace Bindings

variable {α : Type} {n m : String} {a b : Option α} {r q : Bindings α}

/-- Other names are found alike. -/
theorem SameBut.get?_eq (h : r.SameBut n a b q) (other : m ≠ n) : r.get? m = q.get? m := by
  obtain ⟨before, after, hr, hq, -⟩ := h
  have skipped : ∀ o : Option α, (o.map (n, ·)).toList.lookup m = none := by
    have hb : (m == n) = false := beq_eq_false_iff_ne.2 other
    rintro (_ | x) <;> simp [List.lookup_cons, hb]
  simp [get?, hr, hq, List.lookup_append, skipped]

/-- Other names are put alike. -/
theorem SameBut.put (h : r.SameBut n a b q) (other : m ≠ n) (v : α) :
    (r.put m v).SameBut n a b (q.put m v) := by
  obtain ⟨before, after, hr, hq, others⟩ := h
  obtain ⟨othersBefore, othersAfter⟩ := List.forall_mem_append.1 others
  have skipped : ∀ o : Option α, m ∉ (o.map (n, ·)).toList.map Prod.fst := by
    rintro (_ | x) <;> simp [other]
  have stays : ∀ {es : List (String × α)}, (∀ e ∈ es, e.1 ≠ n) → ∀ e ∈ putEntry m v es, e.1 ≠ n :=
    fun {es} h => forall_mem_entries_put (b := ⟨es⟩) other h
  by_cases first : m ∈ before.map Prod.fst
  · refine ⟨putEntry m v before, after, ?_, ?_,
      List.forall_mem_append.2 ⟨stays othersBefore, othersAfter⟩⟩
    · simp [Bindings.put, hr, putEntry_append, first]
    · simp [Bindings.put, hq, putEntry_append, first]
  · refine ⟨before, putEntry m v after, ?_, ?_,
      List.forall_mem_append.2 ⟨othersBefore, stays othersAfter⟩⟩
    · simp only [Bindings.put, hr, List.append_assoc, putEntry_append, if_neg first,
        if_neg (skipped a)]
    · simp only [Bindings.put, hq, List.append_assoc, putEntry_append, if_neg first,
        if_neg (skipped b)]

end Bindings

namespace Store.SameBut

variable {n m : String} {a b : Option Value} {st st' : Store}

theorem get?_eq (h : st.SameBut n a b st') (other : m ≠ n) (id : ScopeId) :
    (st.record id).get? m = (st'.record id).get? m := by
  by_cases top : id = State.globalId
  · exact top ▸ h.global.get?_eq other
  · rw [h.record id top]

/-- Other names stand for the same. -/
theorem lookup? (h : st.SameBut n a b st') (other : m ≠ n) (id : ScopeId) :
    st.lookup? id m = st'.lookup? id m := by
  induction id using Nat.strongRecOn with
  | ind id ih =>
    rw [lookup?_eq, lookup?_eq, h.get?_eq other, h.parent]
    cases hp : st'.parent? id with
    | none => rfl
    | some p => simp only [Option.bind_some, ih p (lt_of_parent? hp)]

/-- Other names are bound in the same scopes. -/
theorem resolve? (h : st.SameBut n a b st') (other : m ≠ n) (id : ScopeId) :
    st.resolve? id m = st'.resolve? id m := by
  induction id using Nat.strongRecOn with
  | ind id ih =>
    have own : st.hasOwn id m = st'.hasOwn id m := by
      rw [hasOwn, hasOwn, Bindings.has, Bindings.has, h.get?_eq other]
    rw [resolve?_eq, resolve?_eq, own, h.parent]
    cases hp : st'.parent? id with
    | none => rfl
    | some p => simp only [Option.bind_some, ih p (lt_of_parent? hp)]

theorem child (h : st.SameBut n a b st') (p : ScopeId) (k : ScopeKind) :
    (st.child p k).SameBut n a b (st'.child p k) where
  size := by simp only [size_child, h.size]
  kind id := by simp only [kind?_child, h.size, h.kind]
  parent id := by simp only [parent?_child, h.size, h.parent]
  record id top := by simp only [record_child, h.record id top]
  global := by simpa only [record_child] using h.global

theorem define (h : st.SameBut n a b st') (other : m ≠ n) (id : ScopeId) (v : Value) :
    (st.define id m v).SameBut n a b (st'.define id m v) where
  size := by simp only [size_define, h.size]
  kind id := by simp only [kind?_define, h.kind]
  parent id := by simp only [parent?_define, h.parent]
  record id top := by simp only [record_define, h.size, h.record id top]
  global := by
    simp only [record_define, h.size]
    split
    · exact h.global.put other v
    · exact h.global

end Store.SameBut

theorem State.SameBut.alike {n : String} {a b : Option Value} {s t : State}
    (h : s.SameBut n a b t) : s.Alike t :=
  ⟨h.store.size, h.store.kind, h.store.parent, h.serials, h.cache, h.depth, h.importing⟩

/-! ## Runs that omit a name -/

/-- What is kept of `Value.Omits`: the body of a closure spares the name. -/
def Value.Spares (n : String) : Value → Prop
  | .closure f => f.body.Spares n ∧ ∀ p ∈ f.params, p ≠ n
  | _ => True

/-- What is kept of `Store.Omits`. -/
def Store.Spares (n : String) (st : Store) : Prop :=
  ∀ id name v, name ≠ n → (st.record id).get? name = some v → v.Spares n

section Omitted

variable {n : String} {a b : Option Value}

theorem Value.Omits.spares {v : Value} (h : v.Omits n) : v.Spares n := by
  cases v with
  | closure f => exact ⟨.omits h.1, fun p hp => ne_of_mem_of_not_mem hp h.2⟩
  | _ => trivial

theorem Store.Spares.child {st : Store} (h : st.Spares n) (p : ScopeId) (k : ScopeKind) :
    (st.child p k).Spares n := by
  intro id name v other hv
  rw [record_child] at hv
  exact h id name v other hv

theorem Store.Spares.define {st : Store} (h : st.Spares n) {v : Value} (hv : v.Spares n)
    (id : ScopeId) (name : String) : (st.define id name v).Spares n := by
  intro id' name' w other hw
  rw [get?_record_define] at hw
  split at hw
  · cases hw
    exact hv
  · exact h id' name' w other hw

theorem Settings.Omits.moduleForm {c : Settings} (h : c.Omits n) {name : String} (other : name ≠ n)
    {e : Expr} (he : Eval.moduleForm c name = .ok e) : e.Spares n := by
  obtain ⟨text, program, htext, hprogram, rfl⟩ := Eval.moduleForm_eq_ok he
  obtain ⟨es, -, rfl⟩ := Expr.ofProgram_eq_ok.1 hprogram
  exact .moduleDecl other (.block fun e he => .omits (h name text es htext hprogram e he))

/-- The comparison of two runs of code that omits a name, from states that differ in it. -/
def omitting (n : String) (a b : Option Value) : Comparison where
  rel s t := s.SameBut n a b t ∧ s.store.Spares n
  value _ := Value.Spares n
  name := (· ≠ n)
  code := Expr.Spares n

theorem omitting_free (n : String) (a b : Option Value) : (omitting n a b).Free :=
  ⟨fun _ _ => trivial, fun _ _ _ => trivial, fun _ => trivial⟩

theorem omitting_lawful (plus : n ≠ "+") (minus : n ≠ "-") (new : n ≠ "constructor")
    {c : Settings} (h : c.Omits n) (a b : Option Value) : (omitting n a b).Lawful c c where
  memoize := rfl
  moduleForm _ := rfl
  moduleCode other := h.moduleForm other
  limit_le := Nat.le_refl _
  limit _ _ hk := .inl ⟨hk, trivial⟩
  error _ := trivial
  grow_refl _ := trivial
  grow_trans _ _ := trivial
  scope_mono _ _ := trivial
  home_mono _ _ := trivial
  home_scope _ := trivial
  loaded_mono _ _ := trivial
  value_mono _ hv := hv
  enter_mono _ _ := trivial
  parts he hf := he.parts plus minus hf
  block _ _ _ := trivial
  constructorName := new.symm
  plain := by
    intro st v hv
    cases v <;> trivial
  closure := by simp [omitting, Value.Spares]
  object _ := trivial
  alike h := h.1.alike
  global _ := trivial
  lookup h _ other := h.1.store.lookup? other _
  found := by
    intro s t id name v h _ other hv
    obtain ⟨owner, -, hv⟩ := Store.exists_mem_chain_of_lookup? hv
    exact h.2 owner name v other hv
  resolve h _ other := h.1.store.resolve? other _
  superclass _ _ _ _ _ _ := trivial
  cached _ _ := ⟨trivial, trivial⟩
  block_opens := trivial
  call_opens := trivial
  openScope h _ _ :=
    ⟨⟨{ h.1 with store := h.1.store.child .. }, h.2.child _ _⟩, trivial, trivial, fun _ => trivial⟩
  loaded _ := trivial
  define h _ other hv :=
    ⟨⟨{ h.1 with store := h.1.store.define other .. }, h.2.define hv _ _⟩, trivial⟩
  assign h _ other hv _ :=
    ⟨⟨{ h.1 with store := h.1.store.define other .. }, h.2.define hv _ _⟩, trivial⟩
  bindModule h other _ hid :=
    ⟨⟨{ h.1 with store := h.1.store.define other .. }, h.2.define (v := .scope _) hid _ _⟩, trivial⟩
  serial h := ⟨⟨{ h.1 with serials := congrArg (· + 1) h.1.serials }, h.2⟩, trivial⟩
  print h := ⟨⟨{ h.1 with output := congrArg (· ++ _) h.1.output }, h.2⟩, trivial⟩
  call h _ := ⟨{ h.1 with depth := congrArg (· + 1) h.1.depth }, h.2⟩
  call_enter _ _ _ := trivial
  call_back _ h' _ := ⟨⟨{ h'.1 with depth := congrArg (· - 1) h'.1.depth }, h'.2⟩, trivial⟩
  load h _ _ _ := ⟨{ h.1 with importing := congrArg (_ :: ·) h.1.importing }, h.2⟩
  load_enter _ _ _ := trivial
  load_back _ h' _ :=
    ⟨⟨{ h'.1 with importing := congrArg List.tail h'.1.importing }, h'.2⟩, trivial⟩
  keep _ _ _ _ _ h' _ _ _ :=
    ⟨⟨{ h'.1 with
        cache := congrArg (Bindings.put · _ _) h'.1.cache
        importing := congrArg List.tail h'.1.importing }, h'.2⟩, trivial⟩

end Omitted

/-! ## Answers -/

/-- Where the left run cannot end early, two runs that agree end in the same way. -/
theorem Comparison.Agree.both {C : Comparison} {α : Type} {V : Store → α → Prop}
    {x y : Nat → Eval α} {s t : State} {k : Nat} (h : C.Agree (Pure.pure k) V x y s t)
    (noAhead : ∀ f, ¬ C.ahead f) :
    (x k s).1 = (y k t).1 ∧ C.rel (x k s).2 (y k t).2 := by
  cases h with
  | value left right rel _ _ | stopped left right rel _ _ =>
    rw [Filter.eventually_pure] at left right
    rw [left, right]
    exact ⟨rfl, rel⟩
  | ahead _ ahead => exact absurd ahead (noAhead _)

namespace Interp

variable {n : String} {a b : Option Value}

/-- **A name that is not mentioned has no influence.** Two interpreters differ at most
in what the global scope has for a name, and the name occurs neither in the functions
bound to other names nor in the texts of the modules. With any amount of fuel they give
the same answer to a request without the name, or both run out of fuel; and then they
differ in that name as before, and in nothing else. -/
theorem omitted_name (plus : n ≠ "+") (minus : n ≠ "-") (new : n ≠ "constructor") {i j : Interp}
    (settings : i.settings = j.settings) (state : i.state.SameBut n a b j.state)
    (modules : i.settings.Omits n) (functions : i.state.store.Omits n) {q : Request}
    (hq : q.Omits n) (fuel : Nat) :
    (i.answer fuel q).1 = (j.answer fuel q).1 ∧
      (i.answer fuel q).2.state.SameBut n a b (j.answer fuel q).2.state := by
  have L := omitting_lawful plus minus new modules a b
  have agree := L.evaluate (k := 0) (.inl ⟨trivial, rfl⟩) (omitting_free n a b) fuel
  have start : (omitting n a b).rel i.state j.state :=
    ⟨state, fun id name v other hv => (functions id name v other hv).spares⟩
  have admits : (omitting n a b).Admits i.state q := by
    cases q with
    | run source =>
      intro e he
      obtain ⟨es, -, rfl⟩ := Expr.ofProgram_eq_ok.1 he
      exact ⟨trivial, .block fun e he' => .omits (hq es he e he'), trivial⟩
    | program e => exact ⟨trivial, .omits hq, trivial⟩
    | eval e env => exact ⟨.inl trivial, .omits hq, trivial⟩
    | call callee args => exact ⟨hq.1.spares, fun v hv => (hq.2 v hv).spares⟩
  rcases L.request_agree agree start admits with ⟨e, unread⟩ | ⟨x, y, computes, agree⟩
  · have left : i.answer fuel q = _ := answerWith_error (unread fuel).1
    have right : j.answer fuel q = _ := answerWith_error (settings ▸ (unread fuel).2)
    rw [left, right]
    exact ⟨rfl, state⟩
  · have left : i.answer fuel q = _ := answerWith_ok (computes fuel).1
    have right : j.answer fuel q = _ := answerWith_ok (settings ▸ (computes fuel).2)
    obtain ⟨same, rel⟩ := agree.both fun _ => id
    rw [left, right]
    exact ⟨congrArg answerOf same, rel.1⟩

/-- `(begin (def keep (x) x) (keep "word"))` -/
def keepWord : Expr :=
  .block [.form Keyword.define.name [.symbol "keep", .list [.symbol "x"], .symbol "x"],
    .list [.symbol "keep", .str "word"]]

/-- `var` is a name like any other where it does not head a list, though the `def` in the
program is written out with it. -/
theorem omitted_name_keepWord :
    let c := blankModule
    let i := Interp.new c .empty
    let j := Interp.new c (Prelude.empty.constant "var" (.bool true))
    let q := Request.program keepWord
    "var" ≠ "+" ∧ "var" ≠ "-" ∧ "var" ≠ "constructor" ∧ i.settings = j.settings ∧
      i.state.SameBut "var" none (some (.bool true)) j.state ∧ i.settings.Omits "var" ∧
      i.state.store.Omits "var" ∧ q.Omits "var" ∧
      (i.answer 9 q).1 = (j.answer 9 q).1 ∧
      (i.answer 9 q).2.state.SameBut "var" none (some (.bool true)) (j.answer 9 q).2.state := by
  intro c i j q
  have state : i.state.SameBut "var" none (some (.bool true)) j.state := by
    have global : (i.state.store.record State.globalId).SameBut "var" none (some (.bool true))
        (j.state.store.record State.globalId) := ⟨[], [], rfl, rfl, nofun⟩
    refine ⟨⟨rfl, fun id => ?_, fun id => ?_, fun id top => ?_, global⟩, rfl, rfl, rfl, rfl, rfl⟩
    · exact (Store.kind?_define ..).symm
    · exact (Store.parent?_define ..).symm
    · exact (Eq.trans (Store.record_define ..) (if_neg fun h => top h.1)).symm
  have settings : i.settings = j.settings := rfl
  have modules : i.settings.Omits "var" := by
    intro name text es htext hprogram
    rw [ofProgram_blankModule htext] at hprogram
    cases hprogram
    exact List.forall_mem_nil _
  have functions : i.state.store.Omits "var" := fun id name v _ hv =>
    Store.AllBound.root .global (Value.Omits "var") id name v hv
  have program : q.Omits "var" := by
    simp [q, Request.Omits, keepWord, Expr.block, Expr.omits_form, Expr.omits_list,
      Expr.omits_symbol, Expr.omits_str, Keyword.name]
  exact ⟨by decide, by decide, by decide, settings, state, modules, functions, program,
    omitted_name (by decide) (by decide) (by decide) settings state modules functions program 9⟩

end Interp

end ScopeLisp
