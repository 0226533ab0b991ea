/-
ScopeLisp.Proofs.Comparison.Evaluation — comparisons are kept by evaluation.

One lemma for each part of the evaluator, from rows of expressions to forms:
under a lawful comparison, what it does with two evaluators that agree agrees.
The main statements are `Comparison.Lawful.step`, for one level of nesting, and
`Comparison.Lawful.evaluate`, for any amount of fuel.
-/
import ScopeLisp.Proofs.Comparison.Basic

namespace ScopeLisp

namespace Comparison

open Filter

variable {C : Comparison} {c d : Settings} {l : Filter Nat} {ev₁ ev₂ : Nat → Evaluator}
variable {s t : State} {env : ScopeId}

namespace Lawful

variable (L : C.Lawful c d) (hev : C.EvalAgree l ev₁ ev₂)
include L hev

/-! ## Rows of expressions -/

theorem sequence_agree {es : List Expr} {last : Value} (rel : C.rel s t)
    (henv : C.home s.store env) (hlast : C.value s.store last) (hcode : ∀ e ∈ es, C.code e)
    (henter : ∀ e ∈ es, C.enter s e) :
    C.Agree l C.value (fun n => Eval.sequence (ev₁ n) env last es)
      (fun n => Eval.sequence (ev₂ n) env last es) s t := by
  induction es generalizing s t last with
  | nil => exact L.pure rel hlast
  | cons e es ih =>
    simp only [List.forall_mem_cons] at hcode henter
    refine L.bind (hev e env s t rel (.inl henv) hcode.1 henter.1) fun v s' t' rel' grows hv => ?_
    exact ih rel' (L.home_mono grows.grow henv) hv hcode.2
      fun e he => L.enter_mono grows (henter.2 e he)

theorem arguments_agree {es : List Expr} {before : List Value} (rel : C.rel s t)
    (henv : C.home s.store env) (hbefore : ∀ v ∈ before, C.value s.store v)
    (hcode : ∀ e ∈ es, C.code e) (henter : ∀ e ∈ es, C.enter s e) :
    C.Agree l (fun st vs => ∀ v ∈ vs, C.value st v)
      (fun n => Eval.arguments (ev₁ n) env before es)
      (fun n => Eval.arguments (ev₂ n) env before es) s t := by
  induction es generalizing s t before with
  | nil =>
    refine L.pure rel fun v hv => hbefore v ?_
    simpa using hv
  | cons e es ih =>
    simp only [List.forall_mem_cons] at hcode henter
    refine L.bind (hev e env s t rel (.inl henv) hcode.1 henter.1) fun v s' t' rel' grows hv => ?_
    refine ih rel' (L.home_mono grows.grow henv) ?_ hcode.2
      fun e he => L.enter_mono grows (henter.2 e he)
    simp only [List.forall_mem_cons]
    exact ⟨hv, fun w hw => L.value_mono grows.grow (hbefore w hw)⟩

theorem body_agree {e : Expr} (rel : C.rel s t) (henv : C.home s.store env) (hcode : C.code e)
    (henter : C.enter s e) :
    C.Agree l C.value (fun n => Eval.body (ev₁ n) env e) (fun n => Eval.body (ev₂ n) env e)
      s t := by
  unfold Eval.body
  split
  · rename_i head es
    split
    · rename_i hhead
      subst hhead
      refine L.sequence_agree hev rel henv (L.plain trivial) ?_ (L.block henter)
      exact L.parts hcode (f := .block es) rfl
    · exact hev _ env s t rel (.inl henv) hcode henter
  · exact hev _ env s t rel (.inl henv) hcode henter

theorem block_agree {es : List Expr} (rel : C.rel s t) (henv : C.scope s.store env)
    (hcode : ∀ e ∈ es, C.code e) (henter : ∀ e ∈ es, C.enter s e) (r₁ r₂ : Nat → Nat) :
    C.Agree l C.value (fun n => Eval.form c (r₁ n) (ev₁ n) env (.block es))
      (fun n => Eval.form d (r₂ n) (ev₂ n) env (.block es)) s t := by
  refine L.bind (L.openScope_agree rel henv L.block_opens) fun id s' t' rel' grows hid => ?_
  exact L.sequence_agree hev rel' hid.1 (L.plain trivial) hcode
    fun e he => L.enter_mono grows (henter e he)

/-- A loop, with the same number of rounds on both sides, or with more rounds
on the right when the left run may starve. -/
theorem loop_agree {condition e : Expr} {k₁ k₂ : Nat} {last : Value}
    (hk : C.fails none ∧ k₁ = k₂ ∨ C.ahead none ∧ k₁ ≤ k₂) (rel : C.rel s t)
    (henv : C.home s.store env) (hlast : C.value s.store last)
    (hcode : C.code condition ∧ C.code e) (henter : C.enter s condition ∧ C.enter s e) :
    C.Agree l C.value (fun n => Eval.loop (ev₁ n) env condition e k₁ last)
      (fun n => Eval.loop (ev₂ n) env condition e k₂ last) s t := by
  induction k₁ generalizing k₂ s t last with
  | zero =>
    unfold Eval.loop
    refine L.bind (hev condition env s t rel (.inl henv) hcode.1 henter.1)
      fun v s' t' rel' grows hv => ?_
    split
    · rcases hk with ⟨fails, rfl⟩ | ⟨ahead, -⟩
      · exact .stopped (f := none) (.of_forall fun _ => rfl) (.of_forall fun _ => rfl) rel'
          (L.grows_refl s') fails
      · exact .ahead (f := none) (.of_forall fun _ => rfl) ahead
    · exact L.pure rel' (L.value_mono grows.grow hlast)
  | succ k₁ ih =>
    obtain ⟨k, rfl⟩ : ∃ k, k₂ = k + 1 := by
      rcases hk with ⟨-, h⟩ | ⟨-, h⟩
      · exact ⟨k₁, h.symm⟩
      · exact ⟨k₂ - 1, by omega⟩
    replace hk : C.fails none ∧ k₁ = k ∨ C.ahead none ∧ k₁ ≤ k :=
      hk.imp (fun h => ⟨h.1, by omega⟩) fun h => ⟨h.1, by omega⟩
    unfold Eval.loop
    refine L.bind (hev condition env s t rel (.inl henv) hcode.1 henter.1)
      fun v s' t' rel' grows hv => ?_
    split
    · have henv' := L.home_mono grows.grow henv
      refine L.bind (hev e env s' t' rel' (.inl henv') hcode.2 (L.enter_mono grows henter.2))
        fun w s'' t'' rel'' grows' hw => ?_
      have grows'' := L.grows_trans grows grows'
      exact ih hk rel'' (L.home_mono grows''.grow henv) hw
        ⟨L.enter_mono grows'' henter.1, L.enter_mono grows'' henter.2⟩
    · exact L.pure rel' (L.value_mono grows.grow hlast)

/-! ## Objects and classes -/

theorem object_agree {operation : String} {e : Expr} (rel : C.rel s t)
    (henv : C.home s.store env) (hcode : C.code e) (henter : C.enter s e) :
    C.Agree l (fun st id => C.value st (.scope id)) (fun n => Eval.object (ev₁ n) env operation e)
      (fun n => Eval.object (ev₂ n) env operation e) s t := by
  refine L.bind (hev e env s t rel (.inl henv) hcode henter) fun v s' t' rel' grows hv => ?_
  cases v with
  | scope id => exact L.pure rel' hv
  | _ => exact L.mismatch_agree rel'

omit hev in
theorem expectClass_agree {operation : String} {v : Value} (rel : C.rel s t)
    (hv : C.value s.store v) :
    C.Agree l (fun st id => C.value st (.scope id) ∧ st.isClass id = true)
      (fun _ => Eval.expectClass operation v) (fun _ => Eval.expectClass operation v) s t := by
  have mismatched : C.Agree l (fun st id => C.value st (.scope id) ∧ st.isClass id = true)
      (fun _ => Eval.mismatch operation .ofClass v)
      (fun _ => Eval.mismatch operation .ofClass v) s t := L.mismatch_agree rel
  cases v with
  | scope id =>
    by_cases h : s.store.isClass id = true
    · refine L.agree_after (L.grows_refl s) (L.pure rel ⟨hv, h⟩) (.of_forall fun _ => ?_)
        (.of_forall fun _ => ?_)
      · simp only [Eval.expectClass, h, if_true]; rfl
      · simp only [Eval.expectClass, ← (L.alike rel).isClass, h, if_true]; rfl
    · refine L.agree_after (L.grows_refl s) mismatched (.of_forall fun _ => ?_)
        (.of_forall fun _ => ?_)
      · simp only [Eval.expectClass, if_neg h]
      · simp only [Eval.expectClass, ← (L.alike rel).isClass, if_neg h]
  | _ => exact mismatched

omit hev in
theorem classParent_agree {name : String} {v : Value} (rel : C.rel s t)
    (henv : C.home s.store env) (hv : C.value s.store v) :
    C.Agree l C.scope (fun _ => Eval.classParent env name v)
      (fun _ => Eval.classParent env name v) s t := by
  have mismatched : C.Agree l C.scope (fun _ => Eval.mismatch ("class " ++ name) .classOrNull v)
      (fun _ => Eval.mismatch ("class " ++ name) .classOrNull v) s t := L.mismatch_agree rel
  cases v with
  | null => exact L.pure rel (L.home_scope henv)
  | scope id =>
    by_cases h : s.store.isClass id = true
    · refine L.agree_after (L.grows_refl s) (L.pure rel (L.home_scope (L.object hv)))
        (.of_forall fun _ => ?_)
        (.of_forall fun _ => ?_)
      · simp only [Eval.classParent, h, if_true]; rfl
      · simp only [Eval.classParent, ← (L.alike rel).isClass, h, if_true]; rfl
    · refine L.agree_after (L.grows_refl s) mismatched (.of_forall fun _ => ?_)
        (.of_forall fun _ => ?_)
      · simp only [Eval.classParent, if_neg h]
      · simp only [Eval.classParent, ← (L.alike rel).isClass, if_neg h]
  | _ => exact mismatched

/-! ## Calls -/

omit hev in
theorem bindParams_agree {id : ScopeId} {ps : List String} {vs : List Value} (rel : C.rel s t)
    (hid : C.home s.store id) (hps : ∀ p ∈ ps, C.name p) (hvs : ∀ v ∈ vs, C.value s.store v) :
    C.Agree l (fun _ _ => True) (fun _ => Eval.bindParams id ps vs)
      (fun _ => Eval.bindParams id ps vs) s t := by
  induction ps generalizing s t vs with
  | nil => exact L.pure rel trivial
  | cons p ps ih =>
    cases vs with
    | nil => exact L.pure rel trivial
    | cons v vs =>
      simp only [List.forall_mem_cons] at hps hvs
      refine L.bind (L.define_agree rel hid hps.1 hvs.1) fun _ s' t' rel' grows _ => ?_
      exact ih rel' (L.home_mono grows.grow hid) hps.2
        fun w hw => L.value_mono grows.grow (hvs.2 w hw)

omit hev in
theorem callNative_agree {f : Native} {args : List Value} (rel : C.rel s t)
    (hargs : ∀ v ∈ args, C.value s.store v) :
    C.Agree l C.value (fun _ => Eval.callNative f args) (fun _ => Eval.callNative f args) s t := by
  have same := (L.alike rel).apply f args
  have ends := f.apply_end s.store args
  rcases h : f.apply s.store args with e | ⟨v, lines⟩ <;> rw [h] at ends
  · refine .stopped (f := some e) (.of_forall fun _ => ?_) (.of_forall fun _ => ?_) rel
      (L.grows_refl s) (L.error ends)
    · simp only [Eval.callNative, h, Outcome.stopped]
    · simp only [Eval.callNative, ← same, h, Outcome.stopped]
  · obtain ⟨rel', grow⟩ : C.rel (s.print lines) (t.print lines) ∧ C.grow s (s.print lines) :=
      L.print rel
    have hv : C.value s.store v := ends.elim L.plain (hargs v)
    refine .value (.of_forall fun _ => ?_) (.of_forall fun _ => ?_) rel' ⟨rfl, rfl, grow⟩
      (L.value_mono grow hv)
    · simp only [Eval.callNative, h, State.print]
    · simp only [Eval.callNative, ← same, h, State.print]

omit hev in
/-- What agrees with one more call running agrees as a call. -/
theorem asCall_agree {α : Type} {V : Store → α → Prop} {x y : Nat → Eval α} (rel : C.rel s t)
    (h : C.Agree l V x y s.pushCall t.pushCall) :
    C.Agree l V (fun n => Eval.asCall (x n)) (fun n => Eval.asCall (y n)) s t := by
  have back : ∀ {s' t'}, C.rel s' t' → C.Grows s.pushCall s' →
      C.rel s'.popCall t'.popCall ∧ C.Grows s s'.popCall := by
    intro s' t' rel' grows
    obtain ⟨rel'', grow⟩ := L.call_back rel rel' grows
    refine ⟨rel'', ?_, grows.importing, grow⟩
    have hdepth : s'.depth = s.depth + 1 := grows.depth
    simp only [State.popCall, hdepth, Nat.add_sub_cancel]
  have leave : ∀ {z : Nat → Eval α} {u r u'}, (∀ᶠ n in l, z n u.pushCall = (r, u')) →
      ∀ᶠ n in l, Eval.asCall (z n) u = (r, u'.popCall) := by
    intro z u r u' hz
    filter_upwards [hz] with n hz
    simp only [State.pushCall] at hz
    simp only [Eval.asCall, hz, State.popCall]
  cases h with
  | value left right rel' grows holds =>
    obtain ⟨rel'', grows'⟩ := back rel' grows
    exact .value (leave left) (leave right) rel'' grows' holds
  | stopped left right rel' grows fails =>
    obtain ⟨rel'', grows'⟩ := back rel' grows
    exact .stopped (leave left) (leave right) rel'' grows' fails
  | ahead left ahead => exact .ahead (leave left) ahead

omit hev in
/-- The question whether a call may start: where the left run may go on, so may
the right one. -/
theorem limit_agree (rel : C.rel s t) :
    C.Agree l (fun _ _ => s.depth < c.maxCallDepth)
      (fun _ => Eval.ask fun s =>
        if s.depth < c.maxCallDepth then .ok () else .error (.stackExhausted s.depth))
      (fun _ => Eval.ask fun s =>
        if s.depth < d.maxCallDepth then .ok () else .error (.stackExhausted s.depth)) s t := by
  have same : s.depth = t.depth := (L.alike rel).depth
  have le := L.limit_le
  refine L.askOrAhead rel ?_
  by_cases h : s.depth < c.maxCallDepth
  · exact .inl ⟨(), if_pos h, if_pos (by omega), h⟩
  · refine .inr ⟨.stackExhausted s.depth, if_neg h, ?_⟩
    refine (L.limit rel (.inl rfl) (by omega)).imp_left fun ⟨h', fails⟩ => ⟨?_, fails⟩
    rw [same, if_neg (by omega)]

theorem callClosure_agree {f : Closure} {args : List Value} (rel : C.rel s t)
    (hf : C.value s.store (.closure f)) (hargs : ∀ v ∈ args, C.value s.store v) :
    C.Agree l C.value (fun n => Eval.callClosure c (ev₁ n) f args)
      (fun n => Eval.callClosure d (ev₂ n) f args) s t := by
  unfold Eval.callClosure
  split
  · exact L.fail rel (by intro k hk; cases hk)
  · obtain ⟨hscope, hcode, hparams⟩ := L.closure.1 hf
    refine L.bind (L.limit_agree rel) fun _ s₁ t₁ rel₁ grows₁ hdepth => ?_
    refine L.bind (L.openScope_agree rel₁ (L.scope_mono grows₁.grow hscope) L.call_opens)
      fun id s₂ t₂ rel₂ grows₂ hid => ?_
    have grows₂ := L.grows_trans grows₁ grows₂
    refine L.bind (L.bindParams_agree rel₂ hid.1 hparams
      fun v hv => L.value_mono grows₂.grow (hargs v hv)) fun _ s₃ t₃ rel₃ grows₃ _ => ?_
    have hdepth₃ : s₃.depth < c.maxCallDepth := by
      rwa [(L.grows_trans grows₂ grows₃).depth]
    have hid₃ : C.home s₃.store id := L.home_mono grows₃.grow hid.1
    exact L.asCall_agree rel₃ (L.body_agree hev (L.call rel₃ hdepth₃) hid₃ hcode
      (L.call_enter rel₃ hdepth₃ hcode))

theorem call_agree {f : Value} {args : List Value} (rel : C.rel s t)
    (hf : C.value s.store f) (hargs : ∀ v ∈ args, C.value s.store v) :
    C.Agree l C.value (fun n => Eval.call c (ev₁ n) f args)
      (fun n => Eval.call d (ev₂ n) f args) s t := by
  have refused : C.Agree l C.value
      (fun _ => Eval.ask fun s => .error (.notCallable (s.store.describe f)))
      (fun _ => Eval.ask fun s => .error (.notCallable (s.store.describe f))) s t := by
    refine L.ask rel (by rw [(L.alike rel).describe]) (by intro a h; cases h) ?_
    intro e h k hk
    subst hk
    cases h
  cases f with
  | native f => exact L.callNative_agree rel hargs
  | closure f => exact L.callClosure_agree hev rel hf hargs
  | _ => exact refused

/-! ## Declarations -/

theorem declareClass_agree {name : String} {parent e : Expr} (rel : C.rel s t)
    (henv : C.home s.store env) (hname : C.name name) (hcode : C.code parent ∧ C.code e)
    (henter : C.enter s parent ∧ C.enter s e)
    (hallow : C.Allows l ev₂ env t (.classDecl name parent e)) :
    C.Agree l C.value (fun n => Eval.declareClass (ev₁ n) env name parent e)
      (fun n => Eval.declareClass (ev₂ n) env name parent e) s t := by
  refine L.bindAfter (hev parent env s t rel (.inl henv) hcode.1 henter.1)
    fun v s₁ t₁ rel₁ grows₁ hv evaluated => ?_
  refine L.bindAfter (L.classParent_agree rel₁ (L.home_mono grows₁.grow henv) hv)
    fun outer s₂ t₂ rel₂ grows₂ houter expected => ?_
  have grows₂ := L.grows_trans grows₁ grows₂
  have opens : C.opens t₂.store outer (.ofClass name) := by
    refine hallow.opens ?_
    filter_upwards [evaluated, expected] with n evaluated expected
    obtain ⟨rfl, ⟨rfl, rfl⟩ | ⟨rfl, isClass⟩⟩ := Eval.classParent_eq_value expected
    · exact .baseClass evaluated
    · exact .subclass evaluated isClass
  refine L.bind (L.openScope_agree rel₂ houter opens) fun id s₃ t₃ rel₃ grows₃ hid => ?_
  have grows₃ := L.grows_trans grows₂ grows₃
  refine L.bind (L.body_agree hev rel₃ hid.1 hcode.2 (L.enter_mono grows₃ henter.2))
    fun _ s₄ t₄ rel₄ grows₄ _ => ?_
  exact L.define_agree rel₄ (L.home_mono (L.grows_trans grows₃ grows₄).grow henv) hname
    (L.value_mono grows₄.grow (hid.2 trivial))

theorem declareModule_agree {name : String} {e : Expr} (rel : C.rel s t)
    (henv : C.home s.store env) (hname : C.name name) (hcode : C.code e)
    (henter : C.enter s e) (hallow : C.Allows l ev₂ env t (.moduleDecl name e)) :
    C.Agree l C.value (fun n => Eval.declareModule (ev₁ n) env name e)
      (fun n => Eval.declareModule (ev₂ n) env name e) s t := by
  have opens : C.opens t.store env (.ofModule name) := hallow.opens (.of_forall fun _ => .ofModule)
  refine L.bind (L.openScope_agree rel (L.home_scope henv) opens)
    fun id s₁ t₁ rel₁ grows₁ hid => ?_
  refine L.bind (L.body_agree hev rel₁ hid.1 hcode (L.enter_mono grows₁ henter))
    fun _ s₂ t₂ rel₂ grows₂ _ => ?_
  exact L.define_agree rel₂ (L.home_mono (L.grows_trans grows₁ grows₂).grow henv) hname
    (L.value_mono grows₂.grow (hid.2 trivial))

theorem instantiate_agree {k : Expr} {args : List Expr} (rel : C.rel s t)
    (henv : C.home s.store env) (hcode : C.code k ∧ ∀ a ∈ args, C.code a)
    (henter : C.enter s k ∧ ∀ a ∈ args, C.enter s a)
    (hallow : C.Allows l ev₂ env t (.create k args)) :
    C.Agree l C.value (fun n => Eval.instantiate c (ev₁ n) env k args)
      (fun n => Eval.instantiate d (ev₂ n) env k args) s t := by
  refine L.bindAfter (hev k env s t rel (.inl henv) hcode.1 henter.1)
    fun v s₁ t₁ rel₁ grows₁ hv evaluated => ?_
  refine L.bindAfter (L.expectClass_agree rel₁ hv)
    fun id s₂ t₂ rel₂ grows₂ hid expected => ?_
  have grows₂ := L.grows_trans grows₁ grows₂
  have opens : C.opens t₂.store id .ofInstance := by
    refine hallow.opens ?_
    filter_upwards [evaluated, expected] with n evaluated expected
    obtain ⟨rfl, rfl, isClass⟩ := Eval.expectClass_eq_value expected
    exact .ofInstance evaluated isClass
  refine L.bind (L.openScope_agree rel₂ (L.home_scope (L.object hid.1)) opens)
    fun self s₃ t₃ rel₃ grows₃ hself => ?_
  have grows₃' := L.grows_trans grows₂ grows₃
  refine L.bind (L.arguments_agree hev rel₃ (L.home_mono grows₃'.grow henv) ?_ hcode.2
    fun a ha => L.enter_mono grows₃' (henter.2 a ha)) fun values s₄ t₄ rel₄ grows₄ hvalues => ?_
  · simpa using hself.2 trivial
  have hid₄ := L.home_scope (L.object (L.value_mono (L.grows_trans grows₃ grows₄).grow hid.1))
  have hself₄ := L.value_mono grows₄.grow (hself.2 trivial)
  refine L.bind (V := fun st constructor? => ∀ v ∈ constructor?, C.value st v)
    (L.ask rel₄ (by rw [L.lookup rel₄ hid₄ L.constructorName]) ?_ (by intro e h; cases h))
    fun constructor? s₅ t₅ rel₅ grows₅ hconstructor => ?_
  · intro found h v hv
    cases h
    exact L.found rel₄ hid₄ L.constructorName hv
  have hself₅ := L.value_mono grows₅.grow hself₄
  cases constructor? with
  | some constructor =>
    refine L.bind (L.call_agree hev rel₅ (hconstructor _ rfl)
      fun v hv => L.value_mono grows₅.grow (hvalues v hv)) fun _ s₆ t₆ rel₆ grows₆ _ => ?_
    exact L.pure rel₆ (L.value_mono grows₆.grow hself₅)
  | none =>
    dsimp only
    split
    · exact L.pure rel₅ hself₅
    · exact L.fail rel₅ (by intro k hk; cases hk)

/-! ## Imports -/

omit hev in
/-- Where the left import may start, so may the right one. -/
theorem importRefused (name : String) (rel : C.rel s t) :
    Eval.importRefused? c name s = none ∧ Eval.importRefused? d name t = none ∨
      ∃ e, Eval.importRefused? c name s = some e ∧
        (Eval.importRefused? d name t = some e ∧ C.fails (some e) ∨ C.ahead (some e)) := by
  have same : t.importing = s.importing := (L.alike rel).importing.symm
  have le := L.limit_le
  simp only [Eval.importRefused?, same]
  by_cases hmem : s.importing.contains name = true
  · simp only [if_pos hmem]
    exact .inr ⟨_, rfl, .inl ⟨rfl, L.error (by intro k hk; cases hk)⟩⟩
  simp only [if_neg hmem]
  by_cases h : c.maxCallDepth ≤ s.importing.length
  · refine .inr ⟨.stackExhausted s.importing.length, if_pos h, ?_⟩
    exact (L.limit rel (.inr rfl) h).imp_left fun ⟨h', fails⟩ => ⟨if_pos h', fails⟩
  · exact .inl ⟨if_neg h, if_neg (by omega)⟩

omit hev in
/-- The text of a module is read and evaluated while its import is running. -/
theorem evalModule_agree (hload : C.LoadAgree c l ev₁ ev₂) {name : String} (rel : C.rel s t)
    (hname : C.name name) (himports : C.imports name) (hcached : Eval.cached? c name s = none)
    (hfree : Eval.importRefused? c name s = none) :
    C.Agree l (C.Imported name)
      (fun n => Eval.evalModule c (ev₁ n) name) (fun n => Eval.evalModule d (ev₂ n) name)
      (s.pushImport name) (t.pushImport name) := by
  have rel' := L.load rel hname hcached hfree
  refine L.bind (V := fun _ e => Eval.moduleForm c name = .ok e)
    (L.ask rel' (L.moduleForm hname) (fun e he => he) ?_) fun e s' t' rel'' grows he => ?_
  · intro e he k hk
    subst hk
    unfold Eval.moduleForm at he
    split at he
    · split at he <;> cases he
    · next failed =>
      obtain ⟨failure, -, rfl⟩ := ModuleSource.load_eq_error.1 failed
      cases failure <;> cases he
  · exact hload name e s' t' rel'' hname himports he
      (L.enter_mono grows (L.load_enter rel hfree he))

omit hev in
/-- What agrees with one more import running agrees as an import, and so does
the keeping of the module. -/
theorem keepImport_agree {name : String} {x y : Nat → Eval Value} (rel : C.rel s t)
    (hname : C.name name) (hcached : Eval.cached? c name s = none)
    (hfree : Eval.importRefused? c name s = none)
    (h : C.Agree l (C.Imported name) x y (s.pushImport name) (t.pushImport name)) :
    C.Agree l (C.Imported name) (fun n => do Eval.keepModule c name (← Eval.asImport name (x n)))
      (fun n => do Eval.keepModule d name (← Eval.asImport name (y n))) s t := by
  have back : ∀ {s' t'}, C.rel s' t' → C.Grows (s.pushImport name) s' →
      C.rel s'.popImport t'.popImport ∧ C.Grows s s'.popImport := by
    intro s' t' rel' grows
    obtain ⟨rel'', grow⟩ := L.load_back rel rel' grows
    refine ⟨rel'', grows.depth, ?_, grow⟩
    simp only [State.popImport, grows.importing, State.pushImport, List.tail_cons]
  have leave : ∀ {m : Settings} {z : Nat → Eval Value} {u r u'},
      (∀ᶠ n in l, z n (u.pushImport name) = (r, u')) →
      ∀ᶠ n in l, (do Eval.keepModule m name (← Eval.asImport name (z n)) : Eval Value) u =
        Eval.andThen (fun _ => (r, u'.popImport)) (Eval.keepModule m name) u := by
    intro m z u r u' hz
    filter_upwards [hz] with n hz
    simp only [State.pushImport] at hz
    simp only [Bind.bind, Eval.andThen, Eval.asImport, hz, State.popImport]
  have leaveStopped : ∀ {m : Settings} {z : Nat → Eval Value} {u f u'},
      (∀ᶠ n in l, z n (u.pushImport name) = (.stopped f, u')) →
      ∀ᶠ n in l, (do Eval.keepModule m name (← Eval.asImport name (z n)) : Eval Value) u =
        (.stopped f, u'.popImport) := by
    intro m z u f u' hz
    filter_upwards [leave hz] with n hn
    rw [hn]
    cases f <;> rfl
  cases h with
  | @value v s' t' left right rel' grows holds =>
    obtain ⟨rel'', grows'⟩ := back rel' grows
    by_cases hkeep : ∃ id, c.memoize = true ∧ v = .scope id
    · obtain ⟨id, hmemo, rfl⟩ := hkeep
      obtain ⟨rel₂, grow₂⟩ := L.keep rel hname hmemo hcached hfree rel' grows holds.1
        (holds.2 id rfl)
      have hmemo' : d.memoize = true := L.memoize ▸ hmemo
      refine .value (a := .scope id) ?_ ?_ rel₂ ⟨grows'.depth, grows'.importing, grow₂⟩ holds
      · filter_upwards [leave left] with n hn
        rw [hn]
        simp only [Eval.andThen, Eval.keepModule, Eval.update, hmemo, State.keep]
      · filter_upwards [leave right] with n hn
        rw [hn]
        simp only [Eval.andThen, Eval.keepModule, Eval.update, hmemo', State.keep]
    · have stay : ∀ (m : Settings) (u : State), m.memoize = c.memoize →
          Eval.keepModule m name v u = (.value v, u) := by
        intro m u hm
        unfold Eval.keepModule Eval.update
        dsimp only
        split
        · rename_i hmemo
          exact absurd ⟨_, hm.symm.trans hmemo, rfl⟩ hkeep
        · rfl
      refine .value (a := v) ?_ ?_ rel'' grows' holds
      · filter_upwards [leave left] with n hn
        rw [hn]
        exact stay c s'.popImport rfl
      · filter_upwards [leave right] with n hn
        rw [hn]
        exact stay d t'.popImport L.memoize.symm
  | stopped left right rel' grows fails =>
    obtain ⟨rel'', grows'⟩ := back rel' grows
    exact .stopped (leaveStopped left) (leaveStopped right) rel'' grows' fails
  | ahead left ahead => exact .ahead (leaveStopped left) ahead

omit hev in
theorem importModule_agree (hload : C.LoadAgree c l ev₁ ev₂) {name : String} (rel : C.rel s t)
    (hname : C.name name) (himports : C.imports name) :
    C.Agree l (C.Imported name) (fun n => Eval.importModule c (ev₁ n) name)
      (fun n => Eval.importModule d (ev₂ n) name) s t := by
  have same : Eval.cached? d name t = Eval.cached? c name s := by
    rw [Eval.cached?, Eval.cached?, L.memoize, (L.alike rel).cache]
  cases hcached : Eval.cached? c name s with
  | some id =>
    obtain ⟨known, loaded⟩ : C.value s.store (.scope id) ∧ C.loaded s.store name id := by
      unfold Eval.cached? at hcached
      split at hcached
      · exact L.cached rel hcached
      · cases hcached
    refine L.agree_after (L.grows_refl s) (L.bindModule_agree rel hname himports known loaded)
      (.of_forall fun _ => ?_) (.of_forall fun _ => ?_)
    · rw [Eval.importModule_eq, hcached]
    · rw [Eval.importModule_eq, same, hcached]
  | none =>
    rcases L.importRefused name rel with ⟨hc, hd⟩ | ⟨e, hc, ⟨hd, fails⟩ | ahead⟩
    · refine L.agree_after (L.grows_refl s) (L.keepImport_agree rel hname hcached hc
        (L.evalModule_agree hload rel hname himports hcached hc)) (.of_forall fun _ => ?_)
        (.of_forall fun _ => ?_)
      · rw [Eval.importModule_eq, hcached, hc]
      · rw [Eval.importModule_eq, same, hcached, hd]
    · refine .stopped (f := some e) (.of_forall fun _ => ?_) (.of_forall fun _ => ?_) rel
        (L.grows_refl s) fails
      · rw [Eval.importModule_eq, hcached, hc]
        rfl
      · rw [Eval.importModule_eq, same, hcached, hd]
        rfl
    · have left : ∀ n, Eval.importModule c (ev₁ n) name s = (.stopped (some e), s) := by
        intro n
        rw [Eval.importModule_eq, hcached, hc]
        rfl
      exact .ahead (.of_forall left) ahead

/-! ## Forms -/

omit hev in
/-- The loops of the two runs have as many rounds as they need. -/
def Rounds (C : Comparison) (l : Filter Nat) (r₁ r₂ : Nat → Nat) : Prop :=
  ∃ k₁ k₂, (∀ᶠ n in l, r₁ n = k₁) ∧ (∀ᶠ n in l, r₂ n = k₂) ∧
    (C.fails none ∧ k₁ = k₂ ∨ C.ahead none ∧ k₁ ≤ k₂)

omit L hev in
theorem rounds_pure {r₁ r₂ : Nat → Nat} {n : Nat}
    (h : C.fails none ∧ r₁ n = r₂ n ∨ C.ahead none ∧ r₁ n ≤ r₂ n) :
    Rounds C (Pure.pure n) r₁ r₂ :=
  ⟨r₁ n, r₂ n, rfl, rfl, h⟩

theorem form_agree (hload : C.LoadAgree c l ev₁ ev₂) {r₁ r₂ : Nat → Nat} {e : Expr} {f : Form}
    (rel : C.rel s t) (henv : C.home s.store env) (hcode : C.code e)
    (hf : Form.classify e = .ok f)
    (hloop : ∀ condition e, f = .loop condition e → Rounds C l r₁ r₂)
    (henter : f.Parts (C.enter s) (fun _ => True) (fun _ => True))
    (hallow : C.Allows l ev₂ env t f) :
    C.Agree l C.value (fun n => Eval.form c (r₁ n) (ev₁ n) env f)
      (fun n => Eval.form d (r₂ n) (ev₂ n) env f) s t := by
  have hparts := L.parts hcode hf
  cases f with
  | number value => exact L.pure rel (L.plain trivial)
  | str value => exact L.pure rel (L.plain trivial)
  | symbol name => exact L.lookup_agree rel (L.home_scope henv) hparts
  | block es => exact L.block_agree hev rel (L.home_scope henv) hparts henter r₁ r₂
  | declare name e =>
    refine L.bind (hev e env s t rel (.inl henv) hparts.2 henter.2) fun v s' t' rel' grows hv => ?_
    exact L.define_agree rel' (L.home_mono grows.grow henv) hparts.1 hv
  | assign target e =>
    cases target with
    | «variable» name =>
      refine L.bind (hev e env s t rel (.inl henv) hparts.2 henter.2)
        fun v s' t' rel' grows hv => ?_
      exact L.assign_agree rel' (L.home_scope (L.home_mono grows.grow henv)) hparts.1 hv
    | property o name =>
      refine L.bind (L.object_agree hev rel henv hparts.1 henter.1)
        fun id s₁ t₁ rel₁ grows₁ hid => ?_
      refine L.bind (hev e env s₁ t₁ rel₁ (.inl (L.home_mono grows₁.grow henv)) hparts.2.2
        (L.enter_mono grows₁ henter.2.2)) fun v s₂ t₂ rel₂ grows₂ hv => ?_
      exact L.define_agree rel₂ (L.object (L.value_mono grows₂.grow hid)) hparts.2.1 hv
  | branch condition consequent alternate =>
    refine L.bind (hev condition env s t rel (.inl henv) hparts.1 henter.1)
      fun v s' t' rel' grows hv => ?_
    have henv' := L.home_mono grows.grow henv
    split
    · exact hev _ _ s' t' rel' (.inl henv') hparts.2.1 (L.enter_mono grows henter.2.1)
    · exact hev _ _ s' t' rel' (.inl henv') hparts.2.2 (L.enter_mono grows henter.2.2)
  | loop condition e =>
    obtain ⟨k₁, k₂, h₁, h₂, hk⟩ := hloop condition e rfl
    refine Agree.congr ?_ ?_ (L.loop_agree hev hk rel henv (L.plain (v := .undefined) trivial)
      hparts henter)
    · filter_upwards [h₁] with n hn
      rw [Eval.form, hn]
    · filter_upwards [h₂] with n hn
      rw [Eval.form, hn]
  | sugar sugar => exact hev _ _ s t rel (.inl henv) hparts henter
  | lambda params e =>
    refine L.bind (L.freshSerial_agree rel) fun serial s' t' rel' grows _ => ?_
    exact L.pure rel' (L.closure.2
      ⟨L.home_scope (L.home_mono grows.grow henv), hparts.2, hparts.1⟩)
  | classDecl name parent e =>
    exact L.declareClass_agree hev rel henv hparts.1 hparts.2 henter.2 hallow
  | superclass name =>
    refine L.bind (L.lookup_agree rel (L.home_scope henv) hparts)
      fun v s₁ t₁ rel₁ grows₁ hv => ?_
    refine L.bind (L.expectClass_agree rel₁ hv) fun id s₂ t₂ rel₂ grows₂ hid => ?_
    refine L.ask rel₂ (by rw [(L.alike rel₂).parent]) ?_ (by intro e h; cases h)
    intro v h
    cases h
    cases hp : s₂.store.parent? id with
    | none => exact L.plain trivial
    | some p => exact L.superclass hcode hf rel₂ hid.1 hid.2 hp
  | create k args => exact L.instantiate_agree hev rel henv hparts henter hallow
  | property o name =>
    refine L.bind (L.object_agree hev rel henv hparts.1 henter.1)
      fun id s' t' rel' grows hid => ?_
    exact L.lookup_agree rel' (L.home_scope (L.object hid)) hparts.2
  | moduleDecl name e =>
    exact L.declareModule_agree hev rel henv hparts.1 hparts.2 henter.2 hallow
  | importDecl name =>
    exact (L.importModule_agree hload rel hparts (hallow.imports rfl)).mono fun _ _ h => h.1
  | apply f args =>
    refine L.bind (hev f env s t rel (.inl henv) hparts.1 henter.1) fun v s₁ t₁ rel₁ grows₁ hv => ?_
    refine L.bind (L.arguments_agree hev rel₁ (L.home_mono grows₁.grow henv) (by simp) hparts.2
      fun a ha => L.enter_mono grows₁ (henter.2 a ha)) fun vs s₂ t₂ rel₂ grows₂ hvs => ?_
    exact L.call_agree hev rel₂ (L.value_mono grows₂.grow hv) hvs

/-! ## Expressions -/

/-- One level of nesting: where nested evaluations agree, evaluation does. -/
theorem step (hload : C.LoadAgree c l ev₁ ev₂) {r₁ r₂ : Nat → Nat} {e : Expr} (rel : C.rel s t)
    (henv : C.Hosts s.store env e) (hcode : C.code e)
    (hloop : ∀ condition body, Form.classify e = .ok (.loop condition body) → Rounds C l r₁ r₂)
    (henter : ∀ f, Form.classify e = .ok f → f.Parts (C.enter s) (fun _ => True) (fun _ => True))
    (hallow : ∀ f, Form.classify e = .ok f → C.Allows l ev₂ env t f) :
    C.Agree l C.value (fun n => Eval.step c (r₁ n) (ev₁ n) e env)
      (fun n => Eval.step d (r₂ n) (ev₂ n) e env) s t := by
  unfold Eval.step
  cases h : Form.classify e with
  | ok f =>
    rcases henv with henv | ⟨henv, es, hes⟩
    · refine L.form_agree hev hload rel henv hcode h ?_ (henter f h) (hallow f h)
      rintro condition body rfl
      exact hloop condition body h
    · obtain rfl : Form.block es = f := Except.ok.inj (hes.symm.trans h)
      exact L.block_agree hev rel henv (L.parts hcode h) (henter _ h) r₁ r₂
  | error e => exact L.fail rel (by intro k hk; cases e <;> cases hk)

/-- One level of nesting for the module declarations of imports. -/
theorem step_load {r₁ r₂ : Nat → Nat} {name : String} {e : Expr} (rel : C.rel s t)
    (hname : C.name name) (himports : C.imports name) (he : Eval.moduleForm c name = .ok e)
    (henter : ∀ f, Form.classify e = .ok f → f.Parts (C.enter s) (fun _ => True) (fun _ => True))
    (hallow : ∀ f, Form.classify e = .ok f → C.Allows l ev₂ State.globalId t f) :
    C.Agree l (C.Imported name) (fun n => Eval.step c (r₁ n) (ev₁ n) e State.globalId)
      (fun n => Eval.step d (r₂ n) (ev₂ n) e State.globalId) s t := by
  obtain ⟨-, program, -, -, rfl⟩ := Eval.moduleForm_eq_ok he
  have hf : Form.classify (.form Keyword.moduleDecl.name [.symbol name, program]) =
      .ok (.moduleDecl name program) := rfl
  have hparts := L.parts (L.moduleCode hname he) hf
  have opens : C.opens t.store State.globalId (.ofModule name) :=
    (hallow _ hf).opens (.of_forall fun _ => .ofModule)
  refine L.bind (L.openModule_agree rel opens) fun id s₁ t₁ rel₁ grows₁ ⟨hid, hv, hl⟩ => ?_
  refine L.bind (L.body_agree hev rel₁ hid hparts.2 (L.enter_mono grows₁ (henter _ hf).2))
    fun _ s₂ t₂ rel₂ grows₂ _ => ?_
  exact L.bindModule_agree rel₂ hname himports (L.value_mono grows₂.grow hv)
    (L.loaded_mono grows₂.grow hl)

/-- Where the global scope is a home of expressions and nothing is asked of
loaded modules, imports evaluate module declarations as any other. -/
theorem load_agree (home : ∀ {s t}, C.rel s t → C.home s.store State.globalId)
    (loaded : ∀ st name id, C.loaded st name id) : C.LoadAgree c l ev₁ ev₂ := by
  intro name e s t rel hname _ he henter
  exact (hev e _ s t rel (.inl (home rel)) (L.moduleCode hname he) henter).mono
    fun _ _ hv => ⟨hv, fun _ _ => loaded _ _ _⟩

omit hev in
/-- Evaluation with some amount of fuel on the left and `k` more on the right,
when the comparison lets every form be evaluated. -/
theorem evaluate {k : Nat} (hfuel : C.fails none ∧ k = 0 ∨ C.ahead none) (free : C.Free)
    (n : Nat) : C.EvalAgree (Pure.pure n) (Eval.evaluate c) (fun n => Eval.evaluate d (n + k)) := by
  suffices h : C.EvalAgree (Pure.pure n) (Eval.evaluate c) (fun n => Eval.evaluate d (n + k)) ∧
      C.LoadAgree c (Pure.pure n) (Eval.evaluate c) (fun n => Eval.evaluate d (n + k)) from h.1
  have fuel : ∀ n, Eval.evaluate d (n + 1 + k) = Eval.evaluate d (n + k + 1) := by
    intro n
    rw [Nat.add_right_comm]
  induction n with
  | zero =>
    have starved : ∀ {V : Store → Value → Prop} {e env s t}, C.rel s t →
        C.Agree (Pure.pure 0) V (fun n => Eval.evaluate c n e env)
          (fun n => Eval.evaluate d (n + k) e env) s t := by
      intro V e env s t rel
      rcases hfuel with ⟨fails, rfl⟩ | ahead
      · exact .stopped (f := none) rfl rfl rel (L.grows_refl s) fails
      · exact .ahead (f := none) rfl ahead
    exact ⟨fun _ _ _ _ rel _ _ _ => starved rel, fun _ _ _ _ rel _ _ _ _ => starved rel⟩
  | succ n ih =>
    have rounds : Rounds C (Pure.pure n) (fun n => n) (fun n => n + k) := rounds_pure <|
      hfuel.imp (fun h => ⟨h.1, by simp [h.2]⟩) fun ahead => ⟨ahead, Nat.le_add_right n k⟩
    constructor
    · intro e env s t rel henv hcode _
      rw [agree_pure_succ]
      simp only [fuel]
      exact L.step ih.1 ih.2 rel henv hcode (fun _ _ _ => rounds)
        (fun f _ => f.parts_of_forall (free.enter s)) fun f _ => free.allows _ _ _ _ f
    · intro name e s t rel hname himports he _
      rw [agree_pure_succ]
      simp only [fuel]
      exact L.step_load ih.1 rel hname himports he
        (fun f _ => f.parts_of_forall (free.enter s)) fun f _ => free.allows _ _ _ _ f

end Lawful

end Comparison

end ScopeLisp
