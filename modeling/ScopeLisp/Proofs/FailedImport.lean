/-
ScopeLisp.Proofs.FailedImport — a failed import leaves nothing half-done.

An import that is not served by a module that is kept can fail at two points. Before the
body of the module runs it is barred (`Eval.Barred`): then the state is as before. Or
the body fails (`Eval.BodyFails`): then the import is over, and all that there is to see
of it is what the body has done (`Eval.ImportAbandoned`). The module is neither bound nor
kept, so that the next import of it runs the body again; what the body has imported
itself stays kept. `Eval.failed_import` says this of every import that is evaluated in
the course of a request.

That the module is not kept is a matter of order: it is being imported until the body
ends, and what is being imported is not kept (`State.Orderly`).
-/
import ScopeLisp.Proofs.History
import ScopeLisp.Proofs.ImportGraph
import ScopeLisp.Proofs.ImportOnce

namespace ScopeLisp

/-! ## Evaluations in the course of a request -/

/-- With these settings, some request to a reachable interpreter comes to evaluate the
expression in this scope and from this state. -/
def Interp.Underway (c : Settings) (e : Expr) (env : ScopeId) (s : State) : Prop :=
  ∃ (i : Interp) (fuel : Nat) (q : Request), i.Reachable ∧ q.Known i.state.store ∧
    i.settings = c ∧ i.Meets fuel q fun e' env' s' => e' = e ∧ env' = env ∧ s' = s

/-- Where only states that are not in order are diverted, nothing is. -/
theorem divert_agree_of_orderly {c : Settings} {P : Expr → ScopeId → State → Prop}
    (disorder : ∀ {e env s}, P e env s → ¬ s.Orderly c) (alarm : Eval Value) (n : Nat) :
    (orderly c).EvalAgree (Pure.pure n) (Eval.through c (Eval.divert P alarm))
      (Eval.evaluate c) := by
  have L := orderly_lawful c
  refine (L.through_agree (Eval.divert P alarm) (fun k hk => nomatch hk) (fun _ _ => trivial)
    ?_ n).1
  rintro n e env s _ V ⟨rfl, ordered⟩ - - agree
  refine L.agree_after (L.grows_refl s)
    (agree fun f _ => (Comparison.control_free ..).allows _ _ _ _ f)
    (Filter.eventually_pure.2 ?_) (Filter.eventually_pure.2 rfl)
  rw [Eval.divert, if_neg fun hP => disorder hP ordered]

namespace Interp.Underway

variable {c : Settings} {e : Expr} {env : ScopeId} {s : State}

/-- A request to evaluate an expression comes to its evaluation. -/
theorem of_request {i : Interp} (h : i.Reachable) (known : env < i.state.store.size) :
    Interp.Underway i.settings e env i.state := by
  refine ⟨i, 1, .eval e env, h, known, rfl, fun error => ?_⟩
  rw [answerWith_ok rfl, Eval.through, Eval.divert, if_pos ⟨rfl, rfl, rfl⟩]
  rfl

/-- Such an evaluation starts from a state in order. -/
theorem orderly (h : Interp.Underway c e env s) : s.Orderly c := by
  obtain ⟨i, fuel, q, reachable, -, rfl, meets⟩ := h
  by_contra disorder
  have unnoticed : ∀ alarm, i.answerWith (Eval.through i.settings (Eval.divert
      (fun e' env' s' => e' = e ∧ env' = env ∧ s' = s) alarm) fuel) q = i.answer fuel q :=
    fun alarm => answerWith_eq_of_agree (orderly_lawful i.settings)
      (divert_agree_of_orderly (fun ⟨_, _, same⟩ => same ▸ disorder) alarm fuel)
      reachable.orderly.1 q
  -- The request cannot fail with two errors.
  have first := meets (.unbound "a")
  have second := meets (.unbound "b")
  rw [unnoticed] at first second
  rw [first] at second
  simp at second

end Interp.Underway

namespace Eval

variable {c : Settings} {name : String} {s t : State}

/-! ## Imports that do not start -/

/-- Why the body of a module does not start. The reasons are looked for in this order. -/
inductive Barred (c : Settings) (name : String) (s : State) : RuntimeError → Prop
  /-- The module is being imported already. -/
  | circular (running : name ∈ s.importing) :
    Barred c name s (.circularImport (name :: s.importing).reverse)
  /-- Too many imports are running. -/
  | tooDeep (free : name ∉ s.importing) (full : c.maxCallDepth ≤ s.importing.length) :
    Barred c name s (.stackExhausted s.importing.length)
  /-- There is no such module. -/
  | notFound (free : importRefused? c name s = none) (absent : c.modules name = .error .notFound) :
    Barred c name s (.moduleNotFound name)
  /-- It is there, but has no text. -/
  | unreadable {reason : String} (free : importRefused? c name s = none)
    (bad : c.modules name = .error (.unreadable reason)) :
    Barred c name s (.moduleUnreadable name reason)
  /-- Its text is not a program. -/
  | unread {text : String} {error : SyntaxError} (free : importRefused? c name s = none)
    (found : c.modules name = .ok text) (bad : Expr.ofProgram text = .error error) :
    Barred c name s (.moduleSyntax name error)

/-- A barred import does nothing at all. -/
theorem evaluate_barred {e : Expr} {error : RuntimeError}
    (he : Form.classify e = .ok (.importDecl name)) (unkept : cached? c name s = none)
    (barred : Barred c name s error) (fuel : Nat) (env : ScopeId) :
    evaluate c (fuel + 1) e env s = (.error error, s) := by
  have refused : importRefused? c name s = some error →
      importModule c (evaluate c fuel) name s = (.error error, s) := by
    intro refused
    rw [importModule_eq, unkept, refused]
  -- The text is looked for while the import is running already.
  have unloaded : importRefused? c name s = none → moduleForm c name = .error error →
      importModule c (evaluate c fuel) name s = (.error error, s) := by
    intro free form
    have stopped : evalModule c (evaluate c fuel) name (s.pushImport name) =
        (.error error, s.pushImport name) := by
      rw [evalModule, ask_bind, form]
    rw [importModule_eq, unkept, free]
    simp only [Bind.bind, andThen, asImport_eq, stopped]
    rfl
  have textless {failure : LoadFailure} (h : c.modules name = .error failure) :
      moduleForm c name = .error (failure.error name) := by
    simp only [moduleForm, ModuleSource.load_eq_error.2 ⟨_, h, rfl⟩]
  rw [evaluate_importDecl he]
  cases barred with
  | circular running => exact refused (if_pos (List.contains_iff_mem.2 running))
  | tooDeep free full =>
    exact refused (by rw [importRefused?, if_neg (by simpa using free), if_pos full])
  | notFound free absent => exact unloaded free (textless absent)
  | unreadable free bad => exact unloaded free (textless bad)
  | unread free found bad =>
    exact unloaded free (by simp only [moduleForm, ModuleSource.load_eq_ok.2 found, bad])

/-- Either the import of a module is barred, or there is a body to be run. -/
theorem barred_or_starts (c : Settings) (name : String) (s : State) :
    (∃ error, Barred c name s error) ∨ importRefused? c name s = none ∧
      ∃ text program, c.modules name = .ok text ∧ Expr.ofProgram text = .ok program := by
  by_cases running : name ∈ s.importing
  · exact .inl ⟨_, .circular running⟩
  by_cases full : c.maxCallDepth ≤ s.importing.length
  · exact .inl ⟨_, .tooDeep running full⟩
  have free : importRefused? c name s = none := by
    rw [importRefused?, if_neg (by simpa using running), if_neg full]
  cases found : c.modules name with
  | error failure =>
    cases failure with
    | notFound => exact .inl ⟨_, .notFound free found⟩
    | unreadable reason => exact .inl ⟨_, .unreadable free found⟩
  | ok text =>
    cases read : Expr.ofProgram text with
    | error error => exact .inl ⟨_, .unread free found read⟩
    | ok program => exact .inr ⟨free, text, program, rfl, read⟩

/-! ## Imports whose body fails -/

/-- The import of a module that is not kept starts; but the body of the module fails, and
leaves the state `t`. -/
structure BodyFails (c : Settings) (fuel : Nat) (name : String) (program : Expr) (s : State)
    (error : RuntimeError) (t : State) : Prop where
  unkept : cached? c name s = none
  free : importRefused? c name s = none
  reads : ∃ text, c.modules name = .ok text ∧ Expr.ofProgram text = .ok program
  fails : body (evaluate c fuel) s.store.size program (s.startModule name) = (.error error, t)

/-- Notes when an import of the module gives the scope `id`, and changes nothing else. -/
def noting (name : String) (id : ScopeId) (e : Expr) (_env : ScopeId) (x : Eval Value) :
    Eval Value :=
  if e.imported? = some name then noteImport id x else x

/-- What is left by an import from `s` when the body of the module has failed and left `t`. -/
structure ImportAbandoned (c : Settings) (fuel : Nat) (name : String) (program : Expr) (s : State)
    (error : RuntimeError) (t s' : State) : Prop where
  /-- Only the import is over. Whatever else there is, the global scope among it, is as the
  body has left it. -/
  same : s' = { t with importing := s.importing }
  depth : s'.depth = s.depth
  unkept : s'.cache.get? name = none
  /-- Wherever it may start, the next import runs the body again; and it may start there. -/
  retries : importRefused? c name s' = none ∧
    ∀ later : State, later.cache.get? name = none → importRefused? c name later = none →
      ∀ e, Form.classify e = .ok (.importDecl name) → ∀ n env,
        evaluate c (n + 2) e env later = load c (evaluate c n) name program later
  /-- What was kept before is kept with the same scope, and so is every module of which the
  body could import a scope. -/
  keeps : (∀ n id, s.cache.get? n = some id → s'.cache.get? n = some id) ∧
    (c.memoize = true → ∀ n id, ∃ noted,
      body (through c (noting n id) fuel) s.store.size program
          ((s.startModule name).after (noteLine false)) = (.error error, t.after (noteLine noted)) ∧
        (noted = true → s'.cache.get? n = some id))

end Eval

theorem noting_agree {c : Settings} (memo : c.memoize = true) (name : String) (id : ScopeId)
    (n : Nat) :
    (importNoted c name id).EvalAgree (Pure.pure n) (Eval.through c (Eval.noting name id))
      (Eval.evaluate c) := by
  have L : (importNoted c name id).Lawful c c := (importNoted_laws c name id).annotated_lawful _
  refine (L.through_agree (Eval.noting name id) trivial (fun _ _ => trivial) ?_ n).1
  intro n e env s t V rel _ _ agree
  replace agree := agree fun _ _ => ⟨fun _ => trivial, fun _ => trivial⟩
  by_cases himport : e.imported? = some name
  · have notes : ∀ x, Eval.noting name id e env x = Eval.noteImport id x :=
      fun _ => if_pos himport
    exact noteImport_agree memo himport (congrFun (notes _) s) agree
  · have passes : ∀ x, Eval.noting name id e env x = x := fun _ => if_neg himport
    exact L.agree_after (L.grows_refl _) agree (.of_forall fun _ => congrFun (passes _) s)
      (.of_forall fun _ => rfl)

namespace Eval.BodyFails

variable {c : Settings} {fuel : Nat} {name : String} {program : Expr} {s t : State}
  {error : RuntimeError}

theorem start_orderly (h : BodyFails c fuel name program s error t) (ordered : s.Orderly c) :
    (s.startModule name).Orderly c :=
  (ordered.pushImport h.unkept h.free).frame rfl rfl rfl

/-- The body gives the counts back as it found them, and keeps what was kept. -/
theorem keeps (h : BodyFails c fuel name program s error t) (ordered : s.Orderly c) :
    t.Keeps c s.cache ∧ t.depth = s.depth ∧ t.importing = name :: s.importing := by
  let C := Comparison.control (State.Keeps c s.cache) (fun _ => True) fun _ => False
  have L : C.Lawful c c := (keeps_laws c s.cache).lawful
  have start : (s.startModule name).Keeps c s.cache :=
    ⟨h.start_orderly ordered, fun _ _ kept => kept⟩
  have agree : C.Agree (Pure.pure fuel) C.value
      (fun n => body (evaluate c n) s.store.size program)
      (fun n => body (evaluate c n) s.store.size program) (s.startModule name)
      (s.startModule name) :=
    L.body_agree (L.evaluate (.inl ⟨trivial, rfl⟩) (Comparison.control_free ..) fuel)
      ⟨rfl, start⟩ trivial trivial trivial
  obtain ⟨⟨t', -, keeps⟩, grows, -, -⟩ := agree.left fun _ => id
  rw [h.fails] at keeps grows
  exact ⟨keeps, grows.depth, grows.importing⟩

/-- What a note says of the body. -/
theorem noted (h : BodyFails c fuel name program s error t) (ordered : s.Orderly c)
    (memo : c.memoize = true) (n : String) (id : ScopeId) :
    ∃ noted, body (through c (noting n id) fuel) s.store.size program
          ((s.startModule name).after (noteLine false)) = (.error error, t.after (noteLine noted)) ∧
        (noted = true → t.cache.get? n = some id) := by
  have L : (importNoted c n id).Lawful c c := (importNoted_laws c n id).annotated_lawful _
  have start : (importNoted c n id).rel ((s.startModule name).after (noteLine false))
      (s.startModule name) :=
    ⟨false, rfl, h.start_orderly ordered, fun no => absurd no Bool.false_ne_true⟩
  have agree : (importNoted c n id).Agree (Pure.pure fuel) (importNoted c n id).value
      (fun k => body (through c (noting n id) k) s.store.size program)
      (fun k => body (evaluate c k) s.store.size program)
      ((s.startModule name).after (noteLine false)) (s.startModule name) :=
    L.body_agree (noting_agree memo n id fuel) start trivial trivial trivial
  rcases agree.annotated_cases with ⟨noted, same, -, kept⟩ | ⟨_, never, -⟩
  · rw [h.fails] at same kept
    exact ⟨noted, same, kept⟩
  · exact never.elim

theorem abandoned (h : BodyFails c fuel name program s error t) (ordered : s.Orderly c) :
    ImportAbandoned c fuel name program s error t { t with importing := s.importing } := by
  obtain ⟨⟨ordered', kept⟩, depth, importing⟩ := h.keeps ordered
  obtain ⟨text, found, read⟩ := h.reads
  have running : name ∈ t.importing := importing ▸ List.mem_cons_self
  refine ⟨rfl, depth, ordered'.unkept name running, ⟨h.free, ?_⟩, kept, h.noted ordered⟩
  intro later unkept free e he n env
  refine evaluate_import he found read ?_ free n env
  rw [cached?]
  split
  · exact unkept
  · rfl

/-- The import fails as the body did. -/
theorem evaluate_eq (h : BodyFails c fuel name program s error t) (ordered : s.Orderly c)
    {e : Expr} (he : Form.classify e = .ok (.importDecl name)) (env : ScopeId) :
    evaluate c (fuel + 2) e env s = (.error error, { t with importing := s.importing }) := by
  obtain ⟨-, -, importing⟩ := h.keeps ordered
  obtain ⟨text, found, read⟩ := h.reads
  rw [evaluate_import he found read h.unkept h.free, load, h.fails]
  simp only [State.popImport, importing, List.tail_cons]

end Eval.BodyFails

namespace Eval

variable {c : Settings} {name : String} {s : State}

/-- A module that is kept can be imported. -/
theorem unkept_of_error {e : Expr} (he : Form.classify e = .ok (.importDecl name)) {fuel : Nat}
    {env : ScopeId} {error : RuntimeError} {s' : State}
    (failed : evaluate c (fuel + 1) e env s = (.error error, s')) : cached? c name s = none := by
  rw [evaluate_importDecl he, importModule_eq] at failed
  cases unkept : cached? c name s with
  | none => rfl
  | some id =>
    rw [unkept] at failed
    cases failed

/-- With one unit of fuel a body does not start. -/
theorem evaluate_import_one {e program : Expr} {text : String}
    (he : Form.classify e = .ok (.importDecl name)) (found : c.modules name = .ok text)
    (read : Expr.ofProgram text = .ok program) (unkept : cached? c name s = none)
    (free : importRefused? c name s = none) (env : ScopeId) :
    evaluate c 1 e env s = (.outOfFuel, s) := by
  have starved : evalModule c (evaluate c 0) name (s.pushImport name) =
      (.outOfFuel, s.pushImport name) := by
    rw [evalModule, ask_bind, moduleForm_of_reads found read]
    rfl
  rw [evaluate_importDecl he, importModule_eq, unkept, free]
  simp only [Bind.bind, andThen, asImport_eq, starved]
  rfl

/-- An import fails because it is barred or because the body fails. -/
theorem barred_or_bodyFails {e : Expr} (he : Form.classify e = .ok (.importDecl name))
    {fuel : Nat} {env : ScopeId} {error : RuntimeError} {s' : State}
    (failed : evaluate c (fuel + 1) e env s = (.error error, s')) :
    Barred c name s error ∨
      ∃ n program t, fuel = n + 1 ∧ BodyFails c n name program s error t := by
  have unkept := unkept_of_error he failed
  rcases barred_or_starts c name s with ⟨_, barred⟩ | ⟨free, text, program, found, read⟩
  · rw [evaluate_barred he unkept barred] at failed
    cases failed
    exact .inl barred
  · cases fuel with
    | zero =>
      rw [evaluate_import_one he found read unkept free] at failed
      cases failed
    | succ n =>
      rw [evaluate_import he found read unkept free, load] at failed
      rcases ended : body (evaluate c n) s.store.size program (s.startModule name) with
        ⟨_ | _ | _, t⟩ <;> rw [ended] at failed <;> cases failed
      exact .inr ⟨n, program, t, rfl, unkept, free, ⟨text, found, read⟩, ended⟩

/-- **A failed import leaves nothing half-done.** For every import of a module that is
evaluated in the course of a request: a module that is being imported is not kept. If the
module is not kept and its import is barred, the import fails for that reason, and the
state is as it was. If the import starts and the body fails, the import fails in the same
way and is abandoned. And there is no other way for an import to fail. -/
theorem failed_import {e : Expr} {env : ScopeId} (underway : Interp.Underway c e env s)
    (he : Form.classify e = .ok (.importDecl name)) :
    (name ∈ s.importing → cached? c name s = none) ∧
      (∀ error, cached? c name s = none → Barred c name s error → ∀ fuel,
        evaluate c (fuel + 1) e env s = (.error error, s)) ∧
      (∀ fuel program error t, BodyFails c fuel name program s error t →
        ∃ s', evaluate c (fuel + 2) e env s = (.error error, s') ∧
          ImportAbandoned c fuel name program s error t s') ∧
      ∀ fuel error s', evaluate c fuel e env s = (.error error, s') →
        cached? c name s = none ∧ Barred c name s error ∧ s' = s ∨
          ∃ n program t, BodyFails c n name program s error t ∧
            ImportAbandoned c n name program s error t s' := by
  have ordered := underway.orderly
  refine ⟨?_, fun error unkept barred fuel => evaluate_barred he unkept barred fuel env,
    fun fuel program error t h => ⟨_, h.evaluate_eq ordered he env, h.abandoned ordered⟩, ?_⟩
  · intro running
    rw [cached?, ordered.unkept name running]
    exact ite_self _
  · intro fuel error s' failed
    cases fuel with
    | zero => cases failed
    | succ fuel =>
      have unkept := unkept_of_error he failed
      obtain barred | ⟨n, program, t, rfl, h⟩ := barred_or_bodyFails he failed
      · rw [evaluate_barred he unkept barred] at failed
        cases failed
        exact .inl ⟨unkept, barred, rfl⟩
      · rw [h.evaluate_eq ordered he env] at failed
        cases failed
        exact .inr ⟨n, program, t, h, h.abandoned ordered⟩

/-- Settings with a module in memory that imports another one and then fails. -/
def brokenModule : Settings :=
  ⟨2, true, .ofMemory ⟨[("Blank", ""), ("Broken", "(import Blank) (oops)")]⟩⟩

def brokenBody : Expr := .block [.importOf "Blank", .list [.symbol "oops"]]

/-- The state in which the body of the broken module ends, when it is imported first. -/
def brokenEnd : State :=
  (body (evaluate brokenModule 4) 1 brokenBody ((State.fresh .empty).startModule "Broken")).2

theorem failed_import_broken :
    let s := State.fresh .empty
    BodyFails brokenModule 4 "Broken" brokenBody s (.unbound "oops") brokenEnd ∧
      ∃ s', evaluate brokenModule 6 (.importOf "Broken") State.globalId s =
          (.error (.unbound "oops"), s') ∧
        ImportAbandoned brokenModule 4 "Broken" brokenBody s (.unbound "oops") brokenEnd s' := by
  intro s
  have known : Prelude.empty.Known := fun _ h => nomatch h
  have underway : Interp.Underway brokenModule (.importOf "Broken") State.globalId s :=
    .of_request (.new brokenModule known) (by decide)
  have read : Expr.ofProgram "(import Blank) (oops)" = .ok brokenBody := by cbv
  have fails : (body (evaluate brokenModule 4) 1 brokenBody
      ((State.fresh .empty).startModule "Broken")).1 = .error (.unbound "oops") := by cbv
  have bodyFails : BodyFails brokenModule 4 "Broken" brokenBody s (.unbound "oops") brokenEnd :=
    ⟨rfl, rfl, ⟨_, rfl, read⟩, Prod.ext fails rfl⟩
  obtain ⟨-, -, abandoned, -⟩ := failed_import underway rfl
  exact ⟨bodyFails, abandoned 4 brokenBody _ brokenEnd bodyFails⟩

/-- The other module, which is scope 2, is kept. -/
example : brokenEnd.cache.get? "Blank" = some 2 := by
  decide +kernel

end Eval

end ScopeLisp
