/-
ScopeLisp.Proofs.Constructors — instances of classes that have no constructor.

A constructor is found as any property of a class is. So the search does not end with
the superclasses: it goes on through the scopes around the declaration of the topmost
one, and what is called `constructor` there is taken for the constructor. Where no scope
has the name, a class without a constructor makes instances without arguments and only
so (`Eval.new_without_constructor`); where a scope around it has the name, what it has
there is called (`Interp.constructor_of_enclosing_scope`).
-/
import ScopeLisp.Proofs.ObjectModel
import ScopeLisp.Proofs.Shadowing

namespace ScopeLisp

/-- Neither a class nor any class that it is inside of has a constructor of its own. -/
def Store.LacksConstructor (st : Store) (id : ScopeId) : Prop :=
  ∀ o ∈ st.chain id, st.isClass o = true → st.hasOwn o "constructor" = false

instance (st : Store) (id : ScopeId) : Decidable (st.LacksConstructor id) :=
  inferInstanceAs (Decidable (∀ o ∈ st.chain id, _ → _))

/-- What is taken for the constructor of such a class is in a scope of another kind. -/
theorem Store.LacksConstructor.isClass_owner {st : Store} {id o : ScopeId}
    (h : st.LacksConstructor id) (owner : st.resolve? id "constructor" = some o) :
    st.isClass o = false := by
  obtain ⟨own, before, after, split, -⟩ := resolve?_eq_some_iff.1 owner
  have inside : o ∈ st.chain id := split ▸ List.mem_append_right _ List.mem_cons_self
  by_contra isClass
  have lacks := h o inside (by simpa using isClass)
  rw [own] at lacks
  cases lacks

namespace Eval

variable {c : Settings} {eval : Evaluator} {env id : ScopeId} {k : Expr} {args : List Expr}
  {s s₁ s₂ : State} {vs : List Value}

/-- What `new` does when the class and the arguments have been evaluated. -/
theorem instantiate_eq (ofClass : eval k env s = (.value (.scope id), s₁))
    (isClass : s₁.store.isClass id = true)
    (given : arguments eval env [.scope s₁.store.size] args (s₁.openScope id .ofInstance) =
      (.value vs, s₂)) :
    instantiate c eval env k args s =
      match s₂.store.lookup? id "constructor" with
      | some f => (do let _ ← call c eval f vs; pure (.scope s₁.store.size) : Eval Value) s₂
      | none =>
        if args = [] then (.value (.scope s₁.store.size), s₂)
        else (.error (.unbound "constructor"), s₂) := by
  have class? : expectClass "new" (.scope id) s₁ = (.value id, s₁) := by
    rw [expectClass, if_pos isClass]
  have opened : openScope id .ofInstance s₁ =
      (.value s₁.store.size, s₁.openScope id .ofInstance) := rfl
  simp only [instantiate, Bind.bind, andThen, ofClass, class?, opened, given, ask]
  cases s₂.store.lookup? id "constructor" with
  | some f => rfl
  | none => cases args <;> rfl

/-- **Instances of a class without a constructor**, of its own or in a superclass. The
class and the arguments are evaluated, the new instance between the two: an empty scope
right under the class, apart from all that is there. If no scope of the chain has a
constructor, `new` gives the instance when there are no arguments, and fails for want of
a constructor when there are any. Otherwise the nearest one that the scopes around the
classes have is called, with the instance and the arguments, before the instance is
given. As this is said of any evaluator, nothing else is evaluated on the way. -/
theorem new_without_constructor {e : Expr} (he : Form.classify e = .ok (.create k args))
    (ofClass : eval k env s = (.value (.scope id), s₁)) (isClass : s₁.store.isClass id = true)
    (given : arguments eval env [.scope s₁.store.size] args (s₁.openScope id .ofInstance) =
      (.value vs, s₂))
    (lacks : s₂.store.LacksConstructor id) (rounds : Nat) :
    let self := s₁.store.size
    let made := s₁.openScope id .ofInstance
    (made.store.scope? self = some ⟨.ofInstance, some id, .empty⟩ ∧
        ∀ o < self, made.store.scope? o = s₁.store.scope? o) ∧
      match s₂.store.resolve? id "constructor" with
      | none =>
        (args = [] → step c rounds eval e env s = (.value (.scope self), made)) ∧
          (args ≠ [] → step c rounds eval e env s = (.error (.unbound "constructor"), s₂))
      | some o => s₂.store.isClass o = false ∧
          ∃ f, (s₂.store.record o).get? "constructor" = some f ∧
            step c rounds eval e env s =
              (do let _ ← call c eval f vs; pure (.scope self) : Eval Value) s₂ := by
  intro self made
  have old : id < s₁.store.size := by
    obtain ⟨name, kind⟩ := Store.isClass_iff.1 isClass
    exact Store.lt_size_of_kind? kind
  have stepped : step c rounds eval e env s = instantiate c eval env k args s := by
    rw [step, he]
    rfl
  refine ⟨⟨?_, fun o ho => Store.scope?_child_of_lt ho ..⟩, ?_⟩
  · exact (Store.scope?_child old ..).trans (if_pos rfl)
  rw [stepped, instantiate_eq ofClass isClass given]
  cases owner : s₂.store.resolve? id "constructor" with
  | none =>
    rw [Store.lookup?_of_resolve?_eq_none owner]
    refine ⟨?_, fun some => if_neg some⟩
    rintro rfl
    -- Without arguments nothing happens between the two.
    cases given
    rfl
  | some o =>
    obtain ⟨f, held, found⟩ := Store.exists_get?_of_resolve? owner
    rw [found]
    exact ⟨lacks.isClass_owner owner, f, held, rfl⟩

end Eval

namespace Interp

/-- The instance is the fourth scope, after the global one, the class and another
instance. -/
theorem new_without_constructor_point :
    let made := onePoint.state.openScope 1 .ofInstance
    made.store.LacksConstructor 1 ∧
      Eval.step onePoint.settings 0 (Eval.evaluate onePoint.settings 1)
        (.form "new" [.symbol "Point"]) State.globalId onePoint.state =
          (.value (.scope 3), made) := by
  intro made
  have found : onePoint.state.store.lookup? State.globalId "Point" = some (.scope 1) := by cbv
  have size : onePoint.state.store.size = 3 := by cbv
  have isClass : onePoint.state.store.isClass 1 = true := by cbv
  have nowhere : (onePoint.state.openScope 1 .ofInstance).store.resolve? 1 "constructor" =
      none := by
    cbv
  have ofClass : Eval.evaluate onePoint.settings 1 (.symbol "Point") State.globalId
      onePoint.state = (.value (.scope 1), onePoint.state) := by
    show Eval.lookup State.globalId "Point" onePoint.state = _
    rw [Eval.lookup, Eval.ask, found]
  have lacks : made.store.LacksConstructor 1 := fun o ho _ =>
    Store.resolve?_eq_none_iff.1 nowhere o ho
  obtain ⟨-, bare⟩ := Eval.new_without_constructor (c := onePoint.settings)
    (e := .form "new" [.symbol "Point"]) rfl ofClass isClass rfl lacks 0
  rw [nowhere, size] at bare
  exact ⟨lacks, bare.1 rfl⟩

/-- The name `constructor` is bound to null, and then a class is declared. -/
def constructorBesideClass : Interp :=
  ((Interp.new blankModule (Prelude.empty.constant "null" .null)).answer 9
    (.run "(var constructor null) (class A null (begin))")).2

/-- The class has no constructor and no superclass, and yet makes no instance. -/
theorem constructor_of_enclosing_scope :
    constructorBesideClass.Reachable ∧
      constructorBesideClass.state.store.lookup? State.globalId "A" = some (.scope 1) ∧
      constructorBesideClass.state.store.isClass 1 = true ∧
      constructorBesideClass.state.store.LacksConstructor 1 ∧
      (constructorBesideClass.answer 9 (.run "(new A)")).1 =
        .error (.raised (.notCallable "null")) := by
  have known : Prelude.empty.Known := fun _ h => nomatch h
  refine ⟨.answer (.new _ (known.constant _ trivial)) trivial ?_, ?_, ?_, ?_, ?_⟩
  · cbv
    simp
  · cbv
  · cbv
  · decide +kernel
  · cbv

end Interp

end ScopeLisp
