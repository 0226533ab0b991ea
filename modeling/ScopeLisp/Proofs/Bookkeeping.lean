/-
ScopeLisp.Proofs.Bookkeeping — the counts of running calls and imports.

Evaluation raises both counts on the way in and lowers them on the way out, and
many forms can fail between the two. `State.Orderly` is what holds wherever an
expression is evaluated: both counts are within the limit, and the modules that
are being imported differ from each other and from those that are kept. It is
kept by every evaluation, which also gives the counts back as it found them
(`Interp.answer_orderly`); so it holds of every reachable interpreter.

That a nested evaluation is entered in order is said with a watched evaluator,
which gives an alarm instead of evaluating from a state that is not in order:
no alarm, whatever it is, changes an answer.
-/
import ScopeLisp.Proofs.Requests

namespace ScopeLisp

/-! ## Order -/

/-- The counts are within the limit, and the running imports are of modules that
are neither running twice nor kept. Nothing is kept unless the settings say so. -/
structure State.Orderly (c : Settings) (s : State) : Prop where
  depth_le : s.depth ≤ c.maxCallDepth
  importing_le : s.importing.length ≤ c.maxCallDepth
  nodup : s.importing.Nodup
  unkept : ∀ name ∈ s.importing, s.cache.get? name = none
  keeps : c.memoize = false → s.cache.entries = []

namespace State.Orderly

variable {c : Settings} {s s' : State} {name : String}

instance : Decidable (s.Orderly c) :=
  decidable_of_iff
    (s.depth ≤ c.maxCallDepth ∧ s.importing.length ≤ c.maxCallDepth ∧ s.importing.Nodup ∧
      (∀ name ∈ s.importing, s.cache.get? name = none) ∧
      (c.memoize = false → s.cache.entries = []))
    ⟨fun ⟨h₁, h₂, h₃, h₄, h₅⟩ => ⟨h₁, h₂, h₃, h₄, h₅⟩,
      fun h => ⟨h.depth_le, h.importing_le, h.nodup, h.unkept, h.keeps⟩⟩

theorem fresh (c : Settings) (p : Prelude) : (State.fresh p).Orderly c where
  depth_le := Nat.zero_le _
  importing_le := Nat.zero_le _
  nodup := List.nodup_nil
  unkept _ h := nomatch h
  keeps _ := rfl

/-- Order is a matter of the counts and of the modules that are kept. -/
theorem frame (h : s.Orderly c) (depth : s'.depth = s.depth)
    (importing : s'.importing = s.importing) (cache : s'.cache = s.cache) : s'.Orderly c where
  depth_le := depth ▸ h.depth_le
  importing_le := importing ▸ h.importing_le
  nodup := importing ▸ h.nodup
  unkept := by
    rw [importing, cache]
    exact h.unkept
  keeps := cache ▸ h.keeps

theorem withDepth (h : s.Orderly c) {k : Nat} (hk : k ≤ c.maxCallDepth) :
    State.Orderly c { s with depth := k } where
  depth_le := hk
  importing_le := h.importing_le
  nodup := h.nodup
  unkept := h.unkept
  keeps := h.keeps

theorem popCall (h : s.Orderly c) (h' : s'.Orderly c) (depth : s'.depth = s.pushCall.depth) :
    s'.popCall.Orderly c := by
  refine h'.withDepth ?_
  have entered : s'.depth = s.depth + 1 := depth
  have bound := h.depth_le
  omega

theorem get?_eq_none_of_cached? (h : s.Orderly c) (hcached : Eval.cached? c name s = none) :
    s.cache.get? name = none := by
  unfold Eval.cached? at hcached
  split at hcached
  · exact hcached
  · rename_i hmemo
    simp [Bindings.get?, h.keeps (by simpa using hmemo)]

/-- A module whose import may start is not being imported, and there is room
for one more import. -/
theorem of_importRefused? (h : Eval.importRefused? c name s = none) :
    name ∉ s.importing ∧ s.importing.length < c.maxCallDepth := by
  unfold Eval.importRefused? at h
  split at h
  · cases h
  · rename_i hmem
    split at h
    · cases h
    · rename_i hle
      exact ⟨by simpa using hmem, by omega⟩

theorem pushImport (h : s.Orderly c) (hcached : Eval.cached? c name s = none)
    (hfree : Eval.importRefused? c name s = none) : (s.pushImport name).Orderly c := by
  obtain ⟨hmem, hlt⟩ := of_importRefused? hfree
  refine ⟨h.depth_le, hlt, List.nodup_cons.2 ⟨hmem, h.nodup⟩, ?_, h.keeps⟩
  intro n hn
  rcases List.mem_cons.1 hn with rfl | hn
  · exact h.get?_eq_none_of_cached? hcached
  · exact h.unkept n hn

theorem popImport (h : s.Orderly c) (h' : s'.Orderly c)
    (importing : s'.importing = (s.pushImport name).importing) : s'.popImport.Orderly c := by
  have back : s'.popImport.importing = s.importing := by
    simp only [State.popImport, importing, State.pushImport, List.tail_cons]
  refine ⟨h'.depth_le, back ▸ h.importing_le, back ▸ h.nodup, ?_, h'.keeps⟩
  intro n hn
  exact h'.unkept n (List.mem_of_mem_tail hn)

/-- A module is kept when its import has ended; that of another one is running. -/
theorem keep (h : s.Orderly c) (hmemo : c.memoize = true)
    (hfree : Eval.importRefused? c name s = none) (h' : s'.Orderly c)
    (importing : s'.importing = (s.pushImport name).importing) (id : ScopeId) :
    (s'.popImport.keep name id).Orderly c := by
  have popped := popImport h h' importing
  refine ⟨popped.depth_le, popped.importing_le, popped.nodup, ?_, ?_⟩
  · intro n hn
    have back : s'.popImport.importing = s.importing := by
      simp only [State.popImport, importing, State.pushImport, List.tail_cons]
    have other : n ≠ name := by
      rintro rfl
      exact (of_importRefused? hfree).1 (back ▸ hn)
    rw [State.keep, Bindings.get?_put, if_neg other]
    exact popped.unkept n hn
  · intro hmemo'
    rw [hmemo] at hmemo'
    cases hmemo'

/-- The module whose import has ended was not kept while it was running, so that it
takes the place of none that is kept. -/
theorem get?_keep (h' : s'.Orderly c) (importing : s'.importing = (s.pushImport name).importing)
    (id : ScopeId) {n : String} {m : ScopeId} (kept : s'.cache.get? n = some m) :
    (s'.popImport.keep name id).cache.get? n = some m := by
  have running : name ∈ s'.importing := importing ▸ List.mem_cons_self
  have other : n ≠ name := by
    rintro rfl
    have unkept := h'.unkept n running
    rw [kept] at unkept
    cases unkept
  show (s'.cache.put name id).get? n = some m
  rw [Bindings.get?_put, if_neg other]
  exact kept

/-- A count that reaches the limit is the limit. -/
theorem eq_of_limit_le (h : s.Orderly c) {k : Nat} (hk : k = s.depth ∨ k = s.importing.length)
    (hle : c.maxCallDepth ≤ k) : k = c.maxCallDepth := by
  have := h.depth_le
  have := h.importing_le
  omega

end State.Orderly

/-! ## Watched evaluation -/

namespace Eval

/-- Evaluates from states that are in order, and gives the alarm from others. -/
def watch (c : Settings) (alarm : Eval Value) (eval : Evaluator) : Evaluator := fun e env s =>
  if s.Orderly c then eval e env s else alarm s

/-- Evaluation with a watch on every evaluation that it enters. -/
def watched (c : Settings) (alarm : Eval Value) : Nat → Evaluator
  | 0 => watch c alarm fun _ _ => starve
  | fuel + 1 => watch c alarm (step c fuel (watched c alarm fuel))

end Eval

/-- The comparison of a watched evaluation with one that is not. A count in an
error is the limit. -/
def orderly (c : Settings) : Comparison :=
  .control (State.Orderly c) (fun f => ∀ k, f = some (.stackExhausted k) → k = c.maxCallDepth)
    (fun _ => False)

theorem orderly_laws (c : Settings) :
    Comparison.ControlLaws (fun _ : Unit => State.Orderly c)
      (fun f => ∀ k, f = some (.stackExhausted k) → k = c.maxCallDepth) (fun _ => False) c c where
  memoize := rfl
  modules := rfl
  limit_le := Nat.le_refl _
  limit := by
    intro s k _ h hk hle
    refine .inl ⟨hle, fun k' hk' => ?_⟩
    cases hk'
    exact h.eq_of_limit_le hk hle
  error := by
    intro e he k hk
    cases hk
    exact absurd rfl (he k)
  frame := State.Orderly.frame
  call h hlt := h.withDepth hlt
  call_back := State.Orderly.popCall
  load := State.Orderly.pushImport
  load_back := State.Orderly.popImport
  keep h hmemo hfree h' importing := h.keep hmemo hfree h' importing _

theorem orderly_lawful (c : Settings) : (orderly c).Lawful c c := (orderly_laws c).lawful

theorem watched_agree (c : Settings) (alarm : Eval Value) (n : Nat) :
    (orderly c).EvalAgree (Pure.pure n) (Eval.evaluate c) (Eval.watched c alarm) := by
  have L := orderly_lawful c
  have noLimit : (orderly c).fails none := by
    intro k hk
    cases hk
  -- From a state that is in order the watch lets the evaluation pass.
  have pass : ∀ {eval : Evaluator} {e env s}, State.Orderly c s →
      Eval.watch c alarm eval e env s = eval e env s := fun h => if_pos h
  induction n with
  | zero =>
    rintro e env s _ ⟨rfl, hs⟩ _ _ _
    exact .stopped (f := none) rfl (Filter.eventually_pure.2 (pass hs)) ⟨rfl, hs⟩
      (L.grows_refl s) noLimit
  | succ n ih =>
    rintro e env s _ ⟨rfl, hs⟩ _ _ _
    rw [Comparison.agree_pure_succ]
    have stepped : (orderly c).Agree (Pure.pure n) (orderly c).value
        (fun n => Eval.step c n (Eval.evaluate c n) e env)
        (fun n => Eval.step c n (Eval.watched c alarm n) e env) s s :=
      L.step ih (L.load_agree ih (fun _ => trivial) fun _ _ _ => trivial) ⟨rfl, hs⟩
        (.inl trivial) trivial
        (fun _ _ _ => Comparison.Lawful.rounds_pure (.inl ⟨noLimit, rfl⟩))
        (fun f _ => f.parts_of_forall fun _ => trivial)
        fun f _ => (Comparison.control_free ..).allows _ _ _ _ f
    exact L.agree_after (L.grows_refl s) stepped (.of_forall fun _ => rfl)
      (.of_forall fun _ => pass hs)

/-! ## Answers -/

namespace Interp

/-- What an answer does to the counts: they come back as they were, the state
stays in order, and so were the states that nested evaluations were entered
from. -/
theorem answer_orderly {i : Interp} (h : i.state.Orderly i.settings) (fuel : Nat) (q : Request) :
    (i.answer fuel q).2.state.Orderly i.settings ∧
      (i.answer fuel q).2.state.depth = i.state.depth ∧
      (i.answer fuel q).2.state.importing = i.state.importing ∧
      (∀ alarm, i.answerWith (Eval.watched i.settings alarm fuel) q = i.answer fuel q) ∧
      ∀ k, (i.answer fuel q).1 = .error (.raised (.stackExhausted k)) →
        k = i.settings.maxCallDepth := by
  have L := orderly_lawful i.settings
  have agree := watched_agree i.settings Eval.starve fuel
  have unwatched : ∀ alarm,
      i.answerWith (Eval.watched i.settings alarm fuel) q = i.answer fuel q := fun alarm =>
    (answerWith_eq_of_agree L (watched_agree i.settings alarm fuel) h q).symm
  rcases L.request_agree agree ⟨rfl, h⟩ (Comparison.control_admits ..) with
    ⟨e, unread⟩ | ⟨x, y, computes, agree⟩
  · have kept : i.answer fuel q = (.error (.unread e), i) := answerWith_error (unread fuel).1
    rw [kept]
    refine ⟨h, rfl, rfl, kept ▸ unwatched, fun k hk => ?_⟩
    cases hk
  · obtain ⟨⟨t', -, ordered⟩, grows, -, fails⟩ := agree.left fun _ => id
    have answered : i.answer fuel q = _ := answerWith_ok (computes fuel).1
    refine ⟨?_, ?_, ?_, unwatched, ?_⟩
    all_goals rw [answered]
    · exact ordered
    · exact grows.depth
    · exact grows.importing
    · intro k hk
      refine fails (some (.stackExhausted k)) ?_ k rfl
      revert hk
      rcases (x fuel i.state).1 with v | e | _ <;> simp [answerOf, Outcome.stopped]

/-- Between requests nothing is running, and the state is in order. -/
theorem Reachable.orderly {i : Interp} (h : i.Reachable) :
    i.state.Orderly i.settings ∧ i.state.depth = 0 ∧ i.state.importing = [] := by
  induction h with
  | new c known => exact ⟨.fresh c _, rfl, rfl⟩
  | @answer i fuel q _ _ _ ih =>
    obtain ⟨ordered, depth, importing, -, -⟩ := answer_orderly ih.1 fuel q
    exact ⟨answer_settings i fuel q ▸ ordered, depth.trans ih.2.1, importing.trans ih.2.2⟩

/-- **The bookkeeping of a reachable interpreter.** Whatever is asked and however
it ends, the counts of running calls and imports are afterwards what they were;
no watch on the order of the states from which nested evaluations are entered
ever gives alarm; and an exhausted stack is reported at the limit. -/
theorem bookkeeping {i : Interp} (h : i.Reachable) (fuel : Nat) (q : Request) :
    (i.answer fuel q).2.state.depth = i.state.depth ∧
      (i.answer fuel q).2.state.importing = i.state.importing ∧
      (∀ alarm, i.answerWith (Eval.watched i.settings alarm fuel) q = i.answer fuel q) ∧
      ∀ k, (i.answer fuel q).1 = .error (.raised (.stackExhausted k)) →
        k = i.settings.maxCallDepth :=
  (answer_orderly h.orderly.1 fuel q).2

/-- `(lambda (f) (f f))`, which calls itself for ever when it is given itself. -/
def selfApplication : Expr := .form "lambda" [.list [.symbol "f"], .list [.symbol "f", .symbol "f"]]

/-- A new interpreter that lets two calls run inside one another. -/
def twoCalls : Interp := .new ⟨2, true, fun _ => .error .notFound⟩ .empty

theorem bookkeeping_selfApplication :
    let q := Request.program (.list [selfApplication, selfApplication])
    twoCalls.Reachable ∧ (twoCalls.answer 9 q).2.state.depth = 0 ∧
      (twoCalls.answer 9 q).2.state.importing = [] ∧
      (∀ alarm, twoCalls.answerWith (Eval.watched twoCalls.settings alarm 9) q =
        twoCalls.answer 9 q) ∧
      ∀ k, (twoCalls.answer 9 q).1 = .error (.raised (.stackExhausted k)) → k = 2 := by
  intro q
  have h : twoCalls.Reachable := .new _ fun e he => nomatch he
  exact ⟨h, bookkeeping h 9 q⟩

/-- The stack is exhausted indeed. -/
example : (match (twoCalls.answer 9 (.program (.list [selfApplication, selfApplication]))).1 with
    | .error (.raised (.stackExhausted k)) => k == 2
    | _ => false) = true := by
  decide +kernel

end Interp

end ScopeLisp
