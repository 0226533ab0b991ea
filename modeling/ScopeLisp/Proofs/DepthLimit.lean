/-
ScopeLisp.Proofs.DepthLimit — the limit on calls and imports only cuts runs
short.

One run under a limit is compared with a run under a higher one from the same
state. As long as the first does not reach its limit the two do the same; when
it does, it ends with an exhausted stack, and nothing that encloses it can make
anything else of that error (`Interp.limit_only_cuts_short`).
-/
import ScopeLisp.Proofs.Bookkeeping

namespace ScopeLisp

/-- The same settings with another limit. -/
def Settings.withLimit (c : Settings) (limit : Nat) : Settings := { c with maxCallDepth := limit }

/-- The same interpreter with another limit. -/
def Interp.withLimit (i : Interp) (limit : Nat) : Interp :=
  { i with settings := i.settings.withLimit limit }

/-- Not more calls and imports are running than a limit allows. -/
structure State.Within (limit : Nat) (s : State) : Prop where
  depth_le : s.depth ≤ limit
  importing_le : s.importing.length ≤ limit

/-- The comparison of a run under a limit with a run under a higher one. The
first may end early, with its stack exhausted at the limit. -/
def underLimit (limit : Nat) : Comparison :=
  .control (State.Within limit) (fun _ => True) (· = some (.stackExhausted limit))

theorem underLimit_lawful (c : Settings) {low high : Nat} (hle : low ≤ high) :
    (underLimit low).Lawful (c.withLimit low) (c.withLimit high) :=
  Comparison.ControlLaws.lawful {
    memoize := rfl
    modules := rfl
    limit_le := hle
    limit := by
      intro s k _ h hk hlow
      have hdepth := h.depth_le
      have himporting := h.importing_le
      have hlow : low ≤ k := hlow
      have : k = low := by omega
      exact .inr (by rw [this])
    error := fun _ => trivial
    frame := fun h depth importing _ => ⟨depth ▸ h.depth_le, importing ▸ h.importing_le⟩
    call := fun h hlt => ⟨hlt, h.importing_le⟩
    call_back := fun _ h' _ => ⟨(Nat.sub_le ..).trans h'.depth_le, h'.importing_le⟩
    load := fun h _ hfree => ⟨h.depth_le, (State.Orderly.of_importRefused? hfree).2⟩
    load_back := fun h h' importing => by
      refine ⟨h'.depth_le, ?_⟩
      rw [State.popImport, importing]
      exact h.importing_le
    keep := fun h _ _ h' importing => by
      refine ⟨h'.depth_le, ?_⟩
      rw [State.keep, State.popImport, importing]
      exact h.importing_le }

namespace Interp

/-- With the same amount of fuel: the same answer and the same state, or an
exhausted stack under the lower limit. -/
theorem answer_withLimit {i : Interp} {low high : Nat} (h : i.state.Within low)
    (hle : low ≤ high) (fuel : Nat) (q : Request) :
    (((i.withLimit low).answer fuel q).1 = ((i.withLimit high).answer fuel q).1 ∧
        ((i.withLimit low).answer fuel q).2.state = ((i.withLimit high).answer fuel q).2.state) ∨
      ((i.withLimit low).answer fuel q).1 = .error (.raised (.stackExhausted low)) := by
  have L := underLimit_lawful i.settings hle
  have agree := L.evaluate (k := 0) (.inl ⟨trivial, rfl⟩) (Comparison.control_free ..) fuel
  have admits : (underLimit low).Admits i.state q := Comparison.control_admits ..
  rcases L.request_agree agree ⟨rfl, h⟩ admits with ⟨e, unread⟩ | ⟨x, y, computes, agree⟩
  · have left : (i.withLimit low).answer fuel q = _ := answerWith_error (unread fuel).1
    have right : (i.withLimit high).answer fuel q = _ := answerWith_error (unread fuel).2
    rw [left, right]
    exact .inl ⟨rfl, rfl⟩
  · have left : (i.withLimit low).answer fuel q = _ := answerWith_ok (computes fuel).1
    have right : (i.withLimit high).answer fuel q = _ := answerWith_ok (computes fuel).2
    rw [left, right]
    rcases agree.control_cases with same | ⟨f, rfl, exhausted⟩
    · exact .inl ⟨congrArg (answerOf ·.1) same, congrArg Prod.snd same⟩
    · exact .inr (congrArg answerOf exhausted)

/-- Two answers in the same state, under limits of their own. -/
theorem eq_withLimit {c : Settings} {j j' : Interp} {limit limit' : Nat}
    (settings : j.settings = c.withLimit limit) (settings' : j'.settings = c.withLimit limit')
    (state : j.state = j'.state) : j' = j.withLimit limit' := by
  obtain ⟨_, _⟩ := j
  obtain ⟨_, _⟩ := j'
  cases settings
  cases settings'
  cases state
  rfl

/-- **The limit only cuts runs short.** What is answered under a limit, unless
its stack is exhausted, is answered under a higher limit, with the same state
after it. What is answered under the higher limit is answered under the lower
one, with the same state after it, or the stack is exhausted there at the lower
limit. -/
theorem limit_only_cuts_short {i : Interp} (h : i.Reachable) {low high : Nat} (hle : low ≤ high)
    (q : Request) :
    (∀ a j, (i.withLimit low).Answers q a j →
        (∀ k, a ≠ .error (.raised (.stackExhausted k))) →
        (i.withLimit high).Answers q a (j.withLimit high)) ∧
      ∀ a j, (i.withLimit high).Answers q a j →
        (i.withLimit low).Answers q a (j.withLimit low) ∨
          ∃ j', (i.withLimit low).Answers q (.error (.raised (.stackExhausted low))) j' := by
  obtain ⟨-, depth, importing⟩ := h.orderly
  have within : i.state.Within low := ⟨by omega, by simp [importing]⟩
  constructor
  · rintro a j ⟨ends, fuel, answered⟩ notExhausted
    rcases answer_withLimit within hle fuel q with ⟨same, state⟩ | exhausted
    · have settings := answer_settings (i.withLimit low) fuel q
      rw [answered] at same state settings
      exact ⟨ends, fuel, Prod.ext same.symm (eq_withLimit settings (answer_settings ..) state)⟩
    · rw [answered] at exhausted
      exact absurd exhausted (notExhausted low)
  · rintro a j ⟨ends, fuel, answered⟩
    rcases answer_withLimit within hle fuel q with ⟨same, state⟩ | exhausted
    · have settings := answer_settings (i.withLimit high) fuel q
      rw [answered] at same state settings
      exact .inl ⟨ends, fuel,
        Prod.ext same (eq_withLimit settings (answer_settings ..) state.symm)⟩
    · refine .inr ⟨((i.withLimit low).answer fuel q).2, ?_, fuel, Prod.ext exhausted rfl⟩
      intro h
      cases h

/-- One call more than the limit allows, against one that has room. -/
theorem limit_only_cuts_short_twoCalls :
    let q := Request.program (.list [selfApplication, selfApplication])
    twoCalls.Reachable ∧ 2 ≤ 3 ∧
      (∀ a j, (twoCalls.withLimit 2).Answers q a j →
          (∀ k, a ≠ .error (.raised (.stackExhausted k))) →
          (twoCalls.withLimit 3).Answers q a (j.withLimit 3)) ∧
        ∀ a j, (twoCalls.withLimit 3).Answers q a j →
          (twoCalls.withLimit 2).Answers q a (j.withLimit 2) ∨
            ∃ j', (twoCalls.withLimit 2).Answers q (.error (.raised (.stackExhausted 2))) j' := by
  intro q
  have h : twoCalls.Reachable := .new _ fun e he => nomatch he
  exact ⟨h, by decide, limit_only_cuts_short h (by decide) q⟩

end Interp

end ScopeLisp
