/-
ScopeLisp.Proofs.Syntax.Reading — how tokens are put together into expressions.

A token opens a list, closes one, adds an atom, or does nothing (`Reading.step_cases`).
`Reading.Takes r ts r'` says that the tokens `ts` lead from `r` to `r'`. A row of
tokens can be taken in parts (`takes_append`); where the tokens stand (`takes_bare`)
and what was complete before them (`takes_atop`) makes no difference; and how many
lists are open afterwards is a count of parentheses (`Takes.length_opened`).

A text holds expressions (`Holds`) if its tokens lead from nothing to them, with no
list left open. Those are the texts that are read as programs
(`Expr.ofProgram_eq_ok`), and those that hold one expression are the texts that are
read as one (`Expr.ofText_eq_ok`).
-/
import ScopeLisp.Proofs.Syntax.Scanning

namespace ScopeLisp

theorem bind_eq_ok {ε α β : Type} {x : Except ε α} {f : α → Except ε β} {b : β} :
    x >>= f = .ok b ↔ ∃ a, x = .ok a ∧ f a = .ok b := by
  cases x <;> simp [bind, Except.bind]

/-- The atom that a token stands for. -/
def Token.atom? (t : Token) : Option Expr :=
  match t.kind with
  | .number => (readNumeral t.text).map .number
  | .string => some (.str (literalValue t.text))
  | .symbol => some (.symbol t.text)
  | _ => none

theorem Token.kind_of_atom? {t : Token} {e : Expr} (h : t.atom? = some e) :
    t.kind ≠ .leftParen ∧ t.kind ≠ .rightParen ∧ t.kind ≠ .eof := by
  refine ⟨?_, ?_, ?_⟩ <;> intro kind <;> simp [atom?, kind] at h

namespace Reading

variable {r r' q : Reading} {t : Token} {ts us : List Token}

/-! ## Steps -/

theorem step_atom {e : Expr} (h : t.atom? = some e) (r : Reading) : r.step t = .ok (r.add e) := by
  obtain ⟨kind, span, text⟩ := t
  cases kind with
  | number =>
    obtain ⟨x, read, rfl⟩ := Option.map_eq_some_iff.1 h
    simp [step, read]
  | string | symbol =>
    cases h
    rfl
  | leftParen | rightParen | eof => cases h

/-- What a token can do: open a list, close one, add an atom, or, at the end of the
text, nothing. -/
theorem step_cases (h : r.step t = .ok q) :
    (t.kind = .leftParen ∧ q = ⟨r.done, ⟨t.span, []⟩ :: r.opened⟩) ∨
      (t.kind = .rightParen ∧ ∃ l outer, r.opened = l :: outer ∧
        q = add ⟨r.done, outer⟩ (.list l.items.reverse)) ∨
      (∃ e, t.atom? = some e ∧ q = r.add e) ∨ t.kind = .eof ∧ q = r := by
  obtain ⟨kind, span, text⟩ := t
  cases kind with
  | leftParen => exact .inl ⟨rfl, (Except.ok.inj h).symm⟩
  | rightParen =>
    obtain ⟨done, _ | ⟨l, outer⟩⟩ := r
    · cases h
    · exact .inr (.inl ⟨rfl, l, outer, rfl, (Except.ok.inj h).symm⟩)
  | number =>
    simp only [step] at h
    split at h
    next x read =>
      exact .inr (.inr (.inl ⟨_, congrArg (Option.map Expr.number) read, (Except.ok.inj h).symm⟩))
    next => cases h
  | string | symbol => exact .inr (.inr (.inl ⟨_, rfl, (Except.ok.inj h).symm⟩))
  | eof => exact .inr (.inr (.inr ⟨rfl, (Except.ok.inj h).symm⟩))

/-- A token is refused if it is a number that can not be read or closes nothing. -/
theorem exists_step (number : t.kind = .number → (readNumeral t.text).isSome)
    (closes : t.kind = .rightParen → r.opened ≠ []) : ∃ q, r.step t = .ok q := by
  obtain ⟨kind, span, text⟩ := t
  cases kind with
  | number =>
    obtain ⟨x, read⟩ := Option.isSome_iff_exists.1 (number rfl)
    exact ⟨r.add (.number x), by simp only [step, read]⟩
  | rightParen =>
    obtain ⟨done, _ | ⟨l, outer⟩⟩ := r
    · exact absurd rfl (closes rfl)
    · exact ⟨_, rfl⟩
  | _ => exact ⟨_, rfl⟩

/-! ## Rows of tokens -/

/-- The tokens lead from one reading to another. -/
def Takes (r : Reading) (ts : List Token) (r' : Reading) : Prop := ts.foldlM step r = .ok r'

@[simp] theorem takes_nil : r.Takes [] r' ↔ r = r' := by
  simp [Takes, pure, Except.pure]

theorem takes_append : r.Takes (ts ++ us) r' ↔ ∃ q, r.Takes ts q ∧ q.Takes us r' := by
  simp only [Takes, List.foldlM_append, bind_eq_ok]

theorem takes_cons : r.Takes (t :: ts) r' ↔ ∃ q, r.step t = .ok q ∧ q.Takes ts r' := by
  simp only [Takes, List.foldlM_cons, bind_eq_ok]

theorem takes_singleton : r.Takes [t] r' ↔ r.step t = .ok r' := by
  simp [takes_cons]

/-! ## What makes no difference -/

/-- A reading with its open lists at other places, and on top of expressions that
were complete before it. -/
def recast (place : Span → Span) (es : List Expr) (r : Reading) : Reading :=
  ⟨r.done ++ es, r.opened.map fun l => { l with span := place l.span }⟩

theorem recast_add (place : Span → Span) (es : List Expr) (r : Reading) (e : Expr) :
    (r.add e).recast place es = (r.recast place es).add e := by
  cases h : r.opened <;> simp [add, recast, h]

theorem step_recast (place : Span → Span) (es : List Expr) (r : Reading) (t : Token) :
    ((r.recast place es).step { t with span := place t.span }).toOption =
      (r.step t).toOption.map (recast place es) := by
  obtain ⟨kind, span, text⟩ := t
  cases kind with
  | leftParen => rfl
  | rightParen =>
    obtain ⟨done, _ | ⟨l, outer⟩⟩ := r
    · rfl
    · exact congrArg some (recast_add place es ⟨done, outer⟩ _).symm
  | number =>
    simp only [step]
    cases readNumeral text with
    | none => rfl
    | some x => exact congrArg some (recast_add place es r _).symm
  | string => exact congrArg some (recast_add place es r _).symm
  | symbol => exact congrArg some (recast_add place es r _).symm
  | eof => rfl

theorem takes_recast (place : Span → Span) (es : List Expr) :
    (r.recast place es).Takes (ts.map fun t => { t with span := place t.span }) q ↔
      ∃ r', r.Takes ts r' ∧ r'.recast place es = q := by
  have step_iff : ∀ (r : Reading) (t : Token) (q : Reading),
      (r.recast place es).step { t with span := place t.span } = .ok q ↔
        ∃ r', r.step t = .ok r' ∧ r'.recast place es = q := by
    intro r t q
    have respects := step_recast place es r t
    revert respects
    cases r.step t <;> cases (r.recast place es).step _ <;>
      simp +contextual [Except.toOption, eq_comm]
  induction ts generalizing r with
  | nil => simp
  | cons t ts ih =>
    simp only [List.map_cons, takes_cons, step_iff]
    constructor
    · rintro ⟨_, ⟨p, hp, rfl⟩, h⟩
      obtain ⟨r', taken, rfl⟩ := ih.1 h
      exact ⟨r', ⟨p, hp, taken⟩, rfl⟩
    · rintro ⟨r', ⟨p, hp, h⟩, rfl⟩
      exact ⟨_, ⟨p, hp, rfl⟩, ih.2 ⟨r', h, rfl⟩⟩

/-- A reading without the places of its open lists. -/
def bare : Reading → Reading := recast (fun _ => .point 0) []

/-- Where the tokens stand makes no difference. -/
theorem takes_bare : r.bare.Takes (ts.map Token.bare) q ↔ ∃ r', r.Takes ts r' ∧ r'.bare = q :=
  takes_recast ..

/-- A reading on top of expressions that were complete before it. -/
def atop (es : List Expr) : Reading → Reading := recast id es

/-- What was complete before makes no difference. -/
theorem takes_atop {es : List Expr} :
    (r.atop es).Takes ts q ↔ ∃ r', r.Takes ts r' ∧ r'.atop es = q := by
  simpa [atop] using takes_recast id es

@[simp] theorem bare_mk_nil (es : List Expr) : bare ⟨es, []⟩ = ⟨es, []⟩ := by simp [bare, recast]

theorem bare_eq_mk_nil {es : List Expr} : r.bare = ⟨es, []⟩ ↔ r = ⟨es, []⟩ := by
  obtain ⟨done, opened⟩ := r
  simp [bare, recast]

@[simp] theorem atop_mk_nil (es es' : List Expr) : atop es ⟨es', []⟩ = ⟨es' ++ es, []⟩ := rfl

theorem atop_eq_mk_nil {es es' : List Expr} (h : r.atop es = ⟨es', []⟩) :
    ∃ es'', r = ⟨es'', []⟩ ∧ es' = es'' ++ es := by
  obtain ⟨done, opened⟩ := r
  obtain ⟨rfl, none⟩ := Reading.mk.inj h
  obtain rfl : opened = [] := List.map_eq_nil_iff.1 none
  exact ⟨done, rfl, rfl⟩

theorem opened_bare : r.bare.opened = [] ↔ r.opened = [] := by simp [bare, recast]

end Reading

/-! ## What has been read -/

namespace Reading

variable {P : Expr → Prop} {r q : Reading} {t : Token} {ts : List Token}

/-- Expressions that are added one after the other stand in the innermost open list. -/
theorem foldl_add (es : List Expr) (r : Reading) :
    es.foldl add r =
      match r.opened with
      | [] => ⟨es.reverse ++ r.done, []⟩
      | l :: outer => ⟨r.done, ⟨l.span, es.reverse ++ l.items⟩ :: outer⟩ := by
  induction es generalizing r with
  | nil => obtain ⟨done, _ | ⟨l, outer⟩⟩ := r <;> rfl
  | cons e es ih =>
    rw [List.foldl_cons, ih]
    obtain ⟨done, _ | ⟨l, outer⟩⟩ := r <;> simp [add]

/-- A property of every expression that has been read. -/
structure All (P : Expr → Prop) (r : Reading) : Prop where
  done : ∀ e ∈ r.done, P e
  opened : ∀ l ∈ r.opened, ∀ e ∈ l.items, P e

theorem All.add {e : Expr} (h : r.All P) (he : P e) : (r.add e).All P := by
  obtain ⟨done, _ | ⟨l, outer⟩⟩ := r
  · exact ⟨List.forall_mem_cons.2 ⟨he, h.done⟩, nofun⟩
  · obtain ⟨inner, outer⟩ := List.forall_mem_cons.1 h.opened
    exact ⟨h.done, List.forall_mem_cons.2 ⟨List.forall_mem_cons.2 ⟨he, inner⟩, outer⟩⟩

/-- A property that atoms have, and lists if their items have it. -/
theorem All.step (lists : ∀ items, (∀ e ∈ items, P e) → P (.list items)) (h : r.All P)
    (atom : ∀ e, t.atom? = some e → P e) (stepped : r.step t = .ok q) : q.All P := by
  rcases step_cases stepped with ⟨-, rfl⟩ | ⟨-, l, outer, opened, rfl⟩ | ⟨e, he, rfl⟩ | ⟨-, rfl⟩
  · exact ⟨h.done, List.forall_mem_cons.2 ⟨nofun, h.opened⟩⟩
  · obtain ⟨inner, outer⟩ := List.forall_mem_cons.1 (opened ▸ h.opened)
    exact All.add ⟨h.done, outer⟩ (lists _ fun e he => inner e (List.mem_reverse.1 he))
  · exact h.add (atom e he)
  · exact h

theorem All.takes (lists : ∀ items, (∀ e ∈ items, P e) → P (.list items)) (h : r.All P)
    (atoms : ∀ t ∈ ts, ∀ e, t.atom? = some e → P e) (taken : r.Takes ts q) : q.All P := by
  induction ts generalizing r with
  | nil => exact takes_nil.1 taken ▸ h
  | cons t ts ih =>
    obtain ⟨p, stepped, taken⟩ := takes_cons.1 taken
    obtain ⟨atom, atoms⟩ := List.forall_mem_cons.1 atoms
    exact ih (h.step lists atom stepped) atoms taken

end Reading

/-! ## Counting parentheses -/

namespace Token

/-- How many tokens of a kind there are. -/
def count (k : TokenKind) (ts : List Token) : Nat := ts.countP (·.kind = k)

/-- No parenthesis closes more than was opened before it, and all that is opened is
closed. -/
structure Balanced (ts : List Token) : Prop where
  within : ∀ us, us <+: ts → count .rightParen us ≤ count .leftParen us
  total : count .leftParen ts = count .rightParen ts

end Token

namespace Reading

variable {r r' : Reading} {t : Token} {ts : List Token}

theorem length_opened_add (r : Reading) (e : Expr) :
    (r.add e).opened.length = r.opened.length := by
  cases h : r.opened <;> simp [add, h]

/-- A token opens a list, closes one, or leaves the open lists as they are. -/
theorem length_opened_step (h : r.step t = .ok r') :
    r'.opened.length + (if t.kind = .rightParen then 1 else 0) =
      r.opened.length + (if t.kind = .leftParen then 1 else 0) := by
  rcases step_cases h with ⟨kind, rfl⟩ | ⟨kind, l, outer, opened, rfl⟩ | ⟨e, atom, rfl⟩ |
    ⟨kind, rfl⟩
  · simp [kind]
  · simp [kind, length_opened_add, opened]
  · obtain ⟨left, right, -⟩ := Token.kind_of_atom? atom
    simp [left, right, length_opened_add]
  · simp [kind]

/-- How many lists are open is a count of parentheses. -/
theorem Takes.length_opened (h : r.Takes ts r') :
    r'.opened.length + Token.count .rightParen ts =
      r.opened.length + Token.count .leftParen ts := by
  induction ts generalizing r with
  | nil =>
    rw [takes_nil.1 h]
    rfl
  | cons t ts ih =>
    obtain ⟨q, hstep, htakes⟩ := takes_cons.1 h
    have first := length_opened_step hstep
    have others := ih htakes
    simp only [Token.count, List.countP_cons, decide_eq_true_eq] at others ⊢
    omega

/-- Tokens that can be taken are balanced if they leave no list open. -/
theorem Takes.balanced_iff (h : start.Takes ts r) : Token.Balanced ts ↔ r.opened = [] := by
  have all := h.length_opened
  rw [← List.length_eq_zero_iff]
  constructor
  · intro balanced
    have := balanced.total
    simp only [start, List.length_nil] at all
    omega
  · intro closed
    refine ⟨?_, by simpa [closed, start, eq_comm] using all⟩
    rintro us ⟨vs, rfl⟩
    obtain ⟨q, hus, -⟩ := takes_append.1 h
    have := hus.length_opened
    simp only [start, List.length_nil] at this
    omega

/-- Tokens can be taken if every number can be read and no parenthesis closes more
than is open. -/
theorem exists_takes (numbers : ∀ t ∈ ts, t.kind = .number → (readNumeral t.text).isSome)
    (within : ∀ us, us <+: ts →
      Token.count .rightParen us ≤ r.opened.length + Token.count .leftParen us) :
    ∃ q, r.Takes ts q := by
  induction ts generalizing r with
  | nil => exact ⟨r, takes_nil.2 rfl⟩
  | cons t ts ih =>
    obtain ⟨number, numbers⟩ := List.forall_mem_cons.1 numbers
    have closes : t.kind = .rightParen → r.opened ≠ [] := by
      intro kind none
      have := within [t] (by simp)
      simp [Token.count, kind, none] at this
    obtain ⟨q, stepped⟩ := exists_step number closes
    obtain ⟨r', taken⟩ := ih (r := q) numbers fun us front => by
      have := within (t :: us) ((List.prefix_cons_inj t).2 front)
      have := length_opened_step stepped
      simp only [Token.count, List.countP_cons, decide_eq_true_eq] at *
      omega
    exact ⟨r', takes_cons.2 ⟨q, stepped, taken⟩⟩

end Reading

/-! ## Texts -/

/-- A text holds expressions if its tokens lead to them and leave no list open. -/
def Holds (cs : List Char) (es : List Expr) : Prop :=
  ∃ ts, Scans [] cs ts ∧ Reading.start.Takes ts ⟨es.reverse, []⟩

theorem Reading.finish_eq_ok {r : Reading} {es : List Expr} :
    r.finish = .ok es ↔ r = ⟨es.reverse, []⟩ := by
  obtain ⟨done, _ | ⟨l, outer⟩⟩ := r <;> simp [finish, List.reverse_eq_iff]

theorem readAll_eq_ok {tokens : List Token} {es : List Expr} :
    readAll tokens = .ok es ↔ Reading.start.Takes (beforeEnd tokens) ⟨es.reverse, []⟩ := by
  simp only [readAll, bind_eq_ok, Reading.finish_eq_ok, Reading.Takes]
  exact exists_eq_right

/-- The tokens of a text can be taken wherever they stand. -/
theorem Scans.takes {source : String} {ts : List Token} {r : Reading}
    (scans : Scans [] source.toList ts) (takes : Reading.start.Takes ts r) :
    ∃ tokens r', Token.scan source = .ok tokens ∧
      Reading.start.Takes (beforeEnd tokens) r' ∧ r'.bare = r := by
  obtain ⟨tokens, scanned, rfl⟩ := scans.scan
  obtain ⟨r', taken, bare⟩ := (Reading.takes_bare (r := .start)).1 takes
  exact ⟨tokens, r', scanned, taken, bare⟩

theorem holds_iff {source : String} {es : List Expr} :
    Holds source.toList es ↔ ∃ tokens, Token.scan source = .ok tokens ∧
      Reading.start.Takes (beforeEnd tokens) ⟨es.reverse, []⟩ := by
  constructor
  · rintro ⟨ts, scans, takes⟩
    obtain ⟨tokens, r, scanned, taken, bare⟩ := scans.takes takes
    exact ⟨tokens, scanned, Reading.bare_eq_mk_nil.1 bare ▸ taken⟩
  · rintro ⟨tokens, scanned, taken⟩
    exact ⟨_, scans_of_scan scanned,
      (Reading.takes_bare (r := .start)).2 ⟨_, taken, Reading.bare_mk_nil _⟩⟩

/-- The texts that are read as programs, and as which. -/
theorem Expr.ofProgram_eq_ok {source : String} {program : Expr} :
    Expr.ofProgram source = .ok program ↔
      ∃ es, Holds source.toList es ∧ program = .block es := by
  have read : ∀ tokens, readProgram tokens = .ok program ↔
      ∃ es, Reading.start.Takes (beforeEnd tokens) ⟨es.reverse, []⟩ ∧ program = .block es := by
    intro tokens
    simp only [← readAll_eq_ok, readProgram]
    cases readAll tokens <;> simp [Except.map, eq_comm]
  simp only [Expr.ofProgram, bind_eq_ok, read, holds_iff]
  exact ⟨fun ⟨tokens, scanned, es, taken, same⟩ => ⟨es, ⟨tokens, scanned, taken⟩, same⟩,
    fun ⟨es, ⟨tokens, scanned, taken⟩, same⟩ => ⟨tokens, scanned, es, taken, same⟩⟩

/-! ## One expression -/

namespace Reading

variable {r q : Reading} {t : Token} {ts us : List Token} {e : Expr}

theorem add_ne_start (r : Reading) (e : Expr) : r.add e ≠ start := by
  obtain ⟨done, _ | ⟨l, outer⟩⟩ := r <;> simp [add, start]

/-- Reading a token leaves something read. -/
theorem step_ne_start (kind : t.kind ≠ .eof) (h : r.step t = .ok q) : q ≠ start := by
  rcases step_cases h with ⟨-, rfl⟩ | ⟨-, l, outer, -, rfl⟩ | ⟨e, -, rfl⟩ | ⟨eof, -⟩
  · simp [start]
  · exact add_ne_start _ _
  · exact add_ne_start _ _
  · exact absurd eof kind

theorem Takes.eq_nil (kinds : ∀ t ∈ ts, t.kind ≠ .eof) (h : start.Takes ts start) : ts = [] := by
  rcases List.eq_nil_or_concat ts with none | ⟨us, t, rfl⟩
  · exact none
  · rw [List.concat_eq_append] at kinds h
    obtain ⟨q, -, last⟩ := takes_append.1 h
    exact absurd rfl (step_ne_start (kinds t (by simp)) (takes_singleton.1 last))

theorem add_complete (none : r.done = []) (e : Expr) :
    (r.add e).done = [] ∨ r.add e = ⟨[e], []⟩ := by
  obtain ⟨done, _ | ⟨l, outer⟩⟩ := r
  · exact .inr (congrArg (Reading.mk · []) (congrArg (e :: ·) none))
  · exact .inl none

/-- The first expression is complete when no list is open. -/
theorem step_complete (none : r.done = []) (h : r.step t = .ok q) :
    q.done = [] ∨ ∃ e, q = ⟨[e], []⟩ := by
  rcases step_cases h with ⟨-, rfl⟩ | ⟨-, l, outer, -, rfl⟩ | ⟨e, -, rfl⟩ | ⟨-, rfl⟩
  · exact .inl none
  · exact (add_complete (r := ⟨r.done, outer⟩) none _).imp_right fun whole => ⟨_, whole⟩
  · exact (add_complete none e).imp_right fun whole => ⟨e, whole⟩
  · exact .inl none

/-- One expression is read from the tokens that lead to it and to nothing else; the
tokens after them are left. -/
theorem first_eq_ok (kinds : ∀ t ∈ ts, t.kind ≠ .eof) (none : r.done = []) :
    r.first ts = .ok (some e, us) ↔ ∃ taken, ts = taken ++ us ∧ r.Takes taken ⟨[e], []⟩ := by
  induction ts generalizing r with
  | nil =>
    constructor
    · simp only [first]
      cases r.finish <;> simp [Except.map]
    · rintro ⟨taken, split, h⟩
      obtain ⟨rfl, -⟩ := List.append_eq_nil_iff.1 split.symm
      obtain rfl := takes_nil.1 h
      cases none
  | cons t ts ih =>
    obtain ⟨kind, kinds⟩ := List.forall_mem_cons.1 kinds
    have unfold_taken : (∃ taken, t :: ts = taken ++ us ∧ r.Takes taken ⟨[e], []⟩) ↔
        ∃ q, r.step t = .ok q ∧ ∃ taken, ts = taken ++ us ∧ q.Takes taken ⟨[e], []⟩ := by
      constructor
      · rintro ⟨_ | ⟨t', taken⟩, split, h⟩
        · obtain rfl := takes_nil.1 h
          cases none
        · obtain ⟨rfl, rfl⟩ := List.cons.inj split
          obtain ⟨q, stepped, h⟩ := takes_cons.1 h
          exact ⟨q, stepped, taken, rfl, h⟩
      · rintro ⟨q, stepped, taken, rfl, h⟩
        exact ⟨t :: taken, rfl, takes_cons.2 ⟨q, stepped, h⟩⟩
    rw [unfold_taken]
    simp only [first]
    cases stepped : r.step t with
    | error => simp [bind, Except.bind]
    | ok q =>
      simp only [bind, Except.bind, Except.ok.injEq, exists_eq_left']
      rcases step_complete none stepped with more | ⟨e', rfl⟩
      · rw [more]
        exact ih kinds more
      · constructor
        · intro h
          obtain ⟨rfl, rfl⟩ : e' = e ∧ ts = us := by simpa using h
          exact ⟨[], rfl, takes_nil.2 rfl⟩
        · -- Nothing can be read after it without leaving something read.
          rintro ⟨taken, rfl, h⟩
          have onTop : (start.atop [e']).Takes taken ⟨[e], []⟩ := h
          obtain ⟨r', taken', atop⟩ := takes_atop.1 onTop
          obtain ⟨es, rfl, same⟩ := atop_eq_mk_nil atop
          obtain ⟨rfl, rfl⟩ : es = [] ∧ e = e' := by
            cases es <;> simp_all
          rw [Takes.eq_nil (fun t ht => kinds t (List.mem_append_left _ ht)) taken']
          rfl

end Reading

theorem kind_ne_eof_of_mem_beforeEnd {tokens : List Token} :
    ∀ t ∈ beforeEnd tokens, t.kind ≠ .eof := fun t ht => by
  simpa using List.all_eq_true.1 List.all_takeWhile t ht

theorem readOne_eq_ok {tokens : List Token} {size : Nat} {e : Expr} :
    readOne tokens size = .ok e ↔ Reading.start.Takes (beforeEnd tokens) ⟨[e], []⟩ := by
  have all : Reading.start.first (beforeEnd tokens) = .ok (some e, []) ↔
      Reading.start.Takes (beforeEnd tokens) ⟨[e], []⟩ := by
    rw [Reading.first_eq_ok kind_ne_eof_of_mem_beforeEnd rfl]
    simp only [List.append_nil, exists_eq_left']
  rw [← all, readOne]
  rcases Reading.start.first (beforeEnd tokens) with _ | ⟨_ | e', _ | ⟨t, ts⟩⟩ <;>
    simp [bind, Except.bind]

/-- The texts that are read as one expression, and as which. -/
theorem Expr.ofText_eq_ok {source : String} {e : Expr} :
    Expr.ofText source = .ok e ↔ Holds source.toList [e] := by
  simp only [Expr.ofText, bind_eq_ok, readOne_eq_ok, holds_iff]
  rfl

/-- A text that leaves a list open is not complete. -/
theorem Expr.ofProgram_incomplete {source : String} {ts : List Token} {r : Reading}
    (scans : Scans [] source.toList ts) (takes : Reading.start.Takes ts r)
    (opened : r.opened ≠ []) :
    ∃ e, Expr.ofProgram source = .error e ∧ e.isIncomplete = true := by
  obtain ⟨tokens, r', scanned, taken, rfl⟩ := scans.takes takes
  obtain ⟨done, _ | ⟨l, outer⟩⟩ := r'
  · exact absurd rfl opened
  · refine ⟨.on .unclosedList l.span, ?_, rfl⟩
    rw [Reading.Takes] at taken
    simp [Expr.ofProgram, scanned, readProgram, readAll, taken, Reading.finish, bind, Except.bind,
      Except.map]

end ScopeLisp
