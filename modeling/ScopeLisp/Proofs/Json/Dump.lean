/-
ScopeLisp.Proofs.Json.Dump — what is read back from the JSON dump of an expression.

Trees that differ in the order of the entries of their objects are related by
`JsonTree.Reorders`. Each of them that comes from an expression shows the expression
(`Expr.Shows`), also after it was written and read, and what shows an expression is read as
`Expr.restored?` says: each number as the value of its numeral, and no list that is nested
too deep. What stands under `value` is checked once more if it comes before `kind`, but a
tree that is read passes the check (`Content.allValid`), so the order does not matter.

If each number is the value of its own numeral, that is the expression itself or nothing
(`Expr.dump_reads_back`), and both happen (`Expr.dump_refused`).
-/
import ScopeLisp.Cli.Run
import ScopeLisp.Json.Expr
import ScopeLisp.Proofs.Json.ReadBack
import ScopeLisp.Proofs.Syntax.RoundTrip

namespace ScopeLisp

/-! ## The order of entries -/

namespace JsonTree

mutual

/-- The same tree but for the order of the entries of its objects. -/
inductive Reorders : JsonTree → JsonTree → Prop
  | same (t : JsonTree) : Reorders t t
  | array {ts us : List JsonTree} (items : ReordersItems ts us) : Reorders (.array ts) (.array us)
  | object {es fs gs : List (List JsonUnit × JsonTree)} (entries : ReordersEntries es fs)
    (order : fs.Perm gs) : Reorders (.object es) (.object gs)

inductive ReordersItems : List JsonTree → List JsonTree → Prop
  | nil : ReordersItems [] []
  | cons {t u : JsonTree} {ts us : List JsonTree} (item : Reorders t u)
    (items : ReordersItems ts us) : ReordersItems (t :: ts) (u :: us)

inductive ReordersEntries :
    List (List JsonUnit × JsonTree) → List (List JsonUnit × JsonTree) → Prop
  | nil : ReordersEntries [] []
  | cons {t u : JsonTree} {es fs : List (List JsonUnit × JsonTree)} (key : List JsonUnit)
    (value : Reorders t u) (entries : ReordersEntries es fs) :
    ReordersEntries ((key, t) :: es) ((key, u) :: fs)

end

theorem ReordersItems.refl : ∀ ts : List JsonTree, ReordersItems ts ts
  | [] => .nil
  | t :: ts => .cons (.same t) (.refl ts)

theorem Reorders.of_array {ts : List JsonTree} {u : JsonTree} (h : Reorders (.array ts) u) :
    ∃ us, u = .array us ∧ ReordersItems ts us := by
  cases h with
  | same => exact ⟨ts, rfl, .refl ts⟩
  | array items => exact ⟨_, rfl, items⟩

theorem plainEntries_iff {es : List (List JsonUnit × JsonTree)} :
    PlainEntries es ↔ ∀ e ∈ es, (∀ u ∈ e.1, u.IsChar) ∧ e.2.Plain := by
  induction es with
  | nil => simp [PlainEntries]
  | cons e es ih => simp [PlainEntries, ih, and_assoc]

mutual

theorem Reorders.plain : ∀ {t u : JsonTree}, Reorders t u → t.Plain → u.Plain
  | _, _, .same _, h => h
  | _, _, .array items, h => by
    rw [Plain] at h ⊢
    exact items.plain h
  | _, _, .object entries order, h => by
    rw [Plain] at h ⊢
    have plain := plainEntries_iff.1 (entries.plain h)
    exact plainEntries_iff.2 fun e he => plain e (order.mem_iff.2 he)

theorem ReordersItems.plain : ∀ {ts us : List JsonTree}, ReordersItems ts us → PlainItems ts →
    PlainItems us
  | _, _, .nil, h => h
  | _, _, .cons item items, h => ⟨item.plain h.1, items.plain h.2⟩

theorem ReordersEntries.plain : ∀ {es fs : List (List JsonUnit × JsonTree)},
    ReordersEntries es fs → PlainEntries es → PlainEntries fs
  | _, _, .nil, h => h
  | _, _, .cons _ value entries, h => ⟨h.1, value.plain h.2.1, entries.plain h.2.2⟩

end

end JsonTree

open JsonTree

namespace Expr

/-! ## Trees that show an expression -/

/-- The name of a kind. -/
def Kind.name : Kind → String
  | .number => "Number"
  | .str => "Str"
  | .symbol => "Symbol"
  | .list => "List"

theorem Kind.ofName?_name (kind : Kind) : Kind.ofName? kind.name = some kind := by
  cases kind <;> rfl

/-- The tree is an object of the kind and the value, in either order. -/
def Tagged (kind : Kind) (value t : JsonTree) : Prop :=
  t = tagged kind.name value ∨
    t = .object [(unitsOf "value", value), (unitsOf "kind", .string (unitsOf kind.name))]

/-- What a number is written as. -/
def numberTree (x : Float) : JsonTree :=
  ((JsonNumeral.ofBinary64? (.ofFloat x)).map .number).getD .null

mutual

/-- The kind of an expression, and a tree that shows what the expression holds. -/
inductive Content : Expr → Kind → JsonTree → Prop
  | number (x : Float) : Content (.number x) .number (numberTree x)
  | str {s : String} {units : List JsonUnit} (text : stringOf? units = some s) :
    Content (.str s) .str (.string units)
  | symbol {name : String} {units : List JsonUnit} (text : stringOf? units = some name) :
    Content (.symbol name) .symbol (.string units)
  | list {es : List Expr} {ts : List JsonTree} (items : ShowsItems es ts) :
    Content (.list es) .list (.array ts)

inductive ShowsItems : List Expr → List JsonTree → Prop
  | nil : ShowsItems [] []
  | cons {e : Expr} {es : List Expr} {kind : Kind} {value t : JsonTree} {ts : List JsonTree}
    (content : Content e kind value) (object : Tagged kind value t) (items : ShowsItems es ts) :
    ShowsItems (e :: es) (t :: ts)

end

/-- The tree shows the expression: its kind and what it holds, in either order. -/
def Shows (e : Expr) (t : JsonTree) : Prop :=
  ∃ kind value, Content e kind value ∧ Tagged kind value t

/-! ## Writing -/

theorem isChar_unitsOf (s : String) : ∀ u ∈ unitsOf s, u.IsChar := by
  simp [unitsOf, JsonUnit.IsChar]

theorem stringOf?_unitsOf (s : String) : stringOf? (unitsOf s) = some s := by
  have all (cs : List Char) : stringOfUnits? (cs.map .char) = some cs := by
    induction cs with
    | nil => rfl
    | cons c cs ih => rw [List.map_cons, stringOfUnits?, ih]; rfl
  rw [stringOf?, unitsOf, all, Option.map_some, String.ofList_toList]

theorem stringOf?_reread (s : String) :
    stringOf? ((unitsOf s).map JsonUnit.reread) = some s := by
  rw [stringOf?, stringOfUnits?_reread (isChar_unitsOf s)]
  exact stringOf?_unitsOf s

theorem plain_tagged {kind : String} {value : JsonTree} (h : value.Plain) :
    (tagged kind value).Plain := by
  simp only [tagged, Plain, PlainEntries, and_true]
  exact ⟨isChar_unitsOf _, isChar_unitsOf _, isChar_unitsOf _, h⟩

theorem plain_numberTree (x : Float) : (numberTree x).Plain := by
  rw [numberTree]
  cases written : JsonNumeral.ofBinary64? (.ofFloat x) with
  | none => simp [Plain]
  | some n =>
    simp only [Option.map_some, Option.getD_some, Plain]
    exact JsonNumeral.grammatical_ofBinary64? written

mutual

theorem plain_toJson : ∀ e : Expr, e.toJson.Plain
  | .number x => plain_tagged (plain_numberTree x)
  | .str s => plain_tagged (by rw [Plain]; exact isChar_unitsOf s)
  | .symbol s => plain_tagged (by rw [Plain]; exact isChar_unitsOf s)
  | .list items => plain_tagged (by rw [Plain]; exact plain_toJsonItems items)

theorem plain_toJsonItems : ∀ es : List Expr, PlainItems (toJsonItems es)
  | [] => trivial
  | e :: es => ⟨plain_toJson e, plain_toJsonItems es⟩

end

/-- An object of kind and value stays one in whatever order its entries stand. -/
theorem tagged_of_reorders (kind : Kind) {value t : JsonTree}
    (h : Reorders (tagged kind.name value) t) : ∃ v, Reorders value v ∧ Tagged kind v t := by
  cases h with
  | same => exact ⟨value, .same value, .inl rfl⟩
  | object entries order =>
    obtain _ | ⟨-, named, others⟩ := entries
    obtain _ | ⟨-, held, none⟩ := others
    cases named
    cases none
    exact ⟨_, held, (List.perm_pair.1 order.symm).imp (congrArg _) (congrArg _)⟩

/-- Writing and reading keeps an object of kind and value. -/
theorem Tagged.reread {kind : Kind} {value t : JsonTree} (h : Tagged kind value t) :
    Tagged kind value.reread t.reread := by
  have key : (unitsOf "kind").map JsonUnit.reread = unitsOf "kind" := by decide
  have key' : (unitsOf "value").map JsonUnit.reread = unitsOf "value" := by decide
  have name : (unitsOf kind.name).map JsonUnit.reread = unitsOf kind.name := by
    cases kind <;> decide
  rcases h with rfl | rfl <;>
    simp [Tagged, tagged, JsonTree.reread, rereadEntries, key, key', name]

theorem numberTree_cases (x : Float) :
    numberTree x = .null ∨ ∃ n, numberTree x = .number n := by
  rw [numberTree]
  cases JsonNumeral.ofBinary64? (.ofFloat x) with
  | none => exact .inl rfl
  | some n => exact .inr ⟨n, rfl⟩

theorem reread_numberTree (x : Float) : (numberTree x).reread = numberTree x := by
  rcases numberTree_cases x with none | ⟨n, some⟩
  · rw [none, JsonTree.reread]
  · rw [some, JsonTree.reread]

theorem eq_numberTree_of_reorders {x : Float} {t : JsonTree} (h : Reorders (numberTree x) t) :
    t = numberTree x := by
  rcases numberTree_cases x with none | ⟨n, some⟩
  · rw [none] at h ⊢
    cases h
    rfl
  · rw [some] at h ⊢
    cases h
    rfl

mutual

/-- **What an expression is dumped as shows it**, in any order of the entries, as soon as it
is written and read. -/
theorem shows_of_reorders : ∀ (e : Expr) {t : JsonTree}, Reorders e.toJson t → e.Shows t.reread
  | .number x, t, h => by
    obtain ⟨v, same, object⟩ := tagged_of_reorders .number h
    rw [eq_numberTree_of_reorders same] at object
    exact ⟨.number, _, .number x, reread_numberTree x ▸ object.reread⟩
  | .str s, t, h => by
    obtain ⟨v, same, object⟩ := tagged_of_reorders .str h
    cases same
    exact ⟨.str, _, .str (stringOf?_reread s), object.reread⟩
  | .symbol s, t, h => by
    obtain ⟨v, same, object⟩ := tagged_of_reorders .symbol h
    cases same
    exact ⟨.symbol, _, .symbol (stringOf?_reread s), object.reread⟩
  | .list items, t, h => by
    obtain ⟨v, same, object⟩ := tagged_of_reorders .list h
    obtain ⟨ts, rfl, reordered⟩ := same.of_array
    exact ⟨.list, _, .list (showsItems_of_reorders items reordered), object.reread⟩

theorem showsItems_of_reorders : ∀ (es : List Expr) {ts : List JsonTree},
    ReordersItems (toJsonItems es) ts → ShowsItems es (rereadItems ts)
  | [], _, .nil => .nil
  | e :: es, _, .cons item items => by
    obtain ⟨kind, value, content, object⟩ := shows_of_reorders e item
    exact .cons content object (showsItems_of_reorders es items)

end

/-! ## Reading -/

mutual

/-- The expression that is read where one was dumped: a list nested deeper than `depth` is
none, and a number is the value of its numeral, if it has one. -/
def restored? : ℕ → Expr → Option Expr
  | _, .number x => ((JsonNumeral.ofBinary64? (.ofFloat x)).bind JsonNumeral.value?).map .number
  | _, .str s => some (.str s)
  | _, .symbol name => some (.symbol name)
  | 0, .list _ => none
  | depth + 1, .list items => (restoredItems? depth items).map .list

def restoredItems? (depth : ℕ) : List Expr → Option (List Expr)
  | [] => some []
  | e :: es => do some ((← restored? depth e) :: (← restoredItems? depth es))

end

/-- The two parts of an object are found in either order, except that what is not valid is
refused where it comes first. -/
theorem parts?_of_tagged {kind : Kind} {value t : JsonTree} (h : Tagged kind value t)
    (depth : ℕ) : parts? depth t = some (kind, value) ∨
      allValid depth value = false ∧ parts? depth t = none := by
  have named : kindOf? depth (.string (unitsOf kind.name)) = some kind := by
    simp [kindOf?, stringOf?_unitsOf, Kind.ofName?_name]
  have different : ¬ "value" = "kind" := by decide
  rcases h with rfl | rfl
  · left
    simp [parts?, tagged, Entries.gather, stringOf?_unitsOf, named, different]
  · cases valid : allValid depth value
    · right
      simp [parts?, Entries.gather, stringOf?_unitsOf, different, valid]
    · left
      simp [parts?, Entries.gather, stringOf?_unitsOf, named, different, valid]

theorem isSome_of_stringOf? {units : List JsonUnit} {s : String} (h : stringOf? units = some s) :
    (stringOfUnits? units).isSome = true := by
  have := congrArg Option.isSome h
  rwa [stringOf?, Option.isSome_map] at this

theorem allValid_of_tagged {kind : Kind} {value t : JsonTree} (h : Tagged kind value t)
    {depth : ℕ} (valid : allValid (depth + 1) value = true) : allValid (depth + 2) t = true := by
  have string (s : String) := isSome_of_stringOf? (stringOf?_unitsOf s)
  rcases h with rfl | rfl <;> simp [tagged, allValid, allValidEntries, string, valid]

mutual

/-- What is restored is valid in all its parts. -/
theorem Content.allValid : ∀ {depth : ℕ} {e : Expr} {kind : Kind} {value : JsonTree},
    Content e kind value → (e.restored? depth).isSome = true →
      Expr.allValid (2 * depth + 1) value = true
  | _, _, _, _, .number x, h => by
    rw [restored?] at h
    rw [numberTree]
    cases written : JsonNumeral.ofBinary64? (.ofFloat x) with
    | none => rfl
    | some n =>
      rw [written, Option.isSome_map] at h
      exact h
  | _, _, _, _, .str text, _ => isSome_of_stringOf? text
  | _, _, _, _, .symbol text, _ => isSome_of_stringOf? text
  | 0, _, _, _, .list _, h => by
    rw [restored?] at h
    cases h
  | depth + 1, _, _, _, .list items, h => by
    rw [restored?, Option.isSome_map] at h
    exact items.allValid h

theorem ShowsItems.allValid : ∀ {depth : ℕ} {es : List Expr} {ts : List JsonTree},
    ShowsItems es ts → (restoredItems? depth es).isSome = true →
      allValidItems (2 * depth + 2) ts = true
  | _, _, _, .nil, _ => rfl
  | _, _, _, .cons content tag items, h => by
    obtain ⟨all, restored⟩ := Option.isSome_iff_exists.1 h
    simp only [restoredItems?, Option.bind_eq_bind, Option.bind_eq_some_iff] at restored
    obtain ⟨e, one, es, others, -⟩ := restored
    rw [allValidItems, Bool.and_eq_true]
    exact ⟨allValid_of_tagged tag (content.allValid (by rw [one]; rfl)),
      items.allValid (by rw [others]; rfl)⟩

end

mutual

/-- **What shows an expression is read as what is restored of it.** Two levels of containers
go to each level of lists, the object and the array in it. -/
theorem Content.ofTree? : ∀ {depth : ℕ} {e : Expr} {kind : Kind} {value t : JsonTree},
    Content e kind value → Tagged kind value t →
      Expr.ofTree? (2 * depth + 2) t = e.restored? depth
  | depth, e, kind, value, t, content, tag => by
    rw [Expr.ofTree?]
    on_goal 2 => omega
    rcases parts?_of_tagged tag (2 * depth + 1) with found | ⟨invalid, refused⟩
    · rw [found]
      cases content with
      | number x =>
        rw [numberTree, restored?]
        cases JsonNumeral.ofBinary64? (.ofFloat x) <;> rfl
      | str text => simp [text, restored?]
      | symbol text => simp [text, restored?]
      | list items =>
        cases depth with
        | zero => rfl
        | succ depth =>
          rw [restored?, ← items.ofTree?]
          rfl
    · have none : e.restored? depth = none := by
        rw [← Option.not_isSome_iff_eq_none]
        intro restored
        simp [content.allValid restored] at invalid
      rw [refused, none]
      rfl

theorem ShowsItems.ofTree? : ∀ {depth : ℕ} {es : List Expr} {ts : List JsonTree},
    ShowsItems es ts → ts.mapM (Expr.ofTree? (2 * depth + 2)) = restoredItems? depth es
  | _, _, _, .nil => rfl
  | _, _, _, .cons content tag items => by
    rw [List.mapM_cons, content.ofTree? tag, items.ofTree?, restoredItems?]
    rfl

end

/-! ## Numbers in an expression -/

theorem number_occurs_list {x : Float} {items : List Expr} :
    (number x).Occurs (.list items) ↔ ∃ e ∈ items, (number x).Occurs e := by
  constructor
  · rintro ⟨⟩
    exact ⟨_, ‹_›, ‹_›⟩
  · rintro ⟨e, mem, occurs⟩
    exact .item mem occurs

theorem number_occurs_number {x y : Float} : (number x).Occurs (.number y) ↔ x = y := by
  constructor
  · rintro ⟨⟩
    rfl
  · rintro rfl
    exact .self

theorem not_number_occurs_str {x : Float} {s : String} : ¬ (number x).Occurs (.str s) := nofun

theorem not_number_occurs_symbol {x : Float} {name : String} :
    ¬ (number x).Occurs (.symbol name) := nofun

/-! ## Whole dumps -/

/-- The number is the value of the numeral that it is written as. -/
def KeepsNumber (x : Float) : Prop :=
  ∀ n, JsonNumeral.ofBinary64? (.ofFloat x) = some n → n.value? = some x

mutual

/-- How deep lists are nested in an expression. -/
def nesting : Expr → ℕ
  | .list items => nestingItems items + 1
  | _ => 0

def nestingItems : List Expr → ℕ
  | [] => 0
  | e :: es => max e.nesting (nestingItems es)

end

/-- A dump of the expression can be read: its lists are not nested too deep, and all its
numbers are finite. Each list takes two containers, an object and an array, and an atom in
the innermost one takes one more, so 63 lists are as many as `maxNesting` leaves room for. -/
structure Restorable (e : Expr) : Prop where
  shallow : e.nesting ≤ 63
  finite : ∀ x, (number x).Occurs e → x.isFinite = true

theorem ofBinary64?_eq_none {x : Float} (h : x.isFinite = false) :
    JsonNumeral.ofBinary64? (.ofFloat x) = none := by
  cases decoded : Binary64.ofFloat x with
  | nan => rfl
  | infinite negative => rfl
  | finite negative m e => simp [Binary64.isFinite_of_ofFloat decoded] at h

theorem KeepsNumber.read {x : Float} (h : KeepsNumber x) :
    (JsonNumeral.ofBinary64? (.ofFloat x)).bind JsonNumeral.value? =
      if x.isFinite then some x else none := by
  cases finite : x.isFinite with
  | false => rw [ofBinary64?_eq_none finite]; rfl
  | true =>
    obtain ⟨negative, m, e, decoded⟩ := Binary64.ofFloat_of_isFinite finite
    rw [decoded, JsonNumeral.ofBinary64?, Option.bind_some]
    exact h _ (by rw [decoded, JsonNumeral.ofBinary64?])

mutual

/-- What is restored is the expression itself, if its numbers are kept. -/
theorem restored?_eq_some : ∀ {e : Expr}, (∀ x, (number x).Occurs e → KeepsNumber x) →
    ∀ (depth : ℕ) (q : Expr), e.restored? depth = some q ↔
      q = e ∧ e.nesting ≤ depth ∧ ∀ x, (number x).Occurs e → x.isFinite = true
  | .number x, h, depth, q => by
    rw [restored?, (h x .self).read]
    cases finite : x.isFinite <;> simp [nesting, number_occurs_number, finite, @eq_comm _ q]
  | .str s, _, depth, q => by
    simp [restored?, nesting, not_number_occurs_str, @eq_comm _ q]
  | .symbol name, _, depth, q => by
    simp [restored?, nesting, not_number_occurs_symbol, @eq_comm _ q]
  | .list items, h, 0, q => by simp [restored?, nesting]
  | .list items, h, depth + 1, q => by
    have inside := restoredItems?_eq_some
      (fun (e : Expr) (mem : e ∈ items) x occurs => h x (.item mem occurs)) depth
    simp only [restored?, Option.map_eq_some_iff, inside, nesting, Nat.add_le_add_iff_right,
      number_occurs_list]
    grind

theorem restoredItems?_eq_some : ∀ {es : List Expr},
    (∀ e ∈ es, ∀ x, (number x).Occurs e → KeepsNumber x) → ∀ (depth : ℕ) (qs : List Expr),
      restoredItems? depth es = some qs ↔
        qs = es ∧ nestingItems es ≤ depth ∧
          ∀ e ∈ es, ∀ x, (number x).Occurs e → x.isFinite = true
  | [], _, depth, qs => by
    simp only [restoredItems?, nestingItems, Option.some.injEq, List.not_mem_nil, Nat.zero_le,
      and_true, false_implies, implies_true]
    exact eq_comm
  | e :: es, h, depth, qs => by
    obtain ⟨one, others⟩ := List.forall_mem_cons.1 h
    have first := restored?_eq_some one depth
    have rest := restoredItems?_eq_some others depth
    simp only [restoredItems?, Option.bind_eq_bind, Option.bind_eq_some_iff, first, rest,
      nestingItems, Nat.max_le, List.forall_mem_cons]
    grind

end

/-- A dump is read if the expression is restorable, and as the expression. -/
theorem ofJson?_eq_some {p : Expr} (keeps : ∀ x, (number x).Occurs p → KeepsNumber x)
    {t : JsonTree} (order : p.toJson.Reorders t) {text : String}
    (read : JsonTree.ofText? text = some t.reread) (q : Expr) :
    ofJson? text = some q ↔ q = p ∧ p.Restorable := by
  obtain ⟨kind, value, content, tag⟩ := shows_of_reorders p order
  have restored : ofJson? text = p.restored? 63 := by
    simp only [ofJson?, read, Option.bind_eq_bind, Option.bind_some]
    change Expr.ofTree? (2 * 63 + 2) t.reread = p.restored? 63
    exact content.ofTree? tag
  rw [restored, restored?_eq_some keeps]
  exact and_congr_right fun _ => ⟨fun h => ⟨h.1, h.2⟩, fun h => ⟨h.shallow, h.finite⟩⟩

theorem ofJson?_printed_eq_some {source : String} {p : Expr}
    (keeps : ∀ x, (number x).Occurs p → KeepsNumber x) (read : ofProgram source = .ok p)
    (q : Expr) :
    ofJson? (Cli.showProgram true source).printed = some q ↔ q = p ∧ p.Restorable := by
  have printed : (Cli.showProgram true source).printed = p.toJson.indented ++ "\n" := by
    rw [Cli.showProgram, read]
    rfl
  rw [printed]
  exact ofJson?_eq_some keeps (.same _) (plain_toJson p).ofText?.2.2 q

/-- **The dump of a program reads back**, to the program itself, if its lists are nested at
most 63 deep and its numbers are finite, and it is refused otherwise. That is so for what is
printed for a source text, and for each tree with the same entries in any order, on one line
or indented. Each number is taken to be the value of its own numeral. -/
theorem dump_reads_back {p : Expr} (keeps : ∀ x, (number x).Occurs p → KeepsNumber x) (q : Expr) :
    (∀ source, ofProgram source = .ok p →
      (ofJson? (Cli.showProgram true source).printed = some q ↔ q = p ∧ p.Restorable)) ∧
    ∀ t, p.toJson.Reorders t →
      (ofJson? t.compact = some q ↔ q = p ∧ p.Restorable) ∧
      (ofJson? t.indented = some q ↔ q = p ∧ p.Restorable) := by
  refine ⟨fun source read => ofJson?_printed_eq_some keeps read q, fun t order => ?_⟩
  obtain ⟨compact, indented, -⟩ := (order.plain (plain_toJson p)).ofText?
  exact ⟨ofJson?_eq_some keeps order compact q, ofJson?_eq_some keeps order indented q⟩

/-- A number is kept if its numeral, once written, has it as its value. -/
theorem keepsNumber_of_bits {bits : UInt64} {n : JsonNumeral}
    (written : JsonNumeral.ofBinary64? (.ofFloat (.ofBits bits)) = some n)
    (read : n.value?.map Float.toBits = some bits) : KeepsNumber (.ofBits bits) := by
  rintro n' same
  obtain rfl : n = n' := Option.some.inj (written.symm.trans same)
  obtain ⟨x, value, rfl⟩ := Option.map_eq_some_iff.1 read
  rw [value, Float.ofBits_toBits]

/-- A program with a string that is written with escapes, and a fraction. -/
theorem dump_reads_back_escapes :
    let source := "(f \"\\\"\\n\" -1.5)"
    let p : Expr := block [form "f" [.str "\"\n", .number (.ofBits 0xBFF8000000000000)]]
    (∀ x, (number x).Occurs p → KeepsNumber x) ∧ ofProgram source = .ok p ∧ p.Restorable ∧
      ofJson? (Cli.showProgram true source).printed = some p := by
  intro source p
  have only : ∀ x, (number x).Occurs p → x = .ofBits 0xBFF8000000000000 := by
    intro x h
    simpa [p, block, form, number_occurs_list, number_occurs_number, not_number_occurs_str,
      not_number_occurs_symbol] using h
  have keeps : ∀ x, (number x).Occurs p → KeepsNumber x := by
    intro x h
    rw [only x h]
    exact keepsNumber_of_bits (n := ⟨true, ['1'], ['5'], none⟩) (by decide +kernel)
      (by decide +kernel)
  have scanned : Token.scan source = .ok
      [⟨.leftParen, ⟨0, 1⟩, "("⟩, ⟨.symbol, ⟨1, 2⟩, "f"⟩, ⟨.string, ⟨3, 9⟩, "\"\\\"\\n\""⟩,
        ⟨.number, ⟨10, 14⟩, "-1.5"⟩, ⟨.rightParen, ⟨14, 15⟩, ")"⟩, ⟨.eof, ⟨15, 15⟩, ""⟩] := by
    cbv
  have read : ofProgram source = .ok p := by
    rw [ofProgram, scanned]
    rfl
  have restorable : p.Restorable := ⟨by decide, fun x h => by rw [only x h]; decide⟩
  exact ⟨keeps, read, restorable, ((dump_reads_back keeps p).1 source read).2 ⟨rfl, restorable⟩⟩

/-! ## Dumps that are refused -/

/-- Lists in lists, `depth` around an empty one. -/
def nested : ℕ → Expr
  | 0 => .list []
  | depth + 1 => .list [nested depth]

theorem reads_nested (depth : ℕ) : ∀ rest : List Char,
    ScopeLisp.Reads rest ((nested depth).write rest) [nested depth] := by
  induction depth with
  | zero => exact fun rest => ScopeLisp.Reads.done.list
  | succ depth ih => exact fun rest => (ih (')' :: rest)).list

theorem ofProgram_nested (depth : ℕ) : ofProgram (nested depth).text = .ok (block [nested depth]) :=
  ofProgram_eq_ok.2
    ⟨_, by rw [text, String.toList_ofList]; exact (reads_nested depth []).holds, rfl⟩

theorem nesting_nested (depth : ℕ) : (nested depth).nesting = depth + 1 := by
  induction depth with
  | zero => rfl
  | succ depth ih => simp [nested, nesting, nestingItems, ih]

theorem not_number_occurs_nested (x : Float) (depth : ℕ) : ¬ (number x).Occurs (nested depth) := by
  induction depth with
  | zero => simp [nested, number_occurs_list]
  | succ depth ih => simpa [nested, number_occurs_list] using ih

/-- What is not restorable is refused. -/
theorem ofJson?_printed_eq_none {source : String} {p : Expr} (read : ofProgram source = .ok p)
    (keeps : ∀ x, (number x).Occurs p → KeepsNumber x) (h : ¬ p.Restorable) :
    ofJson? (Cli.showProgram true source).printed = none := by
  rw [Option.eq_none_iff_forall_ne_some]
  intro q restored
  exact h ((ofJson?_printed_eq_some keeps read q).1 restored).2

/-- A numeral that is too large for any finite number: one, and 309 zeros. -/
def overlarge : PlainNumeral :=
  ⟨'1' :: List.replicate 309 '0', [], List.cons_ne_nil _ _,
    List.forall_mem_cons.2 ⟨rfl, isDigit_of_mem_zeros 309⟩, nofun⟩

/-- Positive infinity. -/
def infinity : Float := .ofBits 0x7FF0000000000000

theorem readNumeral_overlarge : readNumeral (String.ofList overlarge.text) = some infinity := by
  have value : (nearestDecimal false overlarge.digits 0).toBits = 0x7FF0000000000000 := by
    decide +kernel
  rw [infinity, ← value, Float.ofBits_toBits]
  exact overlarge.readNumeral_text false

theorem ofProgram_overlarge :
    ofProgram (String.ofList overlarge.text) = .ok (block [.number infinity]) := by
  have value : Token.atom? ⟨.number, .point 0, String.ofList overlarge.text⟩ =
      some (.number infinity) := by
    simp [Token.atom?, readNumeral_overlarge]
  have reads := ScopeLisp.Reads.atom (overlarge.isToken false) LineEnd.nil.delimited value
  rw [List.append_nil] at reads
  refine ofProgram_eq_ok.2 ⟨_, ?_, rfl⟩
  rw [String.toList_ofList]
  exact reads.holds

/-- **Some dumps are refused.** Lists that are nested 64 deep, with the block around them,
are, though no number stands in them, and so is a number that is not finite, for which
`null` is written. -/
theorem dump_refused :
    (ofProgram (nested 62).text = .ok (block [nested 62]) ∧
      (∀ x, ¬ (number x).Occurs (block [nested 62])) ∧
        ofJson? (Cli.showProgram true (nested 62).text).printed = none) ∧
    (ofProgram (String.ofList overlarge.text) = .ok (block [.number infinity]) ∧
      (∀ x, (number x).Occurs (block [.number infinity]) → KeepsNumber x) ∧
        ofJson? (Cli.showProgram true (String.ofList overlarge.text)).printed = none) := by
  have none_occurs : ∀ x, ¬ (number x).Occurs (block [nested 62]) := by
    intro x
    simp [block, form, number_occurs_list, not_number_occurs_symbol, not_number_occurs_nested]
  have deep : ¬ (block [nested 62]).Restorable := by
    intro restorable
    have shallow := restorable.shallow
    simp [block, form, nesting, nestingItems, nesting_nested] at shallow
  have keeps : ∀ x, (number x).Occurs (block [.number infinity]) → KeepsNumber x := by
    intro x h n written
    obtain rfl : x = infinity := by
      simpa [block, form, number_occurs_list, number_occurs_number, not_number_occurs_symbol]
        using h
    rw [ofBinary64?_eq_none (by decide)] at written
    cases written
  have infinite : ¬ (block [.number infinity]).Restorable := by
    intro restorable
    have finite := restorable.finite infinity (.item (by simp) .self)
    exact absurd finite (by decide)
  refine ⟨⟨ofProgram_nested 62, none_occurs, ?_⟩, ofProgram_overlarge, keeps, ?_⟩
  · exact ofJson?_printed_eq_none (ofProgram_nested 62) (fun x h => absurd h (none_occurs x)) deep
  · exact ofJson?_printed_eq_none ofProgram_overlarge keeps infinite

end Expr

end ScopeLisp
