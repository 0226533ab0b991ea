/-
ScopeLisp.Proofs.Json.ReadBack — a written JSON tree is read back.

`Reads rest cs t` says that the characters `cs`, up to where `rest` is left, are read as
the tree `t`, with any fuel of more than twice their number. There is one rule for each way
to write a value, blanks included, and by recursion over a tree whose numerals and strings
are plain (`Plain`) its text, on one line or indented, is read as the tree again, strings
in the units they are read in (`reread`).
-/
import ScopeLisp.Proofs.Json.Scalars

namespace ScopeLisp

namespace JsonTree

/-! ## Blanks -/

theorem skipBlanks_skipBlanks (cs : List Char) : skipBlanks (skipBlanks cs) = skipBlanks cs :=
  List.dropWhile_idempotent ..

theorem length_skipBlanks_le (cs : List Char) : (skipBlanks cs).length ≤ cs.length :=
  (List.dropWhile_suffix _).length_le

/-- What follows a character and the blanks before it is shorter than all of them. -/
theorem length_lt_of_skipBlanks {cs rest : List Char} {c : Char}
    (h : skipBlanks cs = c :: rest) : rest.length < cs.length := by
  have := length_skipBlanks_le cs
  rw [h, List.length_cons] at this
  omega

theorem skipBlanks_writeLine (level : ℕ) (cs : List Char) :
    skipBlanks (writeLine level cs) = skipBlanks cs := by
  have indent : ∀ c ∈ List.replicate (2 * level) ' ', isJsonBlank c = true := by
    intro c hc
    rw [List.eq_of_mem_replicate hc]
    rfl
  rw [writeLine, skipBlanks, List.dropWhile_cons_of_pos rfl, List.dropWhile_append_of_pos indent]
  rfl

theorem length_le_writeLine (level : ℕ) (cs : List Char) :
    cs.length ≤ (writeLine level cs).length := by
  simp [writeLine]
  omega

/-! ## Values -/

/-- The characters `cs`, up to where `rest` is left, are read as `t`. -/
structure Reads (rest cs : List Char) (t : JsonTree) : Prop where
  shorter : rest.length < cs.length
  read : ∀ fuel, 2 * cs.length < fuel → readValue fuel cs = some (t, rest)

/-- The characters `cs` are read as the items of an array that is closed before `rest`. -/
structure ReadsElements (rest cs : List Char) (ts : List JsonTree) : Prop where
  shorter : rest.length < cs.length
  read : ∀ fuel before, 2 * cs.length + 1 < fuel →
    readElements fuel before cs = some (.array (before.reverse ++ ts), rest)

/-- The characters `cs` are read as the entries of an object that is closed before `rest`. -/
structure ReadsEntries (rest cs : List Char) (es : List (List JsonUnit × JsonTree)) : Prop where
  shorter : rest.length < cs.length
  read : ∀ fuel before, 2 * cs.length + 1 < fuel →
    readEntries fuel before cs = some (.object (before.reverse ++ es), rest)

section rules

variable {rest mid next cs : List Char} {t : JsonTree} {ts : List JsonTree}

/-! ### Blanks before a part -/

theorem readValue_skipBlanks (fuel : ℕ) (cs : List Char) :
    readValue fuel (skipBlanks cs) = readValue fuel cs := by
  cases fuel with
  | zero => rfl
  | succ fuel => rw [readValue, readValue, skipBlanks_skipBlanks]

theorem readElements_succ (fuel : ℕ) (before : List JsonTree) (cs : List Char) :
    readElements (fuel + 1) before cs =
      (readValue fuel cs).bind fun found =>
        match skipBlanks found.2 with
        | ',' :: rest => readElements fuel (found.1 :: before) rest
        | ']' :: rest => some (.array (found.1 :: before).reverse, rest)
        | _ => none :=
  rfl

theorem readElements_skipBlanks (fuel : ℕ) (before : List JsonTree) (cs : List Char) :
    readElements fuel before (skipBlanks cs) = readElements fuel before cs := by
  cases fuel with
  | zero => rfl
  | succ fuel => rw [readElements_succ, readElements_succ, readValue_skipBlanks]

theorem readEntries_skipBlanks (fuel : ℕ) (before : List (List JsonUnit × JsonTree))
    (cs : List Char) : readEntries fuel before (skipBlanks cs) = readEntries fuel before cs := by
  cases fuel with
  | zero => rfl
  | succ fuel => rw [readEntries, readEntries, skipBlanks_skipBlanks]

/-- A value is read as it is with more blanks before it. -/
theorem Reads.after_blanks (h : Reads rest cs t) {cs' : List Char}
    (same : skipBlanks cs' = skipBlanks cs) (longer : cs.length ≤ cs'.length) :
    Reads rest cs' t := by
  refine ⟨h.shorter.trans_le longer, fun fuel enough => ?_⟩
  rw [← readValue_skipBlanks, same, readValue_skipBlanks]
  exact h.read fuel (by omega)

theorem Reads.blank (h : Reads rest cs t) : Reads rest (' ' :: cs) t :=
  h.after_blanks rfl (Nat.le_succ _)

theorem Reads.line (h : Reads rest cs t) (level : ℕ) : Reads rest (writeLine level cs) t :=
  h.after_blanks (skipBlanks_writeLine level cs) (length_le_writeLine level cs)

/-! ### Scalars -/

/-- A value is read as soon as there is any fuel, if it holds no others. -/
theorem Reads.scalar (shorter : rest.length < cs.length)
    (read : ∀ fuel, readValue (fuel + 1) cs = some (t, rest)) : Reads rest cs t :=
  ⟨shorter, fun
    | 0, h => absurd h (Nat.not_lt_zero _)
    | fuel + 1, _ => read fuel⟩

theorem Reads.null : Reads rest ("null".toList ++ rest) .null :=
  .scalar (by simp; omega) fun _ => rfl

theorem Reads.bool_true : Reads rest ("true".toList ++ rest) (.bool true) :=
  .scalar (by simp; omega) fun _ => rfl

theorem Reads.bool_false : Reads rest ("false".toList ++ rest) (.bool false) :=
  .scalar (by simp; omega) fun _ => rfl

theorem Reads.string {units : List JsonUnit} (chars : ∀ u ∈ units, u.IsChar) :
    Reads rest (writeUnits units rest) (.string (units.map JsonUnit.reread)) := by
  refine .scalar (by simp [writeUnits]; omega) fun fuel => ?_
  change (readUnits _ [] (units.flatMap JsonUnit.write ++ '"' :: rest) >>= _) = _
  rw [readUnits_string chars rest rfl]
  rfl

theorem not_blank_of_isDigit {c : Char} (digit : c.isDigit = true) : isJsonBlank c = false := by
  rw [Bool.eq_false_iff]
  intro blank
  simp only [isJsonBlank, Bool.or_eq_true, beq_iff_eq] at blank
  rcases blank with ((rfl | rfl) | rfl) | rfl <;> cases digit

/-- What starts with a digit is read as a numeral. -/
theorem readValue_digit {c : Char} {n : JsonNumeral} (digit : c.isDigit = true)
    (h : readJsonNumeral false (c :: cs) = some (n, rest)) (fuel : ℕ) :
    readValue (fuel + 1) (c :: cs) = some (.number n, rest) := by
  have first : skipBlanks (c :: cs) = c :: cs :=
    List.dropWhile_cons_of_neg (by simp [not_blank_of_isDigit digit])
  rw [readValue, first]
  split
  case h_8 =>
    rw [h]
    rfl
  all_goals
    rename_i other
    obtain ⟨rfl, -⟩ := List.cons.inj other
    cases digit

theorem Reads.number {n : JsonNumeral} (h : n.Grammatical) (ends : Ends rest) :
    Reads rest (n.write rest) (.number n) := by
  have read := h.reads ends
  obtain ⟨d, ds, whole⟩ := List.exists_cons_of_ne_nil h.nonempty
  have digit : d.isDigit = true := h.whole_digits d (whole ▸ List.mem_cons_self)
  have shorter := h.length_lt rest
  obtain ⟨cs, text⟩ : ∃ cs, n.unsignedText rest = d :: cs :=
    ⟨_, by rw [JsonNumeral.unsignedText, whole]; rfl⟩
  rw [JsonNumeral.write_eq]
  cases negative : n.negative <;> rw [negative] at read
  · rw [text] at read shorter ⊢
    exact .scalar shorter (readValue_digit digit read)
  · refine .scalar (shorter.trans (Nat.lt_succ_self _)) fun fuel => ?_
    change (readJsonNumeral true (n.unsignedText rest) >>= _) = _
    rw [read]
    rfl

/-! ### Arrays -/

/-- No item starts with the bracket that closes an array. -/
theorem readElements_closing (h : skipBlanks cs = ']' :: next) (fuel : ℕ)
    (before : List JsonTree) : readElements fuel before cs = none := by
  rcases fuel with _ | _ | fuel
  · rfl
  · rfl
  · rw [readElements_succ, readValue, h]
    rfl

/-- The last item, before the bracket. -/
theorem ReadsElements.last (h : Reads mid cs t) (closed : skipBlanks mid = ']' :: rest) :
    ReadsElements rest cs [t] := by
  refine ⟨(length_lt_of_skipBlanks closed).trans h.shorter, fun fuel before enough => ?_⟩
  obtain ⟨fuel, rfl⟩ := Nat.exists_eq_succ_of_ne_zero (Nat.ne_zero_of_lt enough)
  rw [readElements_succ, h.read fuel (by omega), Option.bind_some]
  simp [closed]

/-- An item, before a comma and others. -/
theorem ReadsElements.cons (h : Reads mid cs t) (comma : skipBlanks mid = ',' :: next)
    (others : ReadsElements rest next ts) : ReadsElements rest cs (t :: ts) := by
  have shorter := (length_lt_of_skipBlanks comma).trans h.shorter
  refine ⟨others.shorter.trans shorter, fun fuel before enough => ?_⟩
  obtain ⟨fuel, rfl⟩ := Nat.exists_eq_succ_of_ne_zero (Nat.ne_zero_of_lt enough)
  rw [readElements_succ, h.read fuel (by omega), Option.bind_some]
  simp [comma, others.read fuel (t :: before) (by omega)]

theorem Reads.emptyArray : Reads rest ('[' :: ']' :: rest) (.array []) :=
  .scalar (by simp) fun _ => rfl

theorem readValue_array (fuel : ℕ) (cs : List Char) :
    readValue (fuel + 1) ('[' :: cs) =
      match skipBlanks cs with
      | ']' :: rest => some (.array [], rest)
      | items => readElements fuel [] items :=
  rfl

theorem Reads.array (h : ReadsElements rest cs ts) : Reads rest ('[' :: cs) (.array ts) := by
  refine ⟨h.shorter.trans (Nat.lt_succ_self _), fun fuel enough => ?_⟩
  obtain ⟨fuel, rfl⟩ := Nat.exists_eq_succ_of_ne_zero (Nat.ne_zero_of_lt enough)
  rw [List.length_cons] at enough
  have read := h.read fuel [] (by omega)
  rw [readValue_array]
  split
  -- An item can be read, so what comes first is not the bracket of an empty array.
  next closing => simp [readElements_closing closing] at read
  next => rw [readElements_skipBlanks, read]; rfl

/-! ### Objects -/

variable {inner : List Char} {key : List JsonUnit} {es : List (List JsonUnit × JsonTree)}

theorem length_lt_of_key (written : skipBlanks cs = writeUnits key inner) :
    inner.length < cs.length := by
  have := length_skipBlanks_le cs
  simp only [written, writeUnits, List.length_cons, List.length_append] at this
  omega

theorem readEntries_succ (fuel : ℕ) (before : List (List JsonUnit × JsonTree)) (cs : List Char) :
    readEntries (fuel + 1) before ('"' :: cs) =
      (readUnits (cs.length + 1) [] cs).bind fun key =>
        match skipBlanks key.2 with
        | ':' :: rest =>
          (readValue fuel rest).bind fun value =>
            match skipBlanks value.2 with
            | ',' :: rest => readEntries fuel ((key.1, value.1) :: before) rest
            | '\x7d' :: rest => some (.object ((key.1, value.1) :: before).reverse, rest)
            | _ => none
        | _ => none :=
  rfl

/-- The last entry, before the brace. -/
theorem ReadsEntries.last (chars : ∀ u ∈ key, u.IsChar)
    (written : skipBlanks cs = writeUnits key (':' :: inner)) (h : Reads mid inner t)
    (closed : skipBlanks mid = '\x7d' :: rest) :
    ReadsEntries rest cs [(key.map JsonUnit.reread, t)] := by
  have shorter := Nat.lt_of_succ_lt (length_lt_of_key written)
  refine ⟨(length_lt_of_skipBlanks closed).trans (h.shorter.trans shorter),
    fun fuel before enough => ?_⟩
  obtain ⟨fuel, rfl⟩ := Nat.exists_eq_succ_of_ne_zero (Nat.ne_zero_of_lt enough)
  have colon : skipBlanks (':' :: inner) = ':' :: inner := rfl
  rw [← readEntries_skipBlanks, written, writeUnits, readEntries_succ,
    readUnits_string chars _ rfl, Option.bind_some]
  simp [colon, h.read fuel (by omega), closed]

/-- An entry, before a comma and others. -/
theorem ReadsEntries.cons (chars : ∀ u ∈ key, u.IsChar)
    (written : skipBlanks cs = writeUnits key (':' :: inner)) (h : Reads mid inner t)
    (comma : skipBlanks mid = ',' :: next) (others : ReadsEntries rest next es) :
    ReadsEntries rest cs ((key.map JsonUnit.reread, t) :: es) := by
  have shorter := Nat.lt_of_succ_lt (length_lt_of_key written)
  have left := (length_lt_of_skipBlanks comma).trans h.shorter
  refine ⟨others.shorter.trans (left.trans shorter), fun fuel before enough => ?_⟩
  obtain ⟨fuel, rfl⟩ := Nat.exists_eq_succ_of_ne_zero (Nat.ne_zero_of_lt enough)
  have colon : skipBlanks (':' :: inner) = ':' :: inner := rfl
  rw [← readEntries_skipBlanks, written, writeUnits, readEntries_succ,
    readUnits_string chars _ rfl, Option.bind_some]
  simp [colon, h.read fuel (by omega), comma, others.read fuel _ (by omega)]

theorem Reads.emptyObject : Reads rest ('\x7b' :: '\x7d' :: rest) (.object []) :=
  .scalar (by simp) fun _ => rfl

/-- No entry starts with the brace that closes an object. -/
theorem readEntries_closing (h : skipBlanks cs = '\x7d' :: next) (fuel : ℕ)
    (before : List (List JsonUnit × JsonTree)) : readEntries fuel before cs = none := by
  cases fuel with
  | zero => rfl
  | succ fuel =>
    rw [readEntries, h]
    rfl

theorem readValue_object (fuel : ℕ) (cs : List Char) :
    readValue (fuel + 1) ('\x7b' :: cs) =
      match skipBlanks cs with
      | '\x7d' :: rest => some (.object [], rest)
      | entries => readEntries fuel [] entries :=
  rfl

theorem Reads.object (h : ReadsEntries rest cs es) : Reads rest ('\x7b' :: cs) (.object es) := by
  refine ⟨h.shorter.trans (Nat.lt_succ_self _), fun fuel enough => ?_⟩
  obtain ⟨fuel, rfl⟩ := Nat.exists_eq_succ_of_ne_zero (Nat.ne_zero_of_lt enough)
  rw [List.length_cons] at enough
  have read := h.read fuel [] (by omega)
  rw [readValue_object]
  split
  next closing => simp [readEntries_closing closing] at read
  next => rw [readEntries_skipBlanks, read]; rfl

end rules

/-! ## Whole trees -/

mutual

/-- Numerals are those of the grammar, and strings hold characters only. -/
def Plain : JsonTree → Prop
  | .null | .bool _ => True
  | .number n => n.Grammatical
  | .string units => ∀ u ∈ units, u.IsChar
  | .array items => PlainItems items
  | .object entries => PlainEntries entries

def PlainItems : List JsonTree → Prop
  | [] => True
  | t :: ts => t.Plain ∧ PlainItems ts

def PlainEntries : List (List JsonUnit × JsonTree) → Prop
  | [] => True
  | (k, t) :: es => (∀ u ∈ k, u.IsChar) ∧ t.Plain ∧ PlainEntries es

end

mutual

/-- The tree with its strings in the units that they are read in. -/
def reread : JsonTree → JsonTree
  | .null => .null
  | .bool value => .bool value
  | .number n => .number n
  | .string units => .string (units.map JsonUnit.reread)
  | .array items => .array (rereadItems items)
  | .object entries => .object (rereadEntries entries)

def rereadItems : List JsonTree → List JsonTree
  | [] => []
  | t :: ts => t.reread :: rereadItems ts

def rereadEntries : List (List JsonUnit × JsonTree) → List (List JsonUnit × JsonTree)
  | [] => []
  | (k, t) :: es => (k.map JsonUnit.reread, t.reread) :: rereadEntries es

end

mutual

/-- **The text of a plain tree on one line is read as the tree.** -/
theorem Plain.reads_compact : ∀ {t : JsonTree}, t.Plain → ∀ {rest : List Char}, Ends rest →
    Reads rest (t.writeCompact rest) t.reread
  | .null, _, _, _ => .null
  | .bool true, _, _, _ => .bool_true
  | .bool false, _, _, _ => .bool_false
  | .number _, h, _, ends => .number h ends
  | .string _, h, _, _ => .string h
  | .array [], _, _, _ => .emptyArray
  | .array (_ :: _), h, _, _ => .array (reads_compactItems h (List.cons_ne_nil _ _))
  | .object [], _, _, _ => .emptyObject
  | .object (_ :: _), h, _, _ => .object (reads_compactEntries h (List.cons_ne_nil _ _))

theorem reads_compactItems : ∀ {ts : List JsonTree}, PlainItems ts → ts ≠ [] →
    ∀ {rest : List Char},
      ReadsElements rest (writeCompactItems ts (']' :: rest)) (rereadItems ts)
  | [_], h, _, _ => .last (h.1.reads_compact (.cons (by decide) _)) rfl
  | _ :: _ :: _, h, _, _ =>
    .cons (h.1.reads_compact (.cons (by decide) _)) rfl
      (reads_compactItems h.2 (List.cons_ne_nil _ _))

theorem reads_compactEntries : ∀ {es : List (List JsonUnit × JsonTree)}, PlainEntries es →
    es ≠ [] → ∀ {rest : List Char},
      ReadsEntries rest (writeCompactEntries es ('\x7d' :: rest)) (rereadEntries es)
  | [(_, _)], h, _, _ => .last h.1 rfl (h.2.1.reads_compact (.cons (by decide) _)) rfl
  | (_, _) :: _ :: _, h, _, _ =>
    .cons h.1 rfl (h.2.1.reads_compact (.cons (by decide) _)) rfl
      (reads_compactEntries h.2.2 (List.cons_ne_nil _ _))

end

mutual

/-- **The text of a plain tree over several lines is read as the tree.** -/
theorem Plain.reads_indented : ∀ {t : JsonTree}, t.Plain → ∀ {level : ℕ} {rest : List Char},
    Ends rest → Reads rest (t.writeIndented level rest) t.reread
  | .null, _, _, _, _ => .null
  | .bool true, _, _, _, _ => .bool_true
  | .bool false, _, _, _, _ => .bool_false
  | .number _, h, _, _, ends => .number h ends
  | .string _, h, _, _, _ => .string h
  | .array [], _, _, _, _ => .emptyArray
  | .array (_ :: _), h, level, _, _ => .array (reads_indentedItems h (List.cons_ne_nil _ _) level)
  | .object [], _, _, _, _ => .emptyObject
  | .object (_ :: _), h, level, _, _ =>
    .object (reads_indentedEntries h (List.cons_ne_nil _ _) level)

theorem reads_indentedItems : ∀ {ts : List JsonTree}, PlainItems ts → ts ≠ [] →
    ∀ (outer : ℕ) {level : ℕ} {rest : List Char},
      ReadsElements rest (writeIndentedItems level ts (writeLine outer (']' :: rest)))
        (rereadItems ts)
  | [_], h, _, outer, _, rest =>
    .last ((h.1.reads_indented (.cons (by decide) _)).line _) (skipBlanks_writeLine outer _)
  | _ :: _ :: _, h, _, outer, _, _ =>
    .cons ((h.1.reads_indented (.cons (by decide) _)).line _) rfl
      (reads_indentedItems h.2 (List.cons_ne_nil _ _) outer)

theorem reads_indentedEntries : ∀ {es : List (List JsonUnit × JsonTree)}, PlainEntries es →
    es ≠ [] → ∀ (outer : ℕ) {level : ℕ} {rest : List Char},
      ReadsEntries rest (writeIndentedEntries level es (writeLine outer ('\x7d' :: rest)))
        (rereadEntries es)
  | [(_, _)], h, _, outer, _, _ =>
    .last h.1 (skipBlanks_writeLine _ _) ((h.2.1.reads_indented (.cons (by decide) _)).blank)
      (skipBlanks_writeLine outer _)
  | (_, _) :: _ :: _, h, _, outer, _, _ =>
    .cons h.1 (skipBlanks_writeLine _ _) ((h.2.1.reads_indented (.cons (by decide) _)).blank) rfl
      (reads_indentedEntries h.2.2 (List.cons_ne_nil _ _) outer)

end

/-! ## Whole texts -/

theorem writeLine_append (level : ℕ) (cs more : List Char) :
    writeLine level (cs ++ more) = writeLine level cs ++ more := by
  simp [writeLine]

theorem writeUnits_append (units : List JsonUnit) (cs more : List Char) :
    writeUnits units (cs ++ more) = writeUnits units cs ++ more := by
  simp [writeUnits]

theorem writeEntry_append (level : ℕ) (key : List JsonUnit) (cs more : List Char) :
    writeLine level (writeUnits key (':' :: ' ' :: (cs ++ more))) =
      writeLine level (writeUnits key (':' :: ' ' :: cs)) ++ more := by
  simp [writeLine, writeUnits]

mutual

/-- What follows a tree is written after it. -/
theorem writeIndented_append : ∀ (t : JsonTree) (level : ℕ) (rest more : List Char),
    t.writeIndented level (rest ++ more) = t.writeIndented level rest ++ more
  | .null, _, _, _ => rfl
  | .bool true, _, _, _ => rfl
  | .bool false, _, _, _ => rfl
  | .number n, _, rest, more => n.write_append rest more
  | .string units, _, rest, more => writeUnits_append units rest more
  | .array [], _, _, _ => rfl
  | .array (t :: ts), level, rest, more => by
    have items :=
      writeIndentedItems_append (t :: ts) (level + 1) (writeLine level (']' :: rest)) more
    rw [← writeLine_append] at items
    exact congrArg ('[' :: ·) items
  | .object [], _, _, _ => rfl
  | .object (e :: es), level, rest, more => by
    have entries :=
      writeIndentedEntries_append (e :: es) (level + 1) (writeLine level ('\x7d' :: rest)) more
    rw [← writeLine_append] at entries
    exact congrArg ('\x7b' :: ·) entries

theorem writeIndentedItems_append : ∀ (ts : List JsonTree) (level : ℕ) (rest more : List Char),
    writeIndentedItems level ts (rest ++ more) = writeIndentedItems level ts rest ++ more
  | [], _, _, _ => rfl
  | [t], level, rest, more =>
    (congrArg (writeLine level) (writeIndented_append t level rest more)).trans
      (writeLine_append ..)
  | t :: u :: ts, level, rest, more => by
    have others := writeIndentedItems_append (u :: ts) level rest more
    have item := writeIndented_append t level (',' :: writeIndentedItems level (u :: ts) rest) more
    rw [List.cons_append, ← others] at item
    exact (congrArg (writeLine level) item).trans (writeLine_append ..)

theorem writeIndentedEntries_append : ∀ (es : List (List JsonUnit × JsonTree)) (level : ℕ)
    (rest more : List Char),
    writeIndentedEntries level es (rest ++ more) = writeIndentedEntries level es rest ++ more
  | [], _, _, _ => rfl
  | [(k, t)], level, rest, more => by
    have value := writeIndented_append t level rest more
    exact (congrArg (fun cs => writeLine level (writeUnits k (':' :: ' ' :: cs))) value).trans
      (writeEntry_append ..)
  | (k, t) :: e :: es, level, rest, more => by
    have others := writeIndentedEntries_append (e :: es) level rest more
    have value :=
      writeIndented_append t level (',' :: writeIndentedEntries level (e :: es) rest) more
    rw [List.cons_append, ← others] at value
    exact (congrArg (fun cs => writeLine level (writeUnits k (':' :: ' ' :: cs))) value).trans
      (writeEntry_append ..)

end

/-- A text that holds one value and blanks after it is the value. -/
theorem Reads.ofText? {rest cs : List Char} {t : JsonTree} (h : Reads rest cs t)
    (blank : skipBlanks rest = []) : JsonTree.ofText? (String.ofList cs) = some t := by
  have read := h.read (2 * cs.length + 2) (by omega)
  rw [JsonTree.ofText?, String.toList_ofList]
  simp only [read, Option.bind_eq_bind, Option.bind_some, blank]
  rfl

/-- **A plain tree is read back from its text**, on one line or over several, with a line
end after it or without one. -/
theorem Plain.ofText? {t : JsonTree} (h : t.Plain) :
    JsonTree.ofText? t.compact = some t.reread ∧
      JsonTree.ofText? t.indented = some t.reread ∧
        JsonTree.ofText? (t.indented ++ "\n") = some t.reread := by
  refine ⟨(h.reads_compact .nil).ofText? rfl, (h.reads_indented .nil).ofText? rfl, ?_⟩
  have printed : t.indented ++ "\n" = String.ofList (t.writeIndented 0 ['\n']) := by
    rw [indented, ← List.nil_append ['\n'], writeIndented_append, String.ofList_append]
  rw [printed]
  exact (h.reads_indented (.cons (by decide) _)).ofText? rfl

end JsonTree

end ScopeLisp
