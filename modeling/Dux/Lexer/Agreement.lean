import Dux.Lexer.Scan

/-!
# What the lexer looks at

Two states of the lexer agree when they differ at most in buffers that are cleared before they are
read.  Then all calls of `yylex` return the same.
-/

namespace Dux.Lexer

section Agreement

variable {δ : Type}

/-- Nothing that is read differs: the buffer for strings matters within a string, that for
f-strings within an f-string and its interpolations. -/
structure Agree (a b : Scanner) : Prop where
  start : a.start = b.start
  input : a.input = b.input
  needSemi : a.statics.needSemi = b.statics.needSemi
  nesting : a.statics.nesting = b.statics.nesting
  depth : a.statics.fstrInterpDepth = b.statics.fstrInterpDepth
  stringBuf : a.start = .strSq ∨ a.start = .strDq → a.stringBuf = b.stringBuf
  fstrBuf : a.start = .fstr ∨ 0 < a.statics.fstrInterpDepth →
    a.statics.fstrBuf = b.statics.fstrBuf

/-- The same is returned, if anything, and what is left agrees. -/
def SteppedAlike (x y : Stepped δ) : Prop := x.1 = y.1 ∧ Agree x.2 y.2

/-! ## Steps -/

section Steps

variable {input stringBuf stringBuf' fstrBuf fstrBuf' : Text} {needSemi : Bool} {nesting : Int}
  {depth : Nat}

/-- Outside of strings and f-strings only an open interpolation makes a buffer matter. -/
theorem agree_outside {start : Start} (outside : start = .initial ∨ start = .mlComment)
    (h : 0 < depth → fstrBuf = fstrBuf') :
    Agree ⟨start, input, stringBuf, ⟨needSemi, nesting, fstrBuf, depth⟩⟩
      ⟨start, input, stringBuf', ⟨needSemi, nesting, fstrBuf', depth⟩⟩ where
  start := rfl
  input := rfl
  needSemi := rfl
  nesting := rfl
  depth := rfl
  stringBuf within := by
    rcases outside with rfl | rfl <;> rcases within with within | within <;> cases within
  fstrBuf within := h (within.resolve_left (by rcases outside with rfl | rfl <;> rintro ⟨⟩))

theorem agree_string {start : Start} (string : start = .strSq ∨ start = .strDq)
    (h : 0 < depth → fstrBuf = fstrBuf') :
    Agree ⟨start, input, stringBuf, ⟨needSemi, nesting, fstrBuf, depth⟩⟩
      ⟨start, input, stringBuf, ⟨needSemi, nesting, fstrBuf', depth⟩⟩ where
  start := rfl
  input := rfl
  needSemi := rfl
  nesting := rfl
  depth := rfl
  stringBuf _ := rfl
  fstrBuf within := h (within.resolve_left (by rcases string with rfl | rfl <;> rintro ⟨⟩))

theorem agree_fstr :
    Agree ⟨.fstr, input, stringBuf, ⟨needSemi, nesting, fstrBuf, depth⟩⟩
      ⟨.fstr, input, stringBuf', ⟨needSemi, nesting, fstrBuf, depth⟩⟩ where
  start := rfl
  input := rfl
  needSemi := rfl
  nesting := rfl
  depth := rfl
  stringBuf within := by rcases within with within | within <;> cases within
  fstrBuf _ := rfl

theorem applyRule_alike (h : 0 < depth → fstrBuf = fstrBuf') (rule : Rule δ) (rest : Text) :
    SteppedAlike
      (applyRule ⟨.initial, input, stringBuf, ⟨needSemi, nesting, fstrBuf, depth⟩⟩ rule rest)
      (applyRule ⟨.initial, input, stringBuf', ⟨needSemi, nesting, fstrBuf', depth⟩⟩ rule
        rest) := by
  cases rule with
  | skip | newline | returns _ _ _ | rejects _ => exact ⟨rfl, agree_outside (.inl rfl) h⟩
  | mlComment => exact ⟨rfl, agree_outside (.inr rfl) h⟩
  | strDq => exact ⟨rfl, agree_string (.inr rfl) h⟩
  | strSq => exact ⟨rfl, agree_string (.inl rfl) h⟩
  | fstrBegin => exact ⟨rfl, agree_fstr⟩
  | lbrace =>
      refine ⟨rfl, agree_outside (.inl rfl) fun deeper => h (Nat.pos_of_ne_zero fun none => ?_)⟩
      simp [none] at deeper
  | rbrace =>
      simp only [applyRule]
      split_ifs with last
      · obtain rfl := h (last ▸ Nat.one_pos)
        exact ⟨rfl, agree_fstr⟩
      · exact ⟨rfl, agree_outside (.inl rfl) fun deeper =>
          h (Nat.lt_of_lt_of_le deeper (Nat.sub_le _ _))⟩

theorem scanInitial_alike (floats : Floats δ) (h : 0 < depth → fstrBuf = fstrBuf') :
    SteppedAlike
      (scanInitial floats ⟨.initial, input, stringBuf, ⟨needSemi, nesting, fstrBuf, depth⟩⟩)
      (scanInitial floats ⟨.initial, input, stringBuf', ⟨needSemi, nesting, fstrBuf', depth⟩⟩) := by
  cases input with
  | nil =>
      simp only [scanInitial]
      split_ifs
      · exact ⟨rfl, agree_outside (.inl rfl) h⟩
      · exact ⟨rfl, agree_outside (.inl rfl) h⟩
  | cons b rest => exact applyRule_alike h _ _

theorem scanMlComment_alike (h : 0 < depth → fstrBuf = fstrBuf') :
    SteppedAlike (δ := δ)
      (scanMlComment ⟨.mlComment, input, stringBuf, ⟨needSemi, nesting, fstrBuf, depth⟩⟩)
      (scanMlComment ⟨.mlComment, input, stringBuf', ⟨needSemi, nesting, fstrBuf', depth⟩⟩) := by
  cases input with
  | nil => exact ⟨rfl, agree_outside (.inr rfl) h⟩
  | cons b rest =>
      simp only [scanMlComment]
      split_ifs
      · exact ⟨rfl, agree_outside (.inl rfl) h⟩
      · exact ⟨rfl, agree_outside (.inr rfl) h⟩

theorem scanString_alike {start : Start} (string : start = .strSq ∨ start = .strDq)
    (quote : UInt8) (h : 0 < depth → fstrBuf = fstrBuf') :
    SteppedAlike (δ := δ)
      (scanString quote ⟨start, input, stringBuf, ⟨needSemi, nesting, fstrBuf, depth⟩⟩)
      (scanString quote ⟨start, input, stringBuf, ⟨needSemi, nesting, fstrBuf', depth⟩⟩) := by
  cases input with
  | nil => exact ⟨rfl, agree_string string h⟩
  | cons b rest =>
      simp only [scanString]
      split_ifs
      · exact ⟨rfl, agree_outside (.inl rfl) h⟩
      · cases readEscape escapes rest with
        | some c => exact ⟨rfl, agree_string string h⟩
        | none => exact ⟨rfl, agree_string string h⟩
      · exact ⟨rfl, agree_string string h⟩

theorem scanFstr_alike :
    SteppedAlike (δ := δ)
      (scanFstr ⟨.fstr, input, stringBuf, ⟨needSemi, nesting, fstrBuf, depth⟩⟩)
      (scanFstr ⟨.fstr, input, stringBuf', ⟨needSemi, nesting, fstrBuf, depth⟩⟩) := by
  cases input with
  | nil => exact ⟨rfl, agree_fstr⟩
  | cons b rest =>
      simp only [scanFstr]
      split_ifs
      · exact ⟨rfl, agree_outside (.inl rfl) fun _ => rfl⟩
      · exact ⟨rfl, agree_outside (.inl rfl) fun _ => rfl⟩
      · cases readEscape fstrEscapes rest with
        | some c => exact ⟨rfl, agree_fstr⟩
        | none => exact ⟨rfl, agree_fstr⟩
      · exact ⟨rfl, agree_fstr⟩
      · exact ⟨rfl, agree_fstr⟩

end Steps

theorem step_alike (floats : Floats δ) {a b : Scanner} (h : Agree a b) :
    SteppedAlike (step floats a) (step floats b) := by
  obtain ⟨start, input, stringBuf, needSemi, nesting, fstrBuf, depth⟩ := a
  obtain ⟨start', input', stringBuf', needSemi', nesting', fstrBuf', depth'⟩ := b
  obtain ⟨starts, inputs, semis, nestings, depths, strings, fstrs⟩ := h
  dsimp only at starts inputs semis nestings depths strings fstrs
  subst starts inputs semis nestings depths
  cases start with
  | initial => exact scanInitial_alike floats fun deep => fstrs (.inr deep)
  | mlComment => exact scanMlComment_alike fun deep => fstrs (.inr deep)
  | strSq =>
      obtain rfl := strings (.inl rfl)
      exact scanString_alike (.inl rfl) 0x27 fun deep => fstrs (.inr deep)
  | strDq =>
      obtain rfl := strings (.inr rfl)
      exact scanString_alike (.inr rfl) 0x22 fun deep => fstrs (.inr deep)
  | fstr =>
      obtain rfl := fstrs (.inl rfl)
      exact scanFstr_alike

/-! ## Calls -/

theorem scan_alike (floats : Floats δ) {n : Nat} {a b : Scanner} (h : Agree a b)
    {x y : Result δ × Scanner} (left : scan floats n a = some x)
    (right : scan floats n b = some y) :
    x.1 = y.1 ∧ Agree x.2 y.2 := by
  induction n generalizing a b with
  | zero => cases left
  | succ n ih =>
      have alike := step_alike floats h
      unfold scan at left right
      rw [← alike.1] at right
      cases returned : (step floats a).1 with
      | some result =>
          simp only [returned, Option.some.injEq] at left right
          subst left right
          exact ⟨rfl, alike.2⟩
      | none =>
          simp only [returned] at left right
          exact ih alike.2 left right

theorem yylex_alike (floats : Floats δ) {a b : Scanner} (h : Agree a b) :
    (yylex floats a).1 = (yylex floats b).1 ∧ Agree (yylex floats a).2 (yylex floats b).2 :=
  scan_alike floats h (Option.some_get _).symm (by rw [h.input]; exact (Option.some_get _).symm)

end Agreement

end Dux.Lexer
