import Dux.Lexer.Literals
import Mathlib.Data.List.Find

/-!
# Line ends

Lines may end with a line feed alone or with a carriage return before it (`docs/grammar.md`).
Outside of strings and f-strings the lexer skips carriage returns (`src/lexer/dux.l`), and there the
results for the two texts are the same.
-/

namespace Dux.Lexer

open Logic (ascii isDigit cText)

/-- The text with a carriage return before each line feed. -/
def crlf (text : Text) : Text := text.flatMap fun b => if b = 0x0a then [0x0d, 0x0a] else [b]

def Scanner.crlf (l : Scanner) : Scanner := { l with input := Lexer.crlf l.input }

section Calls

variable {δ : Type} (floats : Floats δ)

/-- The results of so many calls of `yylex`.  Nothing follows an exception that nobody catches. -/
def calls : Nat → Scanner → List (Result δ)
  | 0, _ => []
  | k + 1, l =>
      match (yylex floats l).1 with
      | .fault => [.fault]
      | result => result :: calls k (yylex floats l).2

/-- All calls return the same. -/
def SameCalls (a b : Scanner) : Prop := ∀ k, calls floats k a = calls floats k b

end Calls

/-! ## Literals that go over lines -/

/-- Every newline of a segment has a zero in front of it in its run of plain bytes, so that the
carriage return is lost behind the zero. -/
inductive Masked : Bool → Text → Prop
  | nil (zero : Bool) : Masked zero []
  | escape {zero : Bool} {c v : UInt8} {rest : Text} (known : fstrEscapes.lookup c = some v)
      (masked : Masked false rest) : Masked zero (0x5c :: c :: rest)
  | stray {zero : Bool} {c : UInt8} {rest : Text} (unknown : fstrEscapes.lookup c = none)
      (masked : Masked false (c :: rest)) : Masked zero (0x5c :: c :: rest)
  | newline {rest : Text} (masked : Masked false rest) : Masked true (0x0a :: rest)
  | plain {zero : Bool} {b : UInt8} {rest : Text} (notEscape : b ≠ 0x5c) (notNewline : b ≠ 0x0a)
      (masked : Masked (zero || b = 0) rest) : Masked zero (b :: rest)

section Spans

variable {δ : Type}

/-- The start condition behind a rule, and the depth in an interpolation. -/
def Rule.next : Rule δ → Nat → Start × Nat
  | .mlComment, depth => (.mlComment, depth)
  | .strDq, depth => (.strDq, depth)
  | .strSq, depth => (.strSq, depth)
  | .fstrBegin, _ => (.fstr, 0)
  | .lbrace, depth => (.initial, if 0 < depth then depth + 1 else 0)
  | .rbrace, depth => if depth = 1 then (.fstr, 0) else (.initial, depth - 1)
  | _, depth => (.initial, depth)

/-- In the text there is a string with a newline, or a segment of an f-string with one that is not
masked.  In front of it there is no number that is out of range. -/
inductive Spans (floats : Floats δ) : Start → Nat → Text → Prop
  | rule {depth : Nat} {b : UInt8} {rest : Text}
      (inRange : ∀ needSemi nesting,
        (matchRule floats b rest).1 ≠ .returns .fault needSemi nesting)
      (more : Spans floats ((matchRule floats b rest).1.next depth).1
        ((matchRule floats b rest).1.next depth).2 (matchRule floats b rest).2) :
      Spans floats .initial depth (b :: rest)
  | comment {depth : Nat} {b : UInt8} {rest : Text} (notEnd : ¬[0x22, 0x22, 0x22] <+: b :: rest)
      (more : Spans floats .mlComment depth rest) : Spans floats .mlComment depth (b :: rest)
  | commentEnd {depth : Nat} {rest : Text} (more : Spans floats .initial depth rest) :
      Spans floats .mlComment depth (0x22 :: 0x22 :: 0x22 :: rest)
  | string {start : Start} {quote : UInt8} {depth : Nat} {body rest : Text}
      (within : Within start quote) (isBody : Body escapes [quote] body) (newline : 0x0a ∈ body) :
      Spans floats start depth (body ++ quote :: rest)
  | afterString {start : Start} {quote : UInt8} {depth : Nat} {body rest : Text}
      (within : Within start quote) (isBody : Body escapes [quote] body)
      (more : Spans floats .initial depth rest) : Spans floats start depth (body ++ quote :: rest)
  | segment {close : UInt8} {depth : Nat} {body rest : Text} (ends : close ∈ segmentEnds)
      (isBody : Body fstrEscapes segmentEnds body) (unmasked : ¬Masked false body) :
      Spans floats .fstr depth (body ++ close :: rest)
  | finish {depth : Nat} {body rest : Text} (isBody : Body fstrEscapes segmentEnds body)
      (more : Spans floats .initial depth rest) : Spans floats .fstr depth (body ++ 0x22 :: rest)
  | interpolation {depth : Nat} {body rest : Text} (isBody : Body fstrEscapes segmentEnds body)
      (more : Spans floats .initial 1 rest) : Spans floats .fstr depth (body ++ 0x7b :: rest)

end Spans

/-! ## Texts with other line ends -/

section Texts

variable {b : UInt8} {text rest : Text} {p : UInt8 → Bool}

theorem crlf_newline (rest : Text) : crlf (0x0a :: rest) = 0x0d :: 0x0a :: crlf rest := rfl

theorem crlf_cons (notNewline : b ≠ 0x0a) (rest : Text) : crlf (b :: rest) = b :: crlf rest := by
  simp [crlf, notNewline]

theorem crlf_append (text rest : Text) : crlf (text ++ rest) = crlf text ++ crlf rest :=
  List.flatMap_append

theorem crlf_eq_self (noNewline : 0x0a ∉ text) : crlf text = text := by
  induction text with
  | nil => rfl
  | cons b text ih =>
      rw [List.mem_cons, not_or] at noNewline
      rw [crlf_cons (Ne.symm noNewline.1), ih noNewline.2]

theorem takeWhile_crlf (stops : p 0x0a = false) (stops' : p 0x0d = false) (text : Text) :
    (crlf text).takeWhile p = text.takeWhile p := by
  induction text with
  | nil => rfl
  | cons b text ih =>
      by_cases newline : b = 0x0a
      · subst newline
        rw [crlf_newline, List.takeWhile_cons_of_neg (by simp [stops']),
          List.takeWhile_cons_of_neg (by simp [stops])]
      · rw [crlf_cons newline, List.takeWhile_cons, List.takeWhile_cons, ih]

theorem drop_crlf {front : Text} (isPrefix : front <+: text) (noNewline : 0x0a ∉ front) :
    (crlf text).drop front.length = crlf (text.drop front.length) := by
  obtain ⟨back, rfl⟩ := isPrefix
  rw [crlf_append, crlf_eq_self noNewline, List.drop_left, List.drop_left]

theorem drop_takeWhile_crlf (stops : p 0x0a = false) (text : Text) :
    (crlf text).drop (text.takeWhile p).length = crlf (text.drop (text.takeWhile p).length) := by
  refine drop_crlf (List.takeWhile_prefix p) fun newline => ?_
  rw [List.mem_takeWhile_imp newline] at stops
  cases stops

theorem isPrefix_crlf {front : Text} (noNewline : 0x0a ∉ front) (noReturn : 0x0d ∉ front) :
    front <+: crlf text ↔ front <+: text := by
  induction front generalizing text with
  | nil => simp
  | cons c front ih =>
      rw [List.mem_cons, not_or] at noNewline noReturn
      cases text with
      | nil => simp [crlf]
      | cons b text =>
          by_cases newline : b = 0x0a
          · subst newline
            rw [crlf_newline, List.cons_prefix_cons, List.cons_prefix_cons]
            exact iff_of_false (fun h => noReturn.1 h.1.symm) fun h => noNewline.1 h.1.symm
          · rw [crlf_cons newline, List.cons_prefix_cons, List.cons_prefix_cons,
              ih noNewline.2 noReturn.2]

end Texts

/-! ## Rules -/

section Rules

variable {δ : Type} (floats : Floats δ) {b : UInt8}

theorem head_crlf (text : Text) : text = [] ∧ crlf text = [] ∨
    (∃ b rest, b ≠ 0x0a ∧ text = b :: rest ∧ crlf text = b :: crlf rest) ∨
    ∃ rest, text = 0x0a :: rest ∧ crlf text = 0x0d :: 0x0a :: crlf rest := by
  cases text with
  | nil => exact .inl ⟨rfl, rfl⟩
  | cons b rest =>
      by_cases newline : b = 0x0a
      · subst newline
        exact .inr (.inr ⟨rest, rfl, rfl⟩)
      · exact .inr (.inl ⟨b, rest, newline, rfl, crlf_cons newline rest⟩)

theorem scanInteger_crlf (digits rest : Text) : scanInteger floats digits (crlf rest) =
    ((scanInteger floats digits rest).1, crlf (scanInteger floats digits rest).2) := by
  obtain ⟨rfl, -⟩ | ⟨b, rest, notNewline, rfl, isCrlf⟩ | ⟨rest, rfl, isCrlf⟩ := head_crlf rest
  · rfl
  · rw [isCrlf]
    unfold scanInteger
    split <;> simp_all [crlf_cons]
  · rw [isCrlf]
    rfl

theorem scanFraction_crlf (digits rest : Text) : scanFraction floats digits (crlf rest) =
    (scanFraction floats digits rest).map (Prod.map id crlf) := by
  obtain ⟨rfl, -⟩ | ⟨b, rest, notNewline, rfl, isCrlf⟩ | ⟨rest, rfl, isCrlf⟩ := head_crlf rest
  · rfl
  · by_cases point : b = 0x2e
    · subst point
      rw [isCrlf]
      simp only [scanFraction, takeWhile_crlf (p := isDigit) rfl rfl,
        drop_takeWhile_crlf (p := isDigit) rfl]
      generalize rest.drop (rest.takeWhile isDigit).length = after
      generalize rest.takeWhile isDigit = fraction
      obtain ⟨rfl, -⟩ | ⟨c, more, notNewline', rfl, isCrlf'⟩ | ⟨more, rfl, isCrlf'⟩ :=
        head_crlf after
      · change (if _ then none else _) = Option.map _ (if _ then none else _)
        split_ifs <;> rfl
      · rw [isCrlf']
        by_cases real : c = 0x66
        · subst real
          rfl
        · by_cases double : c = 0x64
          · subst double
            rfl
          · split <;> simp_all [crlf_cons]
            split_ifs <;> simp [crlf_cons, notNewline']
      · rw [isCrlf']
        split_ifs <;> rfl
    · rw [isCrlf]
      unfold scanFraction
      split <;> simp_all
  · rw [isCrlf]
    rfl

theorem scanNumber_crlf (text : Text) : scanNumber floats (crlf text) =
    (scanNumber floats text).map (Prod.map id crlf) := by
  unfold scanNumber
  simp only [takeWhile_crlf (p := isDigit) rfl rfl, drop_takeWhile_crlf (p := isDigit) rfl]
  by_cases noDigits : text.takeWhile isDigit = []
  · rw [if_pos noDigits, if_pos noDigits]
    obtain ⟨rfl, -⟩ | ⟨b, rest, notNewline, rfl, isCrlf⟩ | ⟨rest, rfl, isCrlf⟩ := head_crlf text
    · rfl
    · by_cases point : b = 0x2e
      · subst point
        have fraction := scanFraction_crlf floats [] (0x2e :: rest)
        rw [isCrlf] at fraction ⊢
        simp only [takeWhile_crlf (p := isDigit) rfl rfl]
        split_ifs
        · rfl
        · exact fraction
      · rw [isCrlf]
        split <;> simp_all
    · rw [isCrlf]
      rfl
  · rw [if_neg noDigits, if_neg noDigits, scanFraction_crlf, scanInteger_crlf]
    cases scanFraction floats (text.takeWhile isDigit)
      (text.drop (text.takeWhile isDigit).length) <;> rfl

theorem find_crlf (text : Text) : (operators.find? fun op => op.text.isPrefixOf (crlf text)) =
    operators.find? fun op => op.text.isPrefixOf text := by
  have noEnds : ∀ op ∈ operators, 0x0a ∉ op.text ∧ 0x0d ∉ op.text := by decide
  refine List.find?_congr fun op isOperator => ?_
  rw [Bool.eq_iff_iff, List.isPrefixOf_iff_prefix, List.isPrefixOf_iff_prefix]
  exact isPrefix_crlf (noEnds op isOperator).1 (noEnds op isOperator).2

theorem matchSymbol_crlf (notNewline : b ≠ 0x0a) (rest : Text) :
    matchSymbol floats b (crlf rest) =
      ((matchSymbol floats b rest).1, crlf (matchSymbol floats b rest).2) := by
  unfold matchSymbol
  rw [← crlf_cons notNewline, scanNumber_crlf, find_crlf]
  cases scanNumber floats (b :: rest) with
  | some found => rfl
  | none =>
      dsimp only [Option.map_none]
      split_ifs
      · rfl
      · rfl
      · cases isOperator : operators.find? fun op => op.text.isPrefixOf (b :: rest) with
        | none => rfl
        | some op =>
            have noEnds : ∀ op ∈ operators, 0x0a ∉ op.text ∧ op.text ≠ [] := by decide
            have isPrefix := List.find?_some isOperator
            obtain ⟨noNewline, notNil⟩ := noEnds op (List.mem_of_find?_eq_some isOperator)
            rw [List.isPrefixOf_iff_prefix] at isPrefix
            dsimp only
            generalize op.text = text at isPrefix noNewline notNil
            cases text with
            | nil => exact absurd rfl notNil
            | cons c text =>
                rw [List.mem_cons, not_or] at noNewline
                have after := drop_crlf (List.cons_prefix_cons.1 isPrefix).2 noNewline.2
                rw [List.length_cons, Nat.add_sub_cancel, after]

theorem matchRule_crlf (notBlank : ¬(b = 0x20 ∨ b = 0x09 ∨ b = 0x0d)) (notNewline : b ≠ 0x0a)
    (notComment : b ≠ 0x23) (rest : Text) : matchRule floats b (crlf rest) =
      ((matchRule floats b rest).1, crlf (matchRule floats b rest).2) := by
  have quotes : [0x22, 0x22] <+: crlf rest ↔ [0x22, 0x22] <+: rest :=
    isPrefix_crlf (by decide) (by decide)
  have quote : [0x22] <+: crlf rest ↔ [0x22] <+: rest := isPrefix_crlf (by decide) (by decide)
  unfold matchRule
  simp only [if_neg notBlank, if_neg notNewline, if_neg notComment, quotes, quote,
    takeWhile_crlf (p := isAlnum) rfl rfl, drop_takeWhile_crlf (p := isAlnum) rfl]
  split_ifs with isDq comment isSq isFstr isWord
  · have after := drop_crlf comment (by decide)
    exact congrArg _ after
  · rfl
  · rfl
  · have after := drop_crlf isFstr.2 (by decide)
    exact congrArg _ after
  · rfl
  · exact matchSymbol_crlf floats notNewline rest

end Rules

/-! ## Outside of literals -/

section Outside

variable {δ : Type} {floats : Floats δ} {l : Scanner} {b : UInt8} {text stringBuf : Text}
  {s : Statics}

/-- White space, as the rule for it has it. -/
def isBlank (b : UInt8) : Bool := b = 0x20 ∨ b = 0x09 ∨ b = 0x0d

theorem yylex_blank (blank : isBlank b = true) : yylex floats ⟨.initial, b :: text, stringBuf, s⟩ =
    yylex floats ⟨.initial, text, stringBuf, s⟩ := by
  have skips {c : UInt8} (blank : isBlank c = true) (text : Text) :
      step floats ⟨.initial, c :: text, stringBuf, s⟩ =
        (none, ⟨.initial, text.dropWhile isBlank, stringBuf, s⟩) := by
    have rule : matchRule floats c text = (.skip, text.dropWhile isBlank) :=
      if_pos (of_decide_eq_true blank)
    rw [step, scanInitial]
    dsimp only
    rw [rule]
    rfl
  rw [yylex_of_none (by rw [skips blank]), skips blank]
  cases text with
  | nil => rfl
  | cons c text =>
      by_cases blank' : isBlank c = true
      · rw [List.dropWhile_cons_of_pos blank', yylex_of_none (l := ⟨_, c :: text, _, _⟩)
          (by rw [skips blank']), skips blank']
      · rw [List.dropWhile_cons_of_neg blank']

theorem yylex_skip_newline (noSemi : s.needSemi = false) :
    yylex floats ⟨.initial, 0x0a :: text, stringBuf, s⟩ =
      yylex floats ⟨.initial, text, stringBuf, s⟩ := by
  have skips (text : Text) : step floats ⟨.initial, 0x0a :: text, stringBuf, s⟩ =
      (none, ⟨.initial, text.dropWhile (· = 0x0a), stringBuf, s⟩) := by
    obtain ⟨needSemi, nesting, fstrBuf, depth⟩ := s
    cases noSemi
    rfl
  rw [yylex_of_none (by rw [skips]), skips]
  cases text with
  | nil => rfl
  | cons c text =>
      by_cases newline : c = 0x0a
      · subst newline
        rw [List.dropWhile_cons_of_pos (by simp), yylex_of_none (l := ⟨_, 0x0a :: text, _, _⟩)
          (by rw [skips]), skips]
      · rw [List.dropWhile_cons_of_neg (by simpa using newline)]

theorem yylex_crlf_blanks (text : Text) : yylex floats ⟨.initial, crlf text, stringBuf, s⟩ =
    yylex floats ⟨.initial, crlf (text.dropWhile isBlank), stringBuf, s⟩ := by
  induction text with
  | nil => rfl
  | cons b text ih =>
      by_cases blank : isBlank b = true
      · have notNewline : b ≠ 0x0a := by
          rintro rfl
          cases blank
        rw [List.dropWhile_cons_of_pos blank, crlf_cons notNewline, yylex_blank blank, ih]
      · rw [List.dropWhile_cons_of_neg blank]

theorem yylex_crlf_newlines (floats : Floats δ) (stringBuf : Text) (noSemi : s.needSemi = false)
    (text : Text) :
    yylex floats ⟨.initial, crlf text, stringBuf, s⟩ =
      yylex floats ⟨.initial, crlf (text.dropWhile (· = 0x0a)), stringBuf, s⟩ := by
  induction text with
  | nil => rfl
  | cons b text ih =>
      by_cases newline : b = 0x0a
      · subst newline
        rw [List.dropWhile_cons_of_pos (by simp), crlf_newline, yylex_blank rfl,
          yylex_skip_newline noSemi, ih]
      · rw [List.dropWhile_cons_of_neg (by simpa using newline)]

theorem yylex_crlf_comment (text : Text) :
    yylex floats ⟨.initial, (crlf text).dropWhile (· ≠ 0x0a), stringBuf, s⟩ =
      yylex floats ⟨.initial, crlf (text.dropWhile (· ≠ 0x0a)), stringBuf, s⟩ := by
  induction text with
  | nil => rfl
  | cons b text ih =>
      by_cases newline : b = 0x0a
      · subst newline
        rw [List.dropWhile_cons_of_neg (by simp), crlf_newline, yylex_blank rfl,
          List.dropWhile_cons_of_pos (by decide), List.dropWhile_cons_of_neg (by simp)]
      · rw [List.dropWhile_cons_of_pos (by simpa using newline), crlf_cons newline,
          List.dropWhile_cons_of_pos (by simpa using newline), ih]

/-- A step outside of literals: the other lexer goes on or returns the same, and then the two are
at the same place again. -/
inductive CrlfStep (floats : Floats δ) (l : Scanner) : Prop
  | goesOn {l' : Scanner} (steps : step floats l = (none, l'))
      (same : yylex floats l.crlf = yylex floats l'.crlf) : CrlfStep floats l
  | returns {r : Result δ} {l' l'' : Scanner} (steps : step floats l = (some r, l'))
      (same : yylex floats l.crlf = (r, l''))
      (follow : yylex floats l'' = yylex floats l'.crlf) : CrlfStep floats l

theorem crlfStep_of_step
    (alike : step floats l.crlf = ((step floats l).1, (step floats l).2.crlf)) :
    CrlfStep floats l := by
  cases returned : (step floats l).1 with
  | none =>
      rw [returned] at alike
      refine .goesOn (Prod.ext returned rfl) ?_
      rw [yylex_of_none (by rw [alike]), alike]
  | some r =>
      rw [returned] at alike
      refine .returns (Prod.ext returned rfl) (yylex_of_some (by rw [alike])) ?_
      rw [alike]

theorem applyRule_crlf (l : Scanner) (rule : Rule δ) (rest : Text) :
    applyRule l.crlf rule (crlf rest) =
      ((applyRule l rule rest).1, (applyRule l rule rest).2.crlf) := by
  cases rule with
  | rbrace =>
      by_cases last : l.statics.fstrInterpDepth = 1
      · simp [applyRule, Scanner.crlf, last]
      · simp [applyRule, Scanner.crlf, last]
  | _ => rfl

theorem dropWhile_crlf_newline (text : Text) : (crlf text).dropWhile (· = 0x0a) = crlf text := by
  obtain ⟨rfl, -⟩ | ⟨b, rest, notNewline, rfl, isCrlf⟩ | ⟨rest, rfl, isCrlf⟩ := head_crlf text
  · rfl
  · rw [isCrlf, List.dropWhile_cons_of_neg (by simpa using notNewline)]
  · rfl

theorem crlfStep_newline (rest : Text) :
    CrlfStep floats ⟨.initial, 0x0a :: rest, stringBuf, s⟩ := by
  have follow := yylex_crlf_newlines floats stringBuf (s := { s with needSemi := false }) rfl rest
  have first : yylex floats (Scanner.crlf ⟨.initial, 0x0a :: rest, stringBuf, s⟩) =
      yylex floats ⟨.initial, 0x0a :: crlf rest, stringBuf, s⟩ := yylex_blank rfl
  have second : step floats ⟨.initial, 0x0a :: crlf rest, stringBuf, s⟩ =
      (if s.needSemi = true ∧ s.nesting = 0 then some (.token (.punct .semi)) else none,
        ⟨.initial, crlf rest, stringBuf, { s with needSemi := false }⟩) := by
    have newlines : step floats ⟨.initial, 0x0a :: crlf rest, stringBuf, s⟩ =
      (if s.needSemi = true ∧ s.nesting = 0 then some (.token (.punct .semi)) else none,
        ⟨.initial, (crlf rest).dropWhile (· = 0x0a), stringBuf, { s with needSemi := false }⟩) :=
      rfl
    rwa [dropWhile_crlf_newline] at newlines
  have steps : step floats ⟨.initial, 0x0a :: rest, stringBuf, s⟩ =
      (if s.needSemi = true ∧ s.nesting = 0 then some (.token (.punct .semi)) else none,
        ⟨.initial, rest.dropWhile (· = 0x0a), stringBuf, { s with needSemi := false }⟩) := rfl
  by_cases semi : s.needSemi = true ∧ s.nesting = 0
  · rw [if_pos semi] at second steps
    refine .returns steps ?_ follow
    rw [first, yylex_of_some (by rw [second]), second]
  · rw [if_neg semi] at second steps
    refine .goesOn steps ?_
    rw [first, yylex_of_none (by rw [second]), second]
    exact follow

theorem crlfStep_initial (input : Text) : CrlfStep floats ⟨.initial, input, stringBuf, s⟩ := by
  cases input with
  | nil =>
      refine crlfStep_of_step ?_
      by_cases semi : s.needSemi = true ∧ s.nesting = 0
      · simp [step, scanInitial, Scanner.crlf, crlf, semi]
      · simp [step, scanInitial, Scanner.crlf, crlf, semi]
  | cons b rest =>
      by_cases blank : b = 0x20 ∨ b = 0x09 ∨ b = 0x0d
      · have notNewline : b ≠ 0x0a := by
          rintro rfl
          exact absurd blank (by decide)
        have rule : matchRule floats b rest = (.skip, rest.dropWhile isBlank) := if_pos blank
        refine @CrlfStep.goesOn _ _ _ ⟨.initial, rest.dropWhile isBlank, stringBuf, s⟩ ?_ ?_
        · rw [step, scanInitial]
          dsimp only
          rw [rule]
          rfl
        · rw [Scanner.crlf, Scanner.crlf, crlf_cons notNewline,
            yylex_blank (decide_eq_true blank), yylex_crlf_blanks]
      · by_cases newline : b = 0x0a
        · rw [newline]
          exact crlfStep_newline rest
        · by_cases comment : b = 0x23
          · subst comment
            refine @CrlfStep.goesOn _ _ _ ⟨.initial, rest.dropWhile (· ≠ 0x0a), stringBuf, s⟩ rfl ?_
            rw [Scanner.crlf, Scanner.crlf, ← yylex_crlf_comment, crlf_cons newline]
            exact yylex_of_none rfl
          · refine crlfStep_of_step ?_
            rw [Scanner.crlf, crlf_cons newline, step, step, scanInitial, scanInitial]
            dsimp only
            rw [matchRule_crlf floats blank newline comment]
            exact applyRule_crlf ⟨.initial, b :: rest, stringBuf, s⟩ _ _

theorem crlfStep_mlComment (input : Text) :
    CrlfStep floats ⟨.mlComment, input, stringBuf, s⟩ := by
  cases input with
  | nil => exact crlfStep_of_step rfl
  | cons b rest =>
      have goesOn {b : UInt8} {rest : Text} (notEnd : ¬[0x22, 0x22, 0x22] <+: b :: rest) :
          step floats ⟨.mlComment, b :: rest, stringBuf, s⟩ =
            (none, ⟨.mlComment, rest, stringBuf, s⟩) := if_neg notEnd
      by_cases ends : [0x22, 0x22, 0x22] <+: b :: rest
      · have notNewline : b ≠ 0x0a := by
          rw [← (List.cons_prefix_cons.1 ends).1]
          decide
        have after := drop_crlf ends (by decide)
        have ends' := (isPrefix_crlf (by decide) (by decide)).2 ends
        rw [crlf_cons notNewline] at after ends'
        have after : (crlf rest).drop 2 = crlf (rest.drop 2) := after
        refine crlfStep_of_step ?_
        rw [Scanner.crlf, crlf_cons notNewline]
        simp only [step, scanMlComment, if_pos ends, if_pos ends', Scanner.crlf, after]
      · refine .goesOn (goesOn ends) ?_
        by_cases newline : b = 0x0a
        · have notQuote {b : UInt8} (other : b ≠ 0x22) (rest : Text) :
              ¬[0x22, 0x22, 0x22] <+: b :: rest := fun isPrefix =>
            other (List.cons_prefix_cons.1 isPrefix).1.symm
          have first := goesOn (notQuote (show (0x0d : UInt8) ≠ 0x22 by decide)
            (0x0a :: crlf rest))
          have second := goesOn (notQuote (show (0x0a : UInt8) ≠ 0x22 by decide) (crlf rest))
          rw [newline, Scanner.crlf, Scanner.crlf, crlf_newline, yylex_of_none (by rw [first]),
            first, yylex_of_none (by rw [second]), second]
        · have ends' : ¬[0x22, 0x22, 0x22] <+: b :: crlf rest := by
            rwa [← crlf_cons newline, isPrefix_crlf (by decide) (by decide)]
          rw [Scanner.crlf, Scanner.crlf, crlf_cons newline,
            yylex_of_none (by rw [goesOn ends']), goesOn ends']

end Outside

/-! ## Literals -/

section Literals

variable {δ : Type} {floats : Floats δ} {table : List (UInt8 × UInt8)} {closing : List UInt8}
  {body : Text}

theorem exists_body (known : ∀ b ∈ 0x5c :: closing, table.lookup b ≠ none) (text : Text) :
    ∃ body behind, text = body ++ behind ∧ Body table closing body ∧ Stops closing behind := by
  generalize size : text.length = n
  induction n using Nat.strong_induction_on generalizing text with
  | _ n ih =>
    cases text with
    | nil => exact ⟨[], [], rfl, .nil, .ended⟩
    | cons b text =>
        rw [List.length_cons] at size
        by_cases ends : b ∈ closing
        · exact ⟨[], b :: text, rfl, .nil, .closed ends⟩
        · by_cases escape : b = 0x5c
          · subst escape
            cases text with
            | nil => exact ⟨[], [0x5c], rfl, .nil, .backslash⟩
            | cons c text =>
                rw [List.length_cons] at size
                cases value : table.lookup c with
                | some v =>
                    obtain ⟨body, behind, rfl, isBody, stops⟩ := ih text.length (by omega) text rfl
                    exact ⟨0x5c :: c :: body, behind, rfl, .escape value isBody, stops⟩
                | none =>
                    obtain ⟨body, behind, isText, isBody, stops⟩ :=
                      ih (c :: text).length (by rw [List.length_cons]; omega) (c :: text) rfl
                    -- what stops a content stands for something behind a backslash
                    cases body with
                    | nil =>
                        cases stops with
                        | @closed close rest ends =>
                            obtain ⟨rfl, -⟩ := List.cons.inj isText
                            exact absurd value (known c (List.mem_cons_of_mem _ ends))
                        | ended => cases isText
                        | backslash =>
                            obtain ⟨rfl, -⟩ := List.cons.inj isText
                            exact absurd value (known 0x5c List.mem_cons_self)
                    | cons c' body =>
                        obtain ⟨rfl, rfl⟩ := List.cons.inj isText
                        exact ⟨0x5c :: c :: body, behind, rfl, .stray value isBody, stops⟩
          · obtain ⟨body, behind, rfl, isBody, stops⟩ := ih text.length (by omega) text rfl
            exact ⟨b :: body, behind, rfl, .plain escape ends isBody, stops⟩

/-- Line ends are no escapes, and end no literal. -/
structure NoEnds (table : List (UInt8 × UInt8)) (closing : List UInt8) : Prop where
  newline : table.lookup 0x0a = none
  carriage : table.lookup 0x0d = none
  newlineEnds : 0x0a ∉ closing
  carriageEnds : 0x0d ∉ closing

theorem noEnds_string {start : Start} {quote : UInt8} (within : Within start quote) :
    NoEnds escapes [quote] := by
  cases within <;> exact ⟨rfl, rfl, by decide, by decide⟩

theorem noEnds_segment : NoEnds fstrEscapes segmentEnds := ⟨rfl, rfl, by decide, by decide⟩

theorem NoEnds.known (noEnds : NoEnds table closing) {c v : UInt8}
    (known : table.lookup c = some v) : c ≠ 0x0a := by
  rintro rfl
  rw [noEnds.newline] at known
  cases known

theorem NoEnds.stray (noEnds : NoEnds table closing) {c : UInt8}
    (unknown : table.lookup c = none) (rest : Text) :
    ∃ c' rest', crlf (c :: rest) = c' :: rest' ∧ table.lookup c' = none := by
  by_cases newline : c = 0x0a
  · subst newline
    exact ⟨0x0d, _, rfl, noEnds.carriage⟩
  · exact ⟨c, _, crlf_cons newline rest, unknown⟩

theorem Body.crlf (noEnds : NoEnds table closing) (isBody : Body table closing body) :
    Body table closing (crlf body) := by
  induction isBody with
  | nil => exact .nil
  | @escape c v rest known _ ih =>
      rw [crlf_cons (by decide), crlf_cons (noEnds.known known)]
      exact .escape known ih
  | @stray c rest unknown _ ih =>
      obtain ⟨c', rest', isCrlf, unknown'⟩ := noEnds.stray unknown rest
      rw [crlf_cons (by decide), isCrlf]
      rw [isCrlf] at ih
      exact .stray unknown' ih
  | @plain b rest notEscape notClosing _ ih =>
      by_cases newline : b = 0x0a
      · subst newline
        exact .plain (by decide) noEnds.carriageEnds (.plain notEscape notClosing ih)
      · rw [crlf_cons newline]
        exact .plain notEscape notClosing ih

theorem length_stringValue_crlf (noEnds : NoEnds escapes closing)
    (isBody : Body escapes closing body) :
    (stringValue (crlf body)).length = (stringValue body).length + body.count 0x0a := by
  induction isBody with
  | nil => rfl
  | @escape c v rest known _ ih =>
      have notNewline := noEnds.known known
      rw [crlf_cons (by decide), crlf_cons notNewline, stringValue_escape known,
        stringValue_escape known, List.count_cons_of_ne (by decide),
        List.count_cons_of_ne notNewline, List.length_cons, List.length_cons, ih]
      omega
  | @stray c rest unknown _ ih =>
      obtain ⟨c', rest', isCrlf, unknown'⟩ := noEnds.stray unknown rest
      rw [isCrlf] at ih
      rw [crlf_cons (by decide), isCrlf, stringValue_stray unknown, stringValue_stray unknown',
        List.count_cons_of_ne (by decide), List.length_cons, List.length_cons, ih]
      omega
  | @plain b rest notEscape _ _ ih =>
      by_cases newline : b = 0x0a
      · subst newline
        rw [crlf_newline, stringValue_plain (by decide), stringValue_plain notEscape,
          stringValue_plain notEscape, List.count_cons_self, List.length_cons, List.length_cons,
          List.length_cons, ih]
        omega
      · rw [crlf_cons newline, stringValue_plain notEscape, stringValue_plain notEscape,
          List.count_cons_of_ne newline, List.length_cons, List.length_cons, ih]
        omega

theorem stringValue_crlf_ne (noEnds : NoEnds escapes closing) (isBody : Body escapes closing body)
    (newline : 0x0a ∈ body) : stringValue (crlf body) ≠ stringValue body := by
  intro same
  have longer := length_stringValue_crlf noEnds isBody
  have some : 0 < body.count 0x0a := List.count_pos_iff.2 newline
  rw [same] at longer
  omega

theorem chunkValue_return (rest : Text) (zero : Bool) : chunkValue zero (crlf (0x0a :: rest)) =
    (if zero then [] else [0x0d]) ++ 0x0a :: chunkValue false (crlf rest) := by
  rw [crlf_newline]
  cases zero with
  | true =>
      rw [chunkValue_lost (by decide) (by decide) rfl, chunkValue_newline]
      rfl
  | false =>
      rw [chunkValue_kept (by decide) (by decide) (by decide), chunkValue_newline]
      rfl

theorem chunkValue_cons {b : UInt8} (notEscape : b ≠ 0x5c) (notNewline : b ≠ 0x0a) (zero : Bool)
    (rest : Text) : chunkValue zero (b :: rest) =
      (if zero || b = 0 then [] else [b]) ++ chunkValue (zero || b = 0) rest := by
  cases lost : zero || decide (b = 0) with
  | true => exact chunkValue_lost notEscape notNewline lost rest
  | false =>
      rw [Bool.or_eq_false_iff, decide_eq_false_iff_not] at lost
      rw [lost.1]
      exact chunkValue_kept notEscape notNewline lost.2 rest

theorem Masked.chunkValue_crlf {zero : Bool} (masked : Masked zero body) :
    chunkValue zero (Lexer.crlf body) = chunkValue zero body := by
  induction masked with
  | nil => rfl
  | escape known _ ih =>
      rw [crlf_cons (by decide), crlf_cons (noEnds_segment.known known), chunkValue_escape known,
        chunkValue_escape known, ih]
  | @stray zero c rest unknown _ ih =>
      obtain ⟨c', rest', isCrlf, unknown'⟩ := noEnds_segment.stray unknown rest
      rw [isCrlf] at ih
      rw [crlf_cons (by decide), isCrlf, chunkValue_stray unknown', chunkValue_stray unknown, ih]
  | newline _ ih =>
      rw [chunkValue_return, chunkValue_newline, ih]
      rfl
  | plain notEscape notNewline _ ih =>
      rw [crlf_cons notNewline, chunkValue_cons notEscape notNewline,
        chunkValue_cons notEscape notNewline, ih]

theorem length_chunkValue_crlf (isBody : Body fstrEscapes segmentEnds body) (zero : Bool) :
    (chunkValue zero body).length ≤ (chunkValue zero (crlf body)).length := by
  induction isBody generalizing zero with
  | nil => exact le_rfl
  | escape known _ ih =>
      rw [crlf_cons (by decide), crlf_cons (noEnds_segment.known known), chunkValue_escape known,
        chunkValue_escape known]
      exact Nat.succ_le_succ (ih false)
  | @stray c rest unknown _ ih =>
      obtain ⟨c', rest', isCrlf, unknown'⟩ := noEnds_segment.stray unknown rest
      rw [isCrlf] at ih
      rw [crlf_cons (by decide), isCrlf, chunkValue_stray unknown', chunkValue_stray unknown]
      exact ih false
  | @plain b rest notEscape _ _ ih =>
      by_cases newline : b = 0x0a
      · subst newline
        rw [chunkValue_return, chunkValue_newline, List.length_append, List.length_cons,
          List.length_cons]
        have shorter := ih false
        omega
      · rw [crlf_cons newline, chunkValue_cons notEscape newline, chunkValue_cons notEscape newline,
          List.length_append, List.length_append]
        exact Nat.add_le_add_left (ih _) _

theorem masked_of_chunkValue (isBody : Body fstrEscapes segmentEnds body) {zero : Bool}
    (same : chunkValue zero (crlf body) = chunkValue zero body) : Masked zero body := by
  induction isBody generalizing zero with
  | nil => exact .nil zero
  | escape known _ ih =>
      rw [crlf_cons (by decide), crlf_cons (noEnds_segment.known known), chunkValue_escape known,
        chunkValue_escape known] at same
      exact .escape known (ih (List.cons.inj same).2)
  | @stray c rest unknown _ ih =>
      obtain ⟨c', rest', isCrlf, unknown'⟩ := noEnds_segment.stray unknown rest
      rw [crlf_cons (by decide), isCrlf, chunkValue_stray unknown', ← isCrlf,
        chunkValue_stray unknown] at same
      exact .stray unknown (ih same)
  | @plain b rest notEscape _ isRest ih =>
      by_cases newline : b = 0x0a
      · subst newline
        rw [chunkValue_return, chunkValue_newline] at same
        cases zero with
        | true => exact .newline (ih (List.cons.inj same).2)
        | false =>
            have longer := congrArg List.length same
            have shorter := length_chunkValue_crlf isRest false
            simp only [Bool.false_eq_true, if_false, List.length_append, List.length_cons,
              List.length_nil] at longer
            omega
      · rw [crlf_cons newline, chunkValue_cons notEscape newline,
          chunkValue_cons notEscape newline] at same
        exact .plain notEscape newline (ih (List.append_cancel_left same))

end Literals

/-! ## Calls -/

section Calls

variable {δ : Type} {floats : Floats δ} {a b l : Scanner} {r : Result δ}
  {body behind rest stringBuf : Text} {start : Start} {quote : UInt8} {s : Statics}

theorem calls_congr (same : yylex floats a = yylex floats b) (k : Nat) :
    calls floats k a = calls floats k b := by
  cases k with
  | zero => rfl
  | succ k => rw [calls, calls, same]

theorem Result.token_ne_fault (t : Token δ) : Result.token t ≠ .fault := by
  intro equal
  cases equal

theorem calls_of_returned (returned : yylex floats a = (r, b)) (noFault : r ≠ .fault) (k : Nat) :
    calls floats (k + 1) a = r :: calls floats k b := by
  rw [calls, returned]
  cases r with
  | fault => exact absurd rfl noFault
  | token | error => rfl

theorem calls_of_fault (returned : (yylex floats a).1 = .fault) (k : Nat) :
    calls floats (k + 1) a = [.fault] := by
  rw [calls, returned]

theorem not_sameCalls_of_returned {r' : Result δ} {a' b' : Scanner}
    (left : yylex floats a = (r, a')) (right : yylex floats b = (r', b')) (noFault : r ≠ .fault)
    (noFault' : r' ≠ .fault) (other : r ≠ r') : ¬SameCalls floats a b := by
  intro same
  have first := same 1
  rw [calls_of_returned left noFault, calls_of_returned right noFault'] at first
  exact other (List.cons.inj first).1

theorem sameCalls_of_returned {a' b' : Scanner} (left : yylex floats a = (r, a'))
    (right : yylex floats b = (r, b')) (noFault : r ≠ .fault) (same : SameCalls floats a b) :
    SameCalls floats a' b' := by
  intro k
  have next := same (k + 1)
  rw [calls_of_returned left noFault, calls_of_returned right noFault] at next
  exact (List.cons.inj next).2

theorem calls_ended {message : Text} (errors : ∀ l : Scanner, l.start = start → l.input = [] →
      step floats l = (some (.error message), l)) (starts : a.start = start) (ended : a.input = [])
    (k : Nat) : calls floats k a = List.replicate k (.error message) := by
  have returned : yylex floats a = (.error message, a) := by
    have isError := errors a starts ended
    rw [yylex_of_some (by rw [isError]), isError]
  induction k with
  | zero => rfl
  | succ k ih => rw [calls_of_returned returned nofun, ih, List.replicate_succ]

theorem string_errors (within : Within start quote) (l : Scanner) (starts : l.start = start)
    (ended : l.input = []) :
    step floats l = (some (.error (ascii "unterminated string")), l) := by
  obtain ⟨start', input, stringBuf, s⟩ := l
  cases starts
  cases ended
  rw [within.step]
  rfl

theorem fstr_errors (l : Scanner) (starts : l.start = .fstr) (ended : l.input = []) :
    step floats l = (some (.error (ascii "unterminated f-string")), l) := by
  obtain ⟨start', input, stringBuf, s⟩ := l
  cases starts
  cases ended
  rfl

theorem calls_open_string (floats : Floats δ) (stringBuf : Text) (s : Statics)
    (within : Within start quote) (isBody : Body escapes [quote] body)
    (isOpen : behind = [] ∨ behind = [0x5c]) (k : Nat) :
    calls floats k ⟨start, body ++ behind, stringBuf, s⟩ =
      List.replicate k (.error (ascii "unterminated string")) := by
  rw [calls_congr (quietly_string within isBody).yylex_eq.1]
  rcases isOpen with rfl | rfl
  · exact calls_ended (string_errors within) rfl rfl k
  · have backslash (stringBuf : Text) : step floats ⟨start, [0x5c], stringBuf, s⟩ =
        (none, ⟨start, [], stringBuf ++ [0x5c], s⟩) := by
      rw [within.step]
      cases within <;> rfl
    rw [calls_congr (yylex_of_none (by rw [backslash])), backslash]
    exact calls_ended (string_errors within) rfl rfl k

theorem calls_open_fstr (floats : Floats δ) (stringBuf : Text) (s : Statics)
    (isBody : Body fstrEscapes segmentEnds body) (isOpen : behind = [] ∨ behind = [0x5c])
    (k : Nat) :
    calls floats k ⟨.fstr, body ++ behind, stringBuf, s⟩ =
      List.replicate k (.error (ascii "unterminated f-string")) := by
  have stops : Stops segmentEnds behind := by
    rcases isOpen with rfl | rfl
    · exact .ended
    · exact .backslash
  have quietly : Quietly floats ⟨.fstr, body ++ behind, stringBuf, s⟩ _ _ :=
    quietly_chunk isBody stops
  have read := quietly.yylex_eq
  rw [calls_congr read.1]
  rcases isOpen with rfl | rfl
  · exact calls_ended fstr_errors rfl rfl k
  · rw [calls_congr (yylex_of_none rfl)]
    exact calls_ended fstr_errors rfl rfl k

theorem crlf_stop {table : List (UInt8 × UInt8)} {closing : List UInt8}
    (noEnds : NoEnds table closing) {close : UInt8} (ends : close ∈ closing) (body rest : Text) :
    crlf (body ++ close :: rest) = crlf body ++ close :: crlf rest := by
  have notNewline : close ≠ 0x0a := by
    rintro rfl
    exact noEnds.newlineEnds ends
  rw [crlf_append, crlf_cons notNewline]

end Calls

/-! ## All results -/

section Results

variable {δ : Type} {floats : Floats δ} {l : Scanner} {r : Result δ} {rule : Rule δ}
  {rest stringBuf : Text} {s : Statics}

theorem applyRule_next (isInitial : l.start = .initial) (rule : Rule δ) (rest : Text) :
    (applyRule l rule rest).2.start = (rule.next l.statics.fstrInterpDepth).1 ∧
      (applyRule l rule rest).2.statics.fstrInterpDepth =
        (rule.next l.statics.fstrInterpDepth).2 := by
  cases rule with
  | rbrace =>
      by_cases last : l.statics.fstrInterpDepth = 1
      · simp [applyRule, Rule.next, last]
      · simp [applyRule, Rule.next, last, isInitial]
  | mlComment | strDq | strSq | fstrBegin => exact ⟨rfl, rfl⟩
  | _ => exact ⟨isInitial, rfl⟩

theorem applyRule_fault :
    (applyRule l rule rest).1 = some .fault ↔
      ∃ semi nesting, rule = .returns .fault semi nesting := by
  cases rule with
  | newline =>
      refine iff_of_false (fun isFault => ?_) (by simp)
      rw [applyRule] at isFault
      split_ifs at isFault
      cases isFault
  | rbrace =>
      refine iff_of_false (fun isFault => ?_) (by simp)
      rw [applyRule] at isFault
      split_ifs at isFault <;> cases isFault
  | returns result semi nesting => simp [applyRule]
  | _ => simp [applyRule]

/-- What is read from a state of the lexer on. -/
def SpansFrom (floats : Floats δ) (l : Scanner) : Prop :=
  Spans floats l.start l.statics.fstrInterpDepth l.input

theorem crlfStep (floats : Floats δ) (outside : l.start = .initial ∨ l.start = .mlComment) :
    CrlfStep floats l := by
  obtain ⟨start, input, stringBuf, s⟩ := l
  rcases outside with isStart | isStart
  · cases isStart
    exact crlfStep_initial input
  · cases isStart
    exact crlfStep_mlComment input

theorem spansFrom_of_step (outside : l.start = .initial ∨ l.start = .mlComment)
    (noFault : (step floats l).1 ≠ some .fault) (more : SpansFrom floats (step floats l).2) :
    SpansFrom floats l := by
  obtain ⟨start, input, stringBuf, s⟩ := l
  rcases outside with isStart | isStart
  · cases isStart
    cases input with
    | nil =>
        rw [step, scanInitial] at more
        split_ifs at more <;> exact more
    | cons b rest =>
        obtain ⟨starts, depths⟩ := applyRule_next (l := ⟨.initial, b :: rest, stringBuf, s⟩) rfl
          (matchRule floats b rest).1 (matchRule floats b rest).2
        rw [SpansFrom, step, scanInitial] at more
        rw [step, scanInitial] at noFault
        rw [starts, depths, applyRule_input] at more
        rw [Ne, applyRule_fault] at noFault
        exact .rule (fun semi nesting isFault => noFault ⟨semi, nesting, isFault⟩) more
  · cases isStart
    cases input with
    | nil => exact more
    | cons b rest =>
        by_cases ends : [0x22, 0x22, 0x22] <+: b :: rest
        · have after : (step floats ⟨.mlComment, b :: rest, stringBuf, s⟩) =
              (none, ⟨.initial, rest.drop 2, stringBuf, s⟩) := if_pos ends
          obtain ⟨rest', same⟩ := ends
          cases same
          exact .commentEnd more
        · have after : (step floats ⟨.mlComment, b :: rest, stringBuf, s⟩) =
              (none, ⟨.mlComment, rest, stringBuf, s⟩) := if_neg ends
          rw [after] at more
          exact .comment ends more

theorem sameCalls_of_step (outside : l.start = .initial ∨ l.start = .mlComment)
    (noFault : (step floats l).1 ≠ some .fault) (same : SameCalls floats l.crlf l) :
    SameCalls floats (step floats l).2.crlf (step floats l).2 := by
  cases crlfStep floats outside with
  | @goesOn l' steps alike =>
      have quiet : yylex floats l = yylex floats l' := by
        rw [yylex_of_none (by rw [steps]), steps]
      intro k
      rw [steps, ← calls_congr alike, ← calls_congr quiet]
      exact same k
  | @returns r l' l'' steps alike follow =>
      rw [steps] at noFault ⊢
      have returned : yylex floats l = (r, l') := by rw [yylex_of_some (by rw [steps]), steps]
      have next := sameCalls_of_returned alike returned
        (fun isFault => noFault (congrArg _ isFault)) same
      intro k
      rw [← calls_congr follow]
      exact next k

theorem sameCalls_of_none {l' : Scanner} (outside : l.start = .initial ∨ l.start = .mlComment)
    (steps : step floats l = (none, l')) (same : SameCalls floats l.crlf l) :
    SameCalls floats l'.crlf l' := by
  have noFault : (step floats l).1 ≠ some .fault := by
    rw [steps]
    exact (Option.some_ne_none _).symm
  have next := sameCalls_of_step outside noFault same
  rwa [steps] at next

section Values

variable {start : Start} {quote close : UInt8} {body : Text}

theorem not_sameCalls_of_newline (within : Within start quote) (isBody : Body escapes [quote] body)
    (newline : 0x0a ∈ body) :
    ¬SameCalls floats (Scanner.crlf ⟨start, body ++ quote :: rest, stringBuf, s⟩)
      ⟨start, body ++ quote :: rest, stringBuf, s⟩ := by
  have noEnds := noEnds_string within
  rw [Scanner.crlf, crlf_stop noEnds List.mem_cons_self]
  refine not_sameCalls_of_returned (yylex_string within (isBody.crlf noEnds))
    (yylex_string within isBody) (Result.token_ne_fault _) (Result.token_ne_fault _) fun same => ?_
  simp only [Result.token.injEq, Token.string.injEq] at same
  exact stringValue_crlf_ne noEnds isBody newline (List.append_cancel_left same)

theorem returned_string (within : Within start quote) (isBody : Body escapes [quote] body)
    (noNewline : 0x0a ∉ body) :
    yylex floats (Scanner.crlf ⟨start, body ++ quote :: rest, stringBuf, s⟩) =
      (.token (.string (stringBuf ++ stringValue body)), Scanner.crlf
        ⟨.initial, rest, stringBuf ++ stringValue body, { s with needSemi := true }⟩) := by
  rw [Scanner.crlf, crlf_stop (noEnds_string within) List.mem_cons_self, crlf_eq_self noNewline]
  exact yylex_string within isBody

/-- The token at the end of a segment. -/
def segmentToken (close : UInt8) (chunk : Text) : Token δ :=
  if close = 0x22 then .fstrFinish chunk else .fstrInterpBegin chunk

/-- The static variables behind it. -/
def behindSegment (close : UInt8) (s : Statics) : Statics :=
  if close = 0x22 then { s with needSemi := true, fstrBuf := [] }
  else { s with fstrBuf := [], fstrInterpDepth := 1 }

theorem yylex_segment (ends : close ∈ segmentEnds) (isBody : Body fstrEscapes segmentEnds body) :
    yylex floats ⟨.fstr, body ++ close :: rest, stringBuf, s⟩ =
      (.token (segmentToken close (s.fstrBuf ++ chunkValue false body)),
        ⟨.initial, rest, stringBuf, behindSegment close s⟩) := by
  simp only [segmentEnds, List.mem_cons, List.not_mem_nil, or_false] at ends
  rcases ends with rfl | rfl
  · exact yylex_finish isBody
  · exact yylex_interpBegin isBody

theorem not_sameCalls_of_unmasked (ends : close ∈ segmentEnds)
    (isBody : Body fstrEscapes segmentEnds body) (unmasked : ¬Masked false body) :
    ¬SameCalls floats (Scanner.crlf ⟨.fstr, body ++ close :: rest, stringBuf, s⟩)
      ⟨.fstr, body ++ close :: rest, stringBuf, s⟩ := by
  rw [Scanner.crlf, crlf_stop noEnds_segment ends]
  refine not_sameCalls_of_returned (yylex_segment ends (isBody.crlf noEnds_segment))
    (yylex_segment ends isBody) (Result.token_ne_fault _) (Result.token_ne_fault _)
    fun same => unmasked ?_
  refine masked_of_chunkValue isBody (@List.append_cancel_left _ s.fstrBuf _ _ ?_)
  rw [Result.token.injEq, segmentToken, segmentToken] at same
  split_ifs at same
  · exact Token.fstrFinish.inj same
  · exact Token.fstrInterpBegin.inj same

theorem returned_segment (ends : close ∈ segmentEnds) (isBody : Body fstrEscapes segmentEnds body)
    (masked : Masked false body) :
    yylex floats (Scanner.crlf ⟨.fstr, body ++ close :: rest, stringBuf, s⟩) =
      (.token (segmentToken close (s.fstrBuf ++ chunkValue false body)),
        Scanner.crlf ⟨.initial, rest, stringBuf, behindSegment close s⟩) := by
  rw [Scanner.crlf, crlf_stop noEnds_segment ends, ← masked.chunkValue_crlf]
  exact yylex_segment ends (isBody.crlf noEnds_segment)

theorem not_sameCalls_of_segment (ends : close ∈ segmentEnds)
    (isBody : Body fstrEscapes segmentEnds body)
    (other : ¬SameCalls floats (Scanner.crlf ⟨.initial, rest, stringBuf, behindSegment close s⟩)
      ⟨.initial, rest, stringBuf, behindSegment close s⟩) :
    ¬SameCalls floats (Scanner.crlf ⟨.fstr, body ++ close :: rest, stringBuf, s⟩)
      ⟨.fstr, body ++ close :: rest, stringBuf, s⟩ := by
  by_cases masked : Masked false body
  · intro same
    exact other (sameCalls_of_returned (returned_segment ends isBody masked)
      (yylex_segment ends isBody) (Result.token_ne_fault _) same)
  · exact not_sameCalls_of_unmasked ends isBody masked

end Values

theorem not_sameCalls_of_spans {start : Start} {depth : Nat} {text : Text}
    (spans : Spans floats start depth text) (stringBuf : Text) {s : Statics}
    (isDepth : s.fstrInterpDepth = depth) :
    ¬SameCalls floats (Scanner.crlf ⟨start, text, stringBuf, s⟩) ⟨start, text, stringBuf, s⟩ := by
  induction spans generalizing stringBuf s with
  | @rule depth b rest inRange more ih =>
      intro same
      obtain ⟨starts, depths⟩ := applyRule_next (l := ⟨.initial, b :: rest, stringBuf, s⟩) rfl
        (matchRule floats b rest).1 (matchRule floats b rest).2
      have inputs := applyRule_input ⟨.initial, b :: rest, stringBuf, s⟩
        (matchRule floats b rest).1 (matchRule floats b rest).2
      have noFault : (step floats ⟨.initial, b :: rest, stringBuf, s⟩).1 ≠ some .fault := by
        rw [step, scanInitial]
        rw [Ne, applyRule_fault]
        rintro ⟨semi, nesting, isFault⟩
        exact inRange semi nesting isFault
      have next := sameCalls_of_step (.inl rfl) noFault same
      have steps : step floats ⟨.initial, b :: rest, stringBuf, s⟩ =
        applyRule ⟨.initial, b :: rest, stringBuf, s⟩ (matchRule floats b rest).1
          (matchRule floats b rest).2 := rfl
      rw [steps] at next
      generalize applyRule ⟨.initial, b :: rest, stringBuf, s⟩ (matchRule floats b rest).1
        (matchRule floats b rest).2 = stepped at next starts depths inputs
      obtain ⟨r, start, input, stringBuf', s'⟩ := stepped
      dsimp only at starts depths inputs next
      rw [isDepth] at starts depths
      rw [starts, inputs] at next
      exact ih stringBuf' depths next
  | @comment depth b rest notEnd more ih =>
      intro same
      have steps : step floats ⟨.mlComment, b :: rest, stringBuf, s⟩ =
        (none, ⟨.mlComment, rest, stringBuf, s⟩) := if_neg notEnd
      exact ih stringBuf isDepth (sameCalls_of_none (.inr rfl) steps same)
  | @commentEnd depth rest more ih =>
      intro same
      have steps : step floats ⟨.mlComment, 0x22 :: 0x22 :: 0x22 :: rest, stringBuf, s⟩ =
        (none, ⟨.initial, rest, stringBuf, s⟩) := by
        rw [step, scanMlComment]
        exact if_pos (List.prefix_append [0x22, 0x22, 0x22] rest)
      exact ih stringBuf isDepth (sameCalls_of_none (.inr rfl) steps same)
  | string within isBody newline => exact not_sameCalls_of_newline within isBody newline
  | @afterString start quote depth body rest within isBody more ih =>
      by_cases newline : 0x0a ∈ body
      · exact not_sameCalls_of_newline within isBody newline
      · intro same
        refine ih (stringBuf ++ stringValue body) (s := { s with needSemi := true }) isDepth ?_
        exact sameCalls_of_returned (returned_string within isBody newline)
          (yylex_string within isBody) (Result.token_ne_fault _) same
  | segment ends isBody unmasked => exact not_sameCalls_of_unmasked ends isBody unmasked
  | finish isBody more ih =>
      exact not_sameCalls_of_segment (by decide) isBody (ih stringBuf isDepth)
  | interpolation isBody more ih =>
      exact not_sameCalls_of_segment (by decide) isBody (ih stringBuf rfl)

theorem calls_string {start : Start} {quote : UInt8} (within : Within start quote) {input : Text}
    (notSpans : ¬SpansFrom floats ⟨start, input, stringBuf, s⟩) {k : Nat}
    (ih : ∀ l, ¬SpansFrom floats l → calls floats k l.crlf = calls floats k l) :
    calls floats (k + 1) (Scanner.crlf ⟨start, input, stringBuf, s⟩) =
      calls floats (k + 1) ⟨start, input, stringBuf, s⟩ := by
  have known : ∀ b ∈ [0x5c, quote], escapes.lookup b ≠ none := by
    rw [List.forall_mem_cons, List.forall_mem_singleton]
    cases within <;> decide
  obtain ⟨body, behind, rfl, isBody, stops⟩ := exists_body known input
  have noEnds := noEnds_string within
  cases stops with
  | @closed close rest ends =>
      obtain rfl := List.mem_singleton.1 ends
      have noNewline : 0x0a ∉ body := fun newline => notSpans (.string within isBody newline)
      have notSpans' : ¬SpansFrom floats
          ⟨.initial, rest, stringBuf ++ stringValue body, { s with needSemi := true }⟩ :=
        fun more => notSpans (.afterString within isBody more)
      rw [calls_of_returned (returned_string within isBody noNewline) (Result.token_ne_fault _),
        calls_of_returned (yylex_string within isBody) (Result.token_ne_fault _), ih _ notSpans']
  | ended =>
      rw [Scanner.crlf, crlf_append, calls_open_string floats stringBuf s within isBody (.inl rfl)]
      exact calls_open_string floats stringBuf s within (isBody.crlf noEnds) (.inl rfl) (k + 1)
  | backslash =>
      rw [Scanner.crlf, crlf_append, calls_open_string floats stringBuf s within isBody (.inr rfl)]
      exact calls_open_string floats stringBuf s within (isBody.crlf noEnds) (.inr rfl) (k + 1)

theorem calls_fstr {input : Text} (notSpans : ¬SpansFrom floats ⟨.fstr, input, stringBuf, s⟩)
    {k : Nat} (ih : ∀ l, ¬SpansFrom floats l → calls floats k l.crlf = calls floats k l) :
    calls floats (k + 1) (Scanner.crlf ⟨.fstr, input, stringBuf, s⟩) =
      calls floats (k + 1) ⟨.fstr, input, stringBuf, s⟩ := by
  have known : ∀ b ∈ 0x5c :: segmentEnds, fstrEscapes.lookup b ≠ none := by
    rw [segmentEnds, List.forall_mem_cons, List.forall_mem_cons, List.forall_mem_singleton]
    decide
  obtain ⟨body, behind, rfl, isBody, stops⟩ := exists_body known input
  cases stops with
  | @closed close rest ends =>
      have masked : Masked false body := by
        by_contra unmasked
        exact notSpans (.segment ends isBody unmasked)
      have notSpans' : ¬SpansFrom floats ⟨.initial, rest, stringBuf, behindSegment close s⟩ := by
        intro more
        simp only [segmentEnds, List.mem_cons, List.not_mem_nil, or_false] at ends
        rcases ends with rfl | rfl
        · exact notSpans (.finish isBody more)
        · exact notSpans (.interpolation isBody more)
      rw [calls_of_returned (returned_segment ends isBody masked) (Result.token_ne_fault _),
        calls_of_returned (yylex_segment ends isBody) (Result.token_ne_fault _), ih _ notSpans']
  | ended =>
      rw [Scanner.crlf, crlf_append, calls_open_fstr floats stringBuf s isBody (.inl rfl)]
      exact calls_open_fstr floats stringBuf s (isBody.crlf noEnds_segment) (.inl rfl) (k + 1)
  | backslash =>
      rw [Scanner.crlf, crlf_append, calls_open_fstr floats stringBuf s isBody (.inr rfl)]
      exact calls_open_fstr floats stringBuf s (isBody.crlf noEnds_segment) (.inr rfl) (k + 1)

/-- Without such a literal all results are the same. -/
theorem calls_crlf (k : Nat) (l : Scanner) (notSpans : ¬SpansFrom floats l) :
    calls floats k l.crlf = calls floats k l := by
  induction k generalizing l with
  | zero => rfl
  | succ k ih =>
      -- the rules of one call that return nothing take something of the text
      generalize size : l.input.length = n
      induction n using Nat.strong_induction_on generalizing l with
      | _ n inner =>
        have outsideCase (outside : l.start = .initial ∨ l.start = .mlComment) :
            calls floats (k + 1) l.crlf = calls floats (k + 1) l := by
          cases crlfStep floats outside with
          | @goesOn l' steps alike =>
              have quiet : yylex floats l = yylex floats l' := by
                rw [yylex_of_none (by rw [steps]), steps]
              have shorter : l'.input.length < n := by
                rw [← size]
                have taken := @step_length _ floats l (by rw [steps])
                rwa [steps] at taken
              rw [calls_congr alike, calls_congr quiet]
              refine inner _ shorter l' (fun more => notSpans ?_) rfl
              exact spansFrom_of_step outside (by rw [steps]; nofun) (by rwa [steps])
          | @returns r l' l'' steps alike follow =>
              have returned : yylex floats l = (r, l') := by
                rw [yylex_of_some (by rw [steps]), steps]
              cases isFault : r with
              | fault =>
                  rw [isFault] at alike returned
                  rw [calls_of_fault (by rw [alike]), calls_of_fault (by rw [returned])]
              | token | error =>
                  have noFault : r ≠ .fault := by
                    rw [isFault]
                    nofun
                  rw [calls_of_returned alike noFault, calls_of_returned returned noFault,
                    calls_congr follow]
                  refine congrArg _ (ih l' fun more => notSpans ?_)
                  refine spansFrom_of_step outside ?_ (by rwa [steps])
                  rw [steps]
                  exact fun isFault => noFault (Option.some.inj isFault)
        obtain ⟨start, input, stringBuf, s⟩ := l
        cases start with
        | initial => exact outsideCase (.inl rfl)
        | mlComment => exact outsideCase (.inr rfl)
        | strSq => exact calls_string .sq notSpans ih
        | strDq => exact calls_string .dq notSpans ih
        | fstr => exact calls_fstr notSpans ih

/-- Other line ends do not change the results of the lexer exactly if there is no string and no
f-string that goes over lines, but for newlines behind a zero. -/
theorem sameCalls_iff (floats : Floats δ) (statics : Statics) (stringBuf text : Text) :
    SameCalls floats (.ofFile statics stringBuf (crlf text)) (.ofFile statics stringBuf text) ↔
      ¬Spans floats .initial statics.fstrInterpDepth text := by
  constructor
  · intro same spans
    exact not_sameCalls_of_spans spans stringBuf rfl same
  · intro notSpans k
    exact calls_crlf k (.ofFile statics stringBuf text) notSpans

/-- A string of one newline. -/
theorem not_sameCalls_newline : ¬∀ {δ : Type} (floats : Floats δ) (statics : Statics)
    (stringBuf text : Text),
    SameCalls floats (.ofFile statics stringBuf (crlf text)) (.ofFile statics stringBuf text) := by
  intro always
  have same := always (⟨fun _ => none, fun _ => ()⟩ : Floats Unit) .initial [] [0x22, 0x0a, 0x22] 1
  exact absurd same (by decide +kernel)

end Results

end Dux.Lexer
