import Dux.Lexer.Scan

/-!
# Strings and f-strings

The two sets of rules that read what stands between quotes (`src/lexer/dux.l`): the values that
they give to it, and what the default rule of the lexer echoes.
-/

namespace Dux.Lexer

open Logic (cText head_dropWhile)

/-- What stands between the quotes of a literal, by the escapes that are read there and the bytes
that end it. -/
inductive Body (table : List (UInt8 × UInt8)) (closing : List UInt8) : Text → Prop
  | nil : Body table closing []
  | escape {c v : UInt8} {rest : Text} (known : table.lookup c = some v)
      (body : Body table closing rest) : Body table closing (0x5c :: c :: rest)
  | stray {c : UInt8} {rest : Text} (unknown : table.lookup c = none)
      (body : Body table closing (c :: rest)) : Body table closing (0x5c :: c :: rest)
  | plain {b : UInt8} {rest : Text} (notEscape : b ≠ 0x5c) (notClosing : b ∉ closing)
      (body : Body table closing rest) : Body table closing (b :: rest)

def stringValue : Text → Text
  | [] => []
  | b :: rest =>
      match (if b = 0x5c then readEscape escapes rest else none) with
      | some c => c :: stringValue (rest.drop 1)
      | none => b :: stringValue rest
termination_by text => text.length
decreasing_by
  · exact Nat.lt_succ_of_le (List.drop_suffix 1 rest).length_le
  · exact Nat.lt_succ_self _

/-- The value of a segment of an f-string.  Plain bytes are appended together as a C string, so
that those behind a zero are lost. -/
def chunkValue (zero : Bool) : Text → Text
  | [] => []
  | b :: rest =>
      if b = 0x5c then
        match readEscape fstrEscapes rest with
        | some c => c :: chunkValue false (rest.drop 1)
        | none => chunkValue false rest
      else if b = 0x0a then 0x0a :: chunkValue false rest
      else if zero || b = 0 then chunkValue true rest
      else b :: chunkValue false rest
termination_by text => text.length
decreasing_by
  · exact Nat.lt_succ_of_le (List.drop_suffix 1 rest).length_le
  all_goals exact Nat.lt_succ_self _

/-- The backslashes of a segment that begin no escape. -/
def strayBackslashes : Text → Text
  | [] => []
  | b :: rest =>
      if b = 0x5c then
        match readEscape fstrEscapes rest with
        | some _ => strayBackslashes (rest.drop 1)
        | none => 0x5c :: strayBackslashes rest
      else strayBackslashes rest
termination_by text => text.length
decreasing_by
  · exact Nat.lt_succ_of_le (List.drop_suffix 1 rest).length_le
  all_goals exact Nat.lt_succ_self _

section Echo

variable {δ : Type}

/-- What the default rule writes to the standard output in a step: the byte for which there is no
rule. -/
def stepEcho (l : Scanner) : Text :=
  match l.start, l.input with
  | .fstr, b :: rest =>
      if b = 0x5c then
        match readEscape fstrEscapes rest with
        | some _ => []
        | none => [b]
      else []
  | _, _ => []

/-- What is echoed until a rule returns, with at most so many rules. -/
def echo (floats : Floats δ) : Nat → Scanner → Text
  | 0, _ => []
  | n + 1, l =>
      stepEcho l ++ if (step floats l).1.isSome then [] else echo floats n (step floats l).2

/-- What a call of `yylex` echoes. -/
def yylexEcho (floats : Floats δ) (l : Scanner) : Text := echo floats (l.input.length + 1) l

/-- Rules that return nothing, with what is echoed. -/
inductive Quietly (floats : Floats δ) : Scanner → Text → Scanner → Prop
  | refl (l : Scanner) : Quietly floats l [] l
  | step {l l' : Scanner} {out : Text} (goesOn : (step floats l).1 = none)
      (rest : Quietly floats (step floats l).2 out l') :
      Quietly floats l (stepEcho l ++ out) l'

variable {floats : Floats δ} {l l' : Scanner} {out : Text}

theorem echo_eq {n m : Nat} (small : l.input.length < n) (small' : l.input.length < m) :
    echo floats n l = echo floats m l := by
  induction n generalizing m l with
  | zero => exact absurd small (Nat.not_lt_zero _)
  | succ n ih =>
      cases m with
      | zero => exact absurd small' (Nat.not_lt_zero _)
      | succ m =>
          rw [echo, echo]
          cases returned : (Lexer.step floats l).1 with
          | some result => rfl
          | none =>
              have shorter := step_length returned
              rw [ih (m := m) (by omega) (by omega)]

theorem yylexEcho_of_some {result : Result δ} (returned : (step floats l).1 = some result) :
    yylexEcho floats l = stepEcho l := by
  rw [yylexEcho, echo, returned, Option.isSome_some, if_pos rfl, List.append_nil]

theorem yylexEcho_of_none (goesOn : (step floats l).1 = none) :
    yylexEcho floats l = stepEcho l ++ yylexEcho floats (step floats l).2 := by
  rw [yylexEcho, echo, goesOn, Option.isSome_none, if_neg Bool.false_ne_true, yylexEcho,
    echo_eq (step_length goesOn) (Nat.lt_succ_self _)]

theorem Quietly.yylex_eq (quietly : Quietly floats l out l') :
    yylex floats l = yylex floats l' ∧ yylexEcho floats l = out ++ yylexEcho floats l' := by
  induction quietly with
  | refl l => exact ⟨rfl, rfl⟩
  | step goesOn _ ih =>
      rw [yylex_of_none goesOn, yylexEcho_of_none goesOn, ih.2, List.append_assoc]
      exact ⟨ih.1, rfl⟩

theorem quietly_of_step {l'' : Scanner} (goesOn : step floats l = (none, l''))
    (rest : Quietly floats l'' out l') : Quietly floats l (stepEcho l ++ out) l' := by
  refine .step (by rw [goesOn]) ?_
  rwa [goesOn]

end Echo

/-! ## Bodies -/

section Bodies

variable {table : List (UInt8 × UInt8)} {closing closing' : List UInt8} {body : Text}

theorem Body.mono (fewer : closing' ⊆ closing) (isBody : Body table closing body) :
    Body table closing' body := by
  induction isBody with
  | nil => exact .nil
  | escape known _ ih => exact .escape known ih
  | stray unknown _ ih => exact .stray unknown ih
  | plain notEscape notClosing _ ih =>
      exact .plain notEscape (fun member => notClosing (fewer member)) ih

theorem Body.dropWhile {p : UInt8 → Bool} (noEscape : p 0x5c = false)
    (isBody : Body table closing body) : Body table closing (body.dropWhile p) := by
  induction isBody with
  | nil => exact .nil
  | escape known isRest _ =>
      rw [List.dropWhile_cons_of_neg (by simp [noEscape])]
      exact .escape known isRest
  | stray unknown isRest _ =>
      rw [List.dropWhile_cons_of_neg (by simp [noEscape])]
      exact .stray unknown isRest
  | @plain b rest notEscape notClosing isRest ih =>
      by_cases isFront : p b = true
      · rwa [List.dropWhile_cons_of_pos isFront]
      · rw [List.dropWhile_cons_of_neg isFront]
        exact .plain notEscape notClosing isRest

theorem readEscape_cons (c : UInt8) (rest : Text) : readEscape table (c :: rest) = table.lookup c :=
  rfl

theorem lookup_fstrEscapes {c : UInt8} (other : c ≠ 0x27) :
    fstrEscapes.lookup c = escapes.lookup c := by
  simp only [fstrEscapes, escapes, List.lookup_cons, beq_false_of_ne other]

theorem Body.fstr (noQuote : 0x27 ∉ closing) (isBody : Body escapes closing body) :
    Body fstrEscapes closing body := by
  induction isBody with
  | nil => exact .nil
  | @escape c v rest known _ ih =>
      by_cases quote : c = 0x27
      · rw [quote]
        exact .stray rfl (.plain (by decide) noQuote ih)
      · exact .escape ((lookup_fstrEscapes quote).trans known) ih
  | @stray c rest unknown _ ih =>
      have other : c ≠ 0x27 := by
        rintro rfl
        cases unknown
      exact .stray ((lookup_fstrEscapes other).trans unknown) ih
  | plain notEscape notClosing _ ih => exact .plain notEscape notClosing ih

end Bodies

/-! ## Values -/

section Values

variable {b c v : UInt8} {rest : Text} {zero : Bool}

theorem stringValue_escape (known : escapes.lookup c = some v) (rest : Text) :
    stringValue (0x5c :: c :: rest) = v :: stringValue rest := by
  rw [stringValue, if_pos rfl, readEscape_cons, known]
  rfl

theorem stringValue_stray (unknown : escapes.lookup c = none) (rest : Text) :
    stringValue (0x5c :: c :: rest) = 0x5c :: stringValue (c :: rest) := by
  rw [stringValue, if_pos rfl, readEscape_cons, unknown]

theorem stringValue_plain (notEscape : b ≠ 0x5c) (rest : Text) :
    stringValue (b :: rest) = b :: stringValue rest := by
  rw [stringValue, if_neg notEscape]

theorem chunkValue_escape (known : fstrEscapes.lookup c = some v) (zero : Bool) (rest : Text) :
    chunkValue zero (0x5c :: c :: rest) = v :: chunkValue false rest := by
  rw [chunkValue, if_pos rfl, readEscape_cons, known]
  rfl

theorem chunkValue_stray (unknown : fstrEscapes.lookup c = none) (zero : Bool) (rest : Text) :
    chunkValue zero (0x5c :: c :: rest) = chunkValue false (c :: rest) := by
  rw [chunkValue, if_pos rfl, readEscape_cons, unknown]

theorem chunkValue_newline (zero : Bool) (rest : Text) :
    chunkValue zero (0x0a :: rest) = 0x0a :: chunkValue false rest := by
  rw [chunkValue, if_neg (by decide), if_pos rfl]

theorem chunkValue_lost (notEscape : b ≠ 0x5c) (notNewline : b ≠ 0x0a)
    (lost : (zero || decide (b = 0)) = true) (rest : Text) :
    chunkValue zero (b :: rest) = chunkValue true rest := by
  rw [chunkValue, if_neg notEscape, if_neg notNewline, if_pos lost]

theorem chunkValue_kept (notEscape : b ≠ 0x5c) (notNewline : b ≠ 0x0a) (notZero : b ≠ 0)
    (rest : Text) : chunkValue false (b :: rest) = b :: chunkValue false rest := by
  rw [chunkValue, if_neg notEscape, if_neg notNewline, if_neg (by simpa using notZero)]

/-- What ends a segment of an f-string. -/
def segmentEnds : List UInt8 := [0x22, 0x7b]

theorem isPlain_of_not_mem {b : UInt8} (notEscape : b ≠ 0x5c) (notNewline : b ≠ 0x0a)
    (notClosing : b ∉ segmentEnds) : isPlain b = true := by
  simp only [segmentEnds, List.mem_cons, List.not_mem_nil, or_false, not_or] at notClosing
  simp [isPlain, notClosing, notEscape, notNewline]

theorem chunkValue_of_not_isPlain (isBody : Body fstrEscapes segmentEnds rest)
    (ends : ∀ b ∈ rest.head?, isPlain b = false) (zero : Bool) :
    chunkValue zero rest = chunkValue false rest := by
  cases isBody with
  | nil => rw [chunkValue, chunkValue]
  | escape known isBody => rw [chunkValue_escape known, chunkValue_escape known]
  | stray unknown isBody => rw [chunkValue_stray unknown, chunkValue_stray unknown]
  | @plain b rest notEscape notClosing isBody =>
      by_cases newline : b = 0x0a
      · rw [newline, chunkValue_newline, chunkValue_newline]
      · have notPlain := ends b rfl
        rw [isPlain_of_not_mem notEscape newline notClosing] at notPlain
        cases notPlain

theorem chunkValue_run {run : Text} (plain : ∀ b ∈ run, isPlain b = true) (zero : Bool)
    (rest : Text) : chunkValue zero (run ++ rest) =
      (if zero then [] else cText run) ++ chunkValue (zero || decide (0 ∈ run)) rest := by
  induction run generalizing zero with
  | nil => cases zero <;> simp [cText]
  | cons b run ih =>
      rw [List.forall_mem_cons] at plain
      have isPlain := plain.1
      simp only [Lexer.isPlain, Bool.and_eq_true, decide_eq_true_eq] at isPlain
      have others := ih plain.2
      cases zero with
      | true =>
          rw [List.cons_append, chunkValue_lost isPlain.1.2 isPlain.2 rfl, others true]
          rfl
      | false =>
          by_cases isZero : b = 0
          · rw [List.cons_append, chunkValue_lost isPlain.1.2 isPlain.2 (by simp [isZero]),
              others true]
            simp [cText, isZero]
          · rw [List.cons_append, chunkValue_kept isPlain.1.2 isPlain.2 isZero, others false]
            simp [cText, isZero, Ne.symm isZero]

theorem chunkValue_plain (plain : isPlain b = true) (isBody : Body fstrEscapes segmentEnds rest) :
    chunkValue false (b :: rest) =
      cText (b :: rest.takeWhile isPlain) ++ chunkValue false (rest.dropWhile isPlain) := by
  have run : ∀ c ∈ b :: rest.takeWhile isPlain, isPlain c = true := by
    rw [List.forall_mem_cons]
    exact ⟨plain, fun c => List.mem_takeWhile_imp⟩
  have whole := chunkValue_run run false (rest.dropWhile isPlain)
  rw [List.cons_append, List.takeWhile_append_dropWhile] at whole
  rw [whole, chunkValue_of_not_isPlain (isBody.dropWhile (by decide)) (head_dropWhile _ _)]
  rfl

theorem strayBackslashes_plain (notEscape : b ≠ 0x5c) (rest : Text) :
    strayBackslashes (b :: rest) = strayBackslashes rest := by
  rw [strayBackslashes, if_neg notEscape]

theorem strayBackslashes_dropWhile (text : Text) :
    strayBackslashes (text.dropWhile isPlain) = strayBackslashes text := by
  induction text with
  | nil => rfl
  | cons b text ih =>
      by_cases plain : isPlain b = true
      · have notEscape : b ≠ 0x5c := by
          rintro rfl
          cases plain
        rw [List.dropWhile_cons_of_pos plain, ih, strayBackslashes_plain notEscape]
      · rw [List.dropWhile_cons_of_neg plain]

end Values

/-! ## Reading -/

section Reading

variable {δ : Type} {floats : Floats δ} {body behind rest stringBuf fstrBuf : Text}
  {needSemi : Bool}
  {nesting : Int} {depth : Nat} {s : Statics}

/-- The start condition of a string with its quote. -/
inductive Within : Start → UInt8 → Prop
  | sq : Within .strSq 0x27
  | dq : Within .strDq 0x22

theorem Within.step {start : Start} {quote : UInt8} (within : Within start quote) (input : Text)
    (stringBuf : Text) (s : Statics) :
    step floats ⟨start, input, stringBuf, s⟩ =
      scanString quote ⟨start, input, stringBuf, s⟩ := by
  cases within <;> rfl

/-- What is behind the content of a literal: its end, or nothing, or a last backslash. -/
inductive Stops (closing : List UInt8) : Text → Prop
  | closed {close : UInt8} {rest : Text} (ends : close ∈ closing) : Stops closing (close :: rest)
  | ended : Stops closing []
  | backslash : Stops closing [0x5c]

theorem quietly_string {start : Start} {quote : UInt8} (within : Within start quote)
    (isBody : Body escapes [quote] body) :
    Quietly floats ⟨start, body ++ behind, stringBuf, s⟩ []
      ⟨start, behind, stringBuf ++ stringValue body, s⟩ := by
  have notEscape : (0x5c : UInt8) ≠ quote := by cases within <;> decide
  have noEcho (input stringBuf : Text) : stepEcho ⟨start, input, stringBuf, s⟩ = [] := by
    cases within <;> rfl
  induction isBody generalizing stringBuf with
  | nil =>
      rw [stringValue, List.append_nil]
      exact .refl _
  | @escape c v rest' known _ ih =>
      have goesOn : step floats ⟨start, 0x5c :: c :: rest' ++ behind, stringBuf, s⟩ =
          (none, ⟨start, rest' ++ behind, stringBuf ++ [v], s⟩) := by
        rw [within.step]
        simp [scanString, notEscape, readEscape, known]
      have read := quietly_of_step goesOn ih
      rw [noEcho, List.append_assoc] at read
      rw [stringValue_escape known]
      exact read
  | @stray c rest' unknown _ ih =>
      have goesOn : step floats ⟨start, 0x5c :: c :: rest' ++ behind, stringBuf, s⟩ =
          (none, ⟨start, c :: rest' ++ behind, stringBuf ++ [0x5c], s⟩) := by
        rw [within.step]
        simp [scanString, notEscape, readEscape, unknown]
      have read := quietly_of_step goesOn ih
      rw [noEcho, List.append_assoc] at read
      rw [stringValue_stray unknown]
      exact read
  | @plain b rest' isOther notClosing _ ih =>
      have notQuote : b ≠ quote := by simpa using notClosing
      have goesOn : step floats ⟨start, b :: rest' ++ behind, stringBuf, s⟩ =
          (none, ⟨start, rest' ++ behind, stringBuf ++ [b], s⟩) := by
        rw [within.step]
        simp [scanString, notQuote, isOther]
      have read := quietly_of_step goesOn ih
      rw [noEcho, List.append_assoc] at read
      rw [stringValue_plain isOther]
      exact read

theorem yylex_string {start : Start} {quote : UInt8} (within : Within start quote)
    (isBody : Body escapes [quote] body) :
    yylex floats ⟨start, body ++ quote :: rest, stringBuf, s⟩ =
      (.token (.string (stringBuf ++ stringValue body)),
        ⟨.initial, rest, stringBuf ++ stringValue body, { s with needSemi := true }⟩) := by
  have returns : step floats ⟨start, quote :: rest, stringBuf ++ stringValue body, s⟩ =
      (some (.token (.string (stringBuf ++ stringValue body))),
        ⟨.initial, rest, stringBuf ++ stringValue body, { s with needSemi := true }⟩) := by
    rw [within.step]
    simp [scanString]
  rw [(quietly_string within isBody).yylex_eq.1, yylex_of_some (by rw [returns]), returns]

theorem takeWhile_append_of_head {p : UInt8 → Bool} (stops : ∀ b ∈ behind.head?, p b = false)
    (body : Text) : (body ++ behind).takeWhile p = body.takeWhile p ∧
      (body ++ behind).dropWhile p = body.dropWhile p ++ behind := by
  induction body with
  | nil =>
      cases behind with
      | nil => exact ⟨rfl, rfl⟩
      | cons b rest => simp [stops b rfl]
  | cons b body ih =>
      by_cases goesOn : p b = true
      · simp [goesOn, ih]
      · simp [goesOn]

theorem Stops.isPlain (stops : Stops segmentEnds behind) :
    ∀ b ∈ behind.head?, isPlain b = false := by
  rintro b isHead
  cases stops with
  | @closed close rest ends =>
      cases isHead
      simp only [segmentEnds, List.mem_cons, List.not_mem_nil, or_false] at ends
      rcases ends with rfl | rfl <;> rfl
  | ended => cases isHead
  | backslash =>
      cases isHead
      rfl

theorem step_run {b : UInt8} (plain : isPlain b = true) (stops : Stops segmentEnds behind) :
    step floats ⟨.fstr, b :: body ++ behind, stringBuf, ⟨needSemi, nesting, fstrBuf, depth⟩⟩ =
      (none, ⟨.fstr, body.dropWhile isPlain ++ behind, stringBuf,
        ⟨needSemi, nesting, fstrBuf ++ cText (b :: body.takeWhile isPlain), depth⟩⟩) := by
  obtain ⟨front, back⟩ := takeWhile_append_of_head stops.isPlain body
  simp only [Lexer.isPlain, Bool.and_eq_true, decide_eq_true_eq] at plain
  simp only [step, scanFstr, List.cons_append, plain.1.1.1, plain.1.1.2, plain.1.2, plain.2,
    if_false, front, back]

theorem quietly_chunk (isBody : Body fstrEscapes segmentEnds body)
    (stops : Stops segmentEnds behind) :
    Quietly floats
      ⟨.fstr, body ++ behind, stringBuf, ⟨needSemi, nesting, fstrBuf, depth⟩⟩
      (strayBackslashes body)
      ⟨.fstr, behind, stringBuf,
        ⟨needSemi, nesting, fstrBuf ++ chunkValue false body, depth⟩⟩ := by
  generalize size : body.length = n
  induction n using Nat.strong_induction_on generalizing body fstrBuf with
  | _ n ih =>
    cases isBody with
    | nil =>
        rw [chunkValue, strayBackslashes, List.append_nil]
        exact .refl _
    | @escape c v body known isBody =>
        have goesOn : step floats ⟨.fstr, 0x5c :: c :: body ++ behind, stringBuf,
              ⟨needSemi, nesting, fstrBuf, depth⟩⟩ =
            (none, ⟨.fstr, body ++ behind, stringBuf,
              ⟨needSemi, nesting, fstrBuf ++ [v], depth⟩⟩) := by
          simp [step, scanFstr, readEscape, known]
        have noEcho : stepEcho ⟨.fstr, 0x5c :: c :: body ++ behind, stringBuf,
              ⟨needSemi, nesting, fstrBuf, depth⟩⟩ = [] := by
          simp [stepEcho, readEscape, known]
        have read := quietly_of_step goesOn (ih body.length (by simp [← size]) isBody rfl)
        rw [noEcho, List.append_assoc] at read
        rw [chunkValue_escape known, strayBackslashes, if_pos rfl, readEscape_cons, known]
        exact read
    | @stray c body unknown isBody =>
        have goesOn : step floats ⟨.fstr, 0x5c :: c :: body ++ behind, stringBuf,
              ⟨needSemi, nesting, fstrBuf, depth⟩⟩ =
            (none, ⟨.fstr, c :: body ++ behind, stringBuf,
              ⟨needSemi, nesting, fstrBuf, depth⟩⟩) := by
          simp [step, scanFstr, readEscape, unknown]
        have isEcho : stepEcho ⟨.fstr, 0x5c :: c :: body ++ behind, stringBuf,
              ⟨needSemi, nesting, fstrBuf, depth⟩⟩ = [0x5c] := by
          simp [stepEcho, readEscape, unknown]
        have read := quietly_of_step goesOn (ih (c :: body).length (by simp [← size]) isBody rfl)
        rw [isEcho] at read
        rw [chunkValue_stray unknown, strayBackslashes, if_pos rfl, readEscape_cons, unknown]
        exact read
    | @plain b body notEscape notClosing isBody =>
        have noEcho : stepEcho ⟨.fstr, b :: body ++ behind, stringBuf,
              ⟨needSemi, nesting, fstrBuf, depth⟩⟩ = [] := by
          simp [stepEcho, notEscape]
        by_cases newline : b = 0x0a
        · subst newline
          have goesOn : step floats ⟨.fstr, 0x0a :: body ++ behind, stringBuf,
                ⟨needSemi, nesting, fstrBuf, depth⟩⟩ =
              (none, ⟨.fstr, body ++ behind, stringBuf,
                ⟨needSemi, nesting, fstrBuf ++ [0x0a], depth⟩⟩) := by
            simp [step, scanFstr]
          have read := quietly_of_step goesOn (ih body.length (by simp [← size]) isBody rfl)
          rw [noEcho, List.append_assoc] at read
          rw [chunkValue_newline, strayBackslashes_plain notEscape]
          exact read
        · have plain := isPlain_of_not_mem notEscape newline notClosing
          have goesOn : step floats ⟨.fstr, b :: body ++ behind, stringBuf,
              ⟨needSemi, nesting, fstrBuf, depth⟩⟩ = _ := step_run plain stops
          have shorter : (body.dropWhile isPlain).length < n := by
            have fewer := (List.dropWhile_suffix isPlain (l := body)).length_le
            rw [List.length_cons] at size
            omega
          have read := quietly_of_step goesOn (ih _ shorter (isBody.dropWhile (by decide)) rfl)
          rw [noEcho, List.append_assoc, ← chunkValue_plain plain isBody,
            strayBackslashes_dropWhile] at read
          rw [strayBackslashes_plain notEscape]
          exact read

theorem yylex_finish (isBody : Body fstrEscapes segmentEnds body) :
    yylex floats ⟨.fstr, body ++ 0x22 :: rest, stringBuf, ⟨needSemi, nesting, fstrBuf, depth⟩⟩ =
      (.token (.fstrFinish (fstrBuf ++ chunkValue false body)),
        ⟨.initial, rest, stringBuf, ⟨true, nesting, [], depth⟩⟩) := by
  rw [(quietly_chunk isBody (.closed (by decide))).yylex_eq.1]
  exact yylex_of_some rfl

theorem yylex_interpBegin (isBody : Body fstrEscapes segmentEnds body) :
    yylex floats ⟨.fstr, body ++ 0x7b :: rest, stringBuf, ⟨needSemi, nesting, fstrBuf, depth⟩⟩ =
      (.token (.fstrInterpBegin (fstrBuf ++ chunkValue false body)),
        ⟨.initial, rest, stringBuf, ⟨needSemi, nesting, [], 1⟩⟩) := by
  rw [(quietly_chunk isBody (.closed (by decide))).yylex_eq.1]
  exact yylex_of_some rfl

theorem yylexEcho_finish (isBody : Body fstrEscapes segmentEnds body) :
    yylexEcho floats
      ⟨.fstr, body ++ 0x22 :: rest, stringBuf, ⟨needSemi, nesting, fstrBuf, depth⟩⟩ =
        strayBackslashes body := by
  rw [(quietly_chunk isBody (.closed (by decide))).yylex_eq.2, yylexEcho_of_some rfl]
  exact List.append_nil _

end Reading

/-! ## Literals of both kinds -/

/-- A content without an unescaped brace, and what follows the literal.  Three quotes in a row
begin a comment. -/
structure Literal where
  content : Text
  rest : Text
  isBody : Body escapes segmentEnds content
  noComment : content = [] → rest.head? ≠ some 0x22

/-- The literal as a string and as an f-string has the same value, all of it is read, and nothing
is echoed. -/
def SameValue {δ : Type} (floats : Floats δ) (stringBuf : Text) (s : Statics) (lit : Literal) :
    Prop :=
  let plain : Scanner :=
    ⟨.initial, 0x22 :: (lit.content ++ 0x22 :: lit.rest), stringBuf, s⟩
  let fstr : Scanner :=
    ⟨.initial, 0x66 :: 0x22 :: (lit.content ++ 0x22 :: lit.rest), stringBuf, s⟩
  ∃ value l l₁ l₂,
    yylex floats plain = (.token (.string value), l) ∧ l.input = lit.rest ∧
      yylexEcho floats plain = [] ∧
    yylex floats fstr = (.token .fstrBegin, l₁) ∧ yylexEcho floats fstr = [] ∧
    yylex floats l₁ = (.token (.fstrFinish value), l₂) ∧ l₂.input = lit.rest ∧
      yylexEcho floats l₁ = []

/-- A content of escapes that both kinds of literals have, and of other bytes but zeros. -/
inductive Common : Text → Prop
  | nil : Common []
  | escape {c v : UInt8} {rest : Text} (known : fstrEscapes.lookup c = some v)
      (common : Common rest) : Common (0x5c :: c :: rest)
  | plain {b : UInt8} {rest : Text} (notEscape : b ≠ 0x5c) (notZero : b ≠ 0)
      (common : Common rest) : Common (b :: rest)

section Common

variable {content : Text}

theorem lookup_escapes {c v : UInt8} (known : fstrEscapes.lookup c = some v) :
    escapes.lookup c = some v := by
  have other : c ≠ 0x27 := by
    rintro rfl
    cases known
  rwa [← lookup_fstrEscapes other]

theorem Common.values (common : Common content) :
    chunkValue false content = stringValue content ∧ strayBackslashes content = [] := by
  induction common with
  | nil => simp [chunkValue, stringValue, strayBackslashes]
  | escape known _ ih =>
      rw [chunkValue_escape known, stringValue_escape (lookup_escapes known), strayBackslashes,
        if_pos rfl, readEscape_cons, known, ih.1]
      exact ⟨rfl, ih.2⟩
  | @plain b rest notEscape notZero _ ih =>
      rw [stringValue_plain notEscape, strayBackslashes_plain notEscape, ← ih.1]
      refine ⟨?_, ih.2⟩
      by_cases newline : b = 0x0a
      · rw [newline, chunkValue_newline]
      · exact chunkValue_kept notEscape newline notZero rest

theorem length_chunkValue_le (isBody : Body fstrEscapes segmentEnds content)
    (noStray : strayBackslashes content = []) (zero : Bool) :
    (chunkValue zero content).length ≤ (stringValue content).length := by
  induction isBody generalizing zero with
  | nil => simp [chunkValue, stringValue]
  | escape known _ ih =>
      rw [strayBackslashes, if_pos rfl, readEscape_cons, known] at noStray
      rw [chunkValue_escape known, stringValue_escape (lookup_escapes known)]
      exact Nat.succ_le_succ (ih noStray false)
  | stray unknown _ ih =>
      rw [strayBackslashes, if_pos rfl, readEscape_cons, unknown] at noStray
      cases noStray
  | @plain b rest notEscape _ _ ih =>
      rw [strayBackslashes_plain notEscape] at noStray
      rw [stringValue_plain notEscape]
      by_cases newline : b = 0x0a
      · rw [newline, chunkValue_newline]
        exact Nat.succ_le_succ (ih noStray false)
      · cases lost : zero || decide (b = 0) with
        | true =>
            rw [chunkValue_lost notEscape newline lost]
            exact Nat.le_succ_of_le (ih noStray true)
        | false =>
            rw [Bool.or_eq_false_iff, decide_eq_false_iff_not] at lost
            rw [lost.1, chunkValue_kept notEscape newline lost.2]
            exact Nat.succ_le_succ (ih noStray false)

theorem common_of_values (isBody : Body fstrEscapes segmentEnds content)
    (noStray : strayBackslashes content = [])
    (same : chunkValue false content = stringValue content) : Common content := by
  induction isBody with
  | nil => exact .nil
  | escape known _ ih =>
      rw [strayBackslashes, if_pos rfl, readEscape_cons, known] at noStray
      rw [chunkValue_escape known, stringValue_escape (lookup_escapes known)] at same
      exact .escape known (ih noStray (List.cons.inj same).2)
  | stray unknown _ ih =>
      rw [strayBackslashes, if_pos rfl, readEscape_cons, unknown] at noStray
      cases noStray
  | @plain b rest notEscape _ isRest ih =>
      rw [strayBackslashes_plain notEscape] at noStray
      rw [stringValue_plain notEscape] at same
      by_cases newline : b = 0x0a
      · rw [newline, chunkValue_newline] at same
        exact .plain notEscape (by rw [newline]; decide) (ih noStray (List.cons.inj same).2)
      · by_cases isZero : b = 0
        · -- the zero is lost, and nothing makes up for it
          have shorter := length_chunkValue_le isRest noStray true
          rw [chunkValue_lost notEscape newline (by simp [isZero])] at same
          rw [same, List.length_cons] at shorter
          exact absurd shorter (Nat.not_succ_le_self _)
        · rw [chunkValue_kept notEscape newline isZero] at same
          exact .plain notEscape isZero (ih noStray (List.cons.inj same).2)

end Common

section Opening

variable {δ : Type} {floats : Floats δ} {stringBuf : Text} {s : Statics} {lit : Literal}

theorem noComment_of_literal (lit : Literal) :
    ¬[0x22, 0x22] <+: lit.content ++ 0x22 :: lit.rest := by
  have isBody := lit.isBody
  have noComment := lit.noComment
  generalize lit.content = content at isBody noComment ⊢
  cases isBody with
  | nil =>
      cases isRest : lit.rest with
      | nil => decide
      | cons b rest =>
          intro triple
          rw [isRest] at noComment
          obtain ⟨after, same⟩ := triple
          cases same
          exact noComment rfl rfl
  | escape | stray =>
      rintro ⟨after, same⟩
      cases same
  | @plain b _ _ notClosing =>
      rintro ⟨after, same⟩
      have quote : 0x22 = b := (List.cons.inj same).1
      exact notClosing (quote ▸ by decide)

theorem yylex_literal (floats : Floats δ) (stringBuf : Text) (s : Statics) (lit : Literal) :
    yylex floats ⟨.initial, 0x22 :: (lit.content ++ 0x22 :: lit.rest), stringBuf, s⟩ =
        (.token (.string (stringValue lit.content)),
          ⟨.initial, lit.rest, stringValue lit.content, { s with needSemi := true }⟩) ∧
      yylexEcho floats ⟨.initial, 0x22 :: (lit.content ++ 0x22 :: lit.rest), stringBuf, s⟩ =
        [] := by
  have opens : step floats ⟨.initial, 0x22 :: (lit.content ++ 0x22 :: lit.rest), stringBuf, s⟩ =
      (none, ⟨.strDq, lit.content ++ 0x22 :: lit.rest, [], s⟩) := by
    have rule : matchRule floats 0x22 (lit.content ++ 0x22 :: lit.rest) =
        (.strDq, lit.content ++ 0x22 :: lit.rest) := by
      simp [matchRule, noComment_of_literal lit]
    rw [step, scanInitial]
    dsimp only
    rw [rule]
    rfl
  have isBody : Body escapes [0x22] lit.content := lit.isBody.mono (by decide)
  have read := quietly_of_step opens (quietly_string .dq isBody)
  constructor
  · rw [yylex_of_none (by rw [opens]), opens, yylex_string .dq isBody]
    rfl
  · rw [read.yylex_eq.2, yylexEcho_of_some rfl]
    rfl

end Opening

/-- Reading a content as that of an f-string gives the value of the string exactly if it has no
zeros and no backslashes but those of the escapes that f-strings have. -/
theorem sameValue_iff {δ : Type} (floats : Floats δ) (stringBuf : Text) (s : Statics)
    (lit : Literal) : SameValue floats stringBuf s lit ↔ Common lit.content := by
  obtain ⟨plain, plainEcho⟩ := yylex_literal floats stringBuf s lit
  have isBody : Body fstrEscapes segmentEnds lit.content := lit.isBody.fstr (by decide)
  have begins : yylex floats
      ⟨.initial, 0x66 :: 0x22 :: (lit.content ++ 0x22 :: lit.rest), stringBuf, s⟩ =
        (.token .fstrBegin, ⟨.fstr, lit.content ++ 0x22 :: lit.rest, stringBuf,
          ⟨false, s.nesting, [], 0⟩⟩) := yylex_of_some rfl
  have beginsEcho : yylexEcho floats
      ⟨.initial, 0x66 :: 0x22 :: (lit.content ++ 0x22 :: lit.rest), stringBuf, s⟩ = [] := by
    rw [yylexEcho_of_some rfl]
    rfl
  constructor
  · rintro ⟨value, l, l₁, l₂, isPlain, -, -, isBegin, -, isFinish, -, isEcho⟩
    rw [plain] at isPlain
    rw [begins] at isBegin
    cases isPlain
    cases isBegin
    rw [yylex_finish isBody] at isFinish
    rw [yylexEcho_finish isBody] at isEcho
    simp only [Prod.mk.injEq, Result.token.injEq, Token.fstrFinish.injEq, List.nil_append]
      at isFinish
    exact common_of_values isBody isEcho isFinish.1
  · intro common
    obtain ⟨same, noStray⟩ := common.values
    have finishes : yylex floats ⟨.fstr, lit.content ++ 0x22 :: lit.rest, stringBuf,
          ⟨false, s.nesting, [], 0⟩⟩ = _ := yylex_finish isBody
    rw [List.nil_append, same] at finishes
    refine ⟨_, _, _, _, plain, rfl, plainEcho, begins, beginsEcho, finishes, rfl, ?_⟩
    rw [yylexEcho_finish isBody, noStray]

/-- A content of the one escape that f-strings do not have. -/
def quoteLiteral : Literal where
  content := [0x5c, 0x27]
  rest := []
  isBody := .escape rfl .nil
  noComment := nofun

/-- Its backslash is echoed. -/
theorem not_sameValue_quote : ¬∀ {δ : Type} (floats : Floats δ) (stringBuf : Text) (s : Statics)
    (lit : Literal), SameValue floats stringBuf s lit := by
  intro always
  have floats : Floats Unit := ⟨fun _ => none, fun _ => ()⟩
  obtain ⟨value, l, l₁, l₂, -, -, -, isBegin, -, -, -, isEcho⟩ :=
    always floats [] Statics.initial quoteLiteral
  have begins : yylex floats ⟨.initial, [0x66, 0x22, 0x5c, 0x27, 0x22], [], Statics.initial⟩ =
      (.token .fstrBegin, ⟨.fstr, [0x5c, 0x27, 0x22], [], ⟨false, 0, [], 0⟩⟩) :=
    yylex_of_some rfl
  obtain ⟨-, rfl⟩ := Prod.mk.inj (begins.symm.trans isBegin)
  have body : Body fstrEscapes segmentEnds [0x5c, 0x27] :=
    .stray rfl (.plain (by decide) (by decide) .nil)
  have isStray : yylexEcho floats ⟨.fstr, [0x5c, 0x27] ++ 0x22 :: [], [], ⟨false, 0, [], 0⟩⟩ =
      strayBackslashes [0x5c, 0x27] := yylexEcho_finish body
  have stray : strayBackslashes [0x5c, 0x27] = [0x5c] := by decide +kernel
  rw [stray] at isStray
  exact absurd (isStray.symm.trans isEcho) (by decide)

end Dux.Lexer
