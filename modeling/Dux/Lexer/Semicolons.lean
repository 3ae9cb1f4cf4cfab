import Dux.Lexer.LineEnds
import Dux.Lexer.Nesting

/-!
# Line ends and semicolons

`src/lexer/dux.l` puts semicolons at line ends while it lexes, by what two static variables keep of
the tokens before.  Here the text is lexed without them, to results and newlines, and a pass over
these puts the semicolons in.
-/

namespace Dux.Lexer

/-! ## The pass -/

section Pass

variable {δ : Type}

/-- What a text is made of: results, and newlines outside of literals and comments. -/
inductive Item (δ : Type)
  | newline
  | result (r : Result δ)

/-- A line that ends with the token may end a statement. -/
def Token.endsStatement : Token δ → Bool
  | .keyword k =>
      k ∈ [.kwThis, .kwSuper, .kwNull, .kwReturn, .kwBreak, .kwContinue, .kwAwait, .kwStr,
        .kwList, .kwDict]
  | .punct p => p ∈ [.plusplus, .minusminus, .rparen, .rbracket, .rbrace]
  | .fstrBegin | .fstrInterpBegin _ | .fstrInterpEnd | .eof => false
  | _ => true

/-- The brackets that a token opens, less those that it closes. -/
def Token.nesting : Token δ → Int
  | .punct .lparen | .punct .lbracket => 1
  | .punct .rparen | .punct .rbracket => -1
  | _ => 0

/-- What counts of the tokens so far: whether there is one in the line that may end a statement and
has none behind it, and how many brackets are open. -/
structure Line where
  needSemi : Bool
  nesting : Int

def Line.ended (line : Line) : Bool := line.needSemi && line.nesting == 0

/-- The semicolon at the end of a line. -/
def Line.semi (line : Line) : List (Result δ) :=
  if line.ended then [.token (.punct .semi)] else []

def Line.next (line : Line) : Line := { line with needSemi := false }

def Line.after (line : Line) (t : Token δ) : Line := ⟨t.endsStatement, line.nesting + t.nesting⟩

/-- The results with the semicolons.  The end of the file is the end of a line, and nothing follows
an exception that nobody catches. -/
def withSemis : Line → List (Item δ) → List (Result δ)
  | _, [] => []
  | line, .newline :: items => line.semi ++ withSemis line.next items
  | line, .result (.token .eof) :: items =>
      line.semi ++ .token .eof :: withSemis line.next items
  | line, .result (.token t) :: items => .token t :: withSemis (line.after t) items
  | line, .result (.error message) :: items => .error message :: withSemis line items
  | _, .result .fault :: _ => [.fault]

theorem Line.ended_iff {line : Line} :
    line.ended = true ↔ line.needSemi = true ∧ line.nesting = 0 := by
  rw [ended, Bool.and_eq_true, beq_iff_eq]

theorem withSemis_token {t : Token δ} (notEof : t ≠ .eof) (line : Line) (items : List (Item δ)) :
    withSemis line (.result (.token t) :: items) = .token t :: withSemis (line.after t) items := by
  cases t with
  | eof => exact absurd rfl notEof
  | _ => rfl

/-- Whether a semicolon is due, and how many brackets are open, is all that counts of a line. -/
theorem withSemis_congr {line line' : Line} (ended : line.ended = line'.ended)
    (nesting : line.nesting = line'.nesting) (items : List (Item δ)) :
    withSemis line items = withSemis line' items := by
  have semi : line.semi (δ := δ) = line'.semi := by rw [Line.semi, Line.semi, ended]
  have next : line.next = line'.next := by rw [Line.next, Line.next, nesting]
  induction items with
  | nil => rfl
  | cons item items ih =>
      cases item with
      | newline => rw [withSemis, withSemis, semi, next]
      | result r =>
          cases r with
          | token t =>
              by_cases isEof : t = .eof
              · subst isEof
                rw [withSemis, withSemis, semi, next]
              · rw [withSemis_token isEof, withSemis_token isEof, Line.after, Line.after, nesting]
          | error message => rw [withSemis, withSemis, ih]
          | fault => rfl

end Pass

/-! ## Lexing without semicolons -/

section Bare

variable {δ : Type} (floats : Floats δ)

/-- The scanner at the beginning of a line. -/
def Scanner.bare (l : Scanner) : Scanner :=
  { l with statics := { l.statics with needSemi := false, nesting := 0 } }

def Scanner.line (l : Scanner) : Line := ⟨l.statics.needSemi, l.statics.nesting⟩

/-- The rule for newlines is next. -/
def Scanner.atNewline (l : Scanner) : Bool := l.start = .initial ∧ l.input.head? = some 0x0a

/-- The next rule, with what it comes upon. -/
def bareStep (l : Scanner) : Option (Item δ) × Scanner :=
  (if l.atNewline then some .newline else (step floats l.bare).1.map .result,
    (step floats l.bare).2)

def items : Nat → Scanner → List (Item δ)
  | 0, _ => []
  | n + 1, l => (bareStep floats l).1.toList ++ items n (bareStep floats l).2

end Bare

section Steps

variable {δ : Type} {floats : Floats δ} {l : Scanner}

theorem items_bare (n : Nat) (l : Scanner) : items floats n l.bare = items floats n l := by
  cases n <;> rfl

theorem items_congr {l' : Scanner} (same : l.bare = l'.bare) (n : Nat) :
    items floats n l = items floats n l' := by
  rw [← items_bare, same, items_bare]

/-- Within an f-string no line waits for its end. -/
def Scanner.Settled (l : Scanner) : Prop := l.start = .fstr → l.statics.needSemi = false

/-- The line behind a result. -/
inductive Passed (line : Line) : Option (Result δ) → Line → Prop
  | none : Passed line none line
  | token {t : Token δ} (notEof : t ≠ .eof) : Passed line (some (.token t)) (line.after t)
  | error (message : Text) : Passed line (some (.error message)) line
  | fault (line' : Line) : Passed line (some .fault) line'

/-- A step, beside that of the scanner at the beginning of a line. -/
structure Beside (l : Scanner) (x y : Stepped δ) : Prop where
  same : x.1 = y.1
  bare : x.2.bare = y.2.bare
  passed : Passed l.line x.1 x.2.line
  settled : x.2.Settled

theorem after_known {t : Token δ} {needSemi : Bool} {nesting : Int} {line : Line}
    (ends : t.endsStatement = needSemi) (opens : t.nesting = nesting) :
    line.after t = ⟨needSemi, line.nesting + nesting⟩ := by
  rw [Line.after, ends, opens]

theorem passed_of_returned {r : Result δ} {needSemi : Bool} {nesting : Int}
    (returned : Returned r needSemi nesting) (line : Line) :
    Passed line (some r) ⟨needSemi, line.nesting + nesting⟩ := by
  cases returned with
  | word text known =>
      have all : ∀ e ∈ (keywords (δ := δ)),
          e.2.1.endsStatement = e.2.2 ∧ e.2.1.nesting = 0 ∧ e.2.1 ≠ .eof := by
        simp [keywords, Token.endsStatement, Token.nesting]
      obtain ⟨ends, opens, notEof⟩ := all _ known
      exact after_known ends opens ▸ .token notEof
  | ident name => exact .token (by intro equal; cases equal)
  | number isNumber =>
      cases r with
      | token t =>
          cases t <;> first
            | exact isNumber.elim
            | exact .token (by intro equal; cases equal)
      | error message => exact isNumber.elim
      | fault => exact .fault _
  | @operator op known =>
      have all : ∀ op ∈ operators, (Token.punct op.punct : Token δ).endsStatement = op.needSemi ∧
          (Token.punct op.punct : Token δ).nesting = op.nesting := by
        simp [operators, Token.endsStatement, Token.nesting]
      obtain ⟨ends, opens⟩ := all _ known
      exact after_known ends opens ▸ .token (by intro equal; cases equal)

theorem eq_newline_of_matchRule {b : UInt8} {rest : Text}
    (rule : (matchRule floats b rest).1 = .newline) : b = 0x0a := by
  unfold matchRule at rule
  split_ifs at rule with isBlank isNewline
  · exact isNewline
  · exact absurd (rule ▸ trivial : (matchSymbol floats b rest).1.MayGoOn)
      (matchSymbol_returns floats b rest)

theorem passed_mark {t : Token δ} {line : Line} {needSemi : Bool} (notEof : t ≠ .eof)
    (ends : t.endsStatement = needSemi) (opens : t.nesting = 0) :
    Passed line (some (.token t)) ⟨needSemi, line.nesting⟩ := by
  have next : line.after t = ⟨needSemi, line.nesting⟩ := by
    rw [after_known ends opens, Int.add_zero]
  exact next ▸ .token notEof

theorem settled_of_ne (start : Start) (is : l.start = start) (other : start ≠ .fstr) :
    l.Settled :=
  fun isFstr => absurd (is.symm.trans isFstr) other

theorem beside_applyRule (initial : l.start = .initial) {rule : Rule δ} {rest : Text}
    (notNewline : rule ≠ .newline)
    (known : ∀ r needSemi nesting, rule = .returns r needSemi nesting →
      Returned r needSemi nesting) :
    Beside l (applyRule l rule rest) (applyRule l.bare rule rest) := by
  cases rule with
  | skip => exact ⟨rfl, rfl, .none, settled_of_ne .initial initial (by decide)⟩
  | newline => exact absurd rfl notNewline
  | mlComment => exact ⟨rfl, rfl, .none, settled_of_ne .mlComment rfl (by decide)⟩
  | strDq => exact ⟨rfl, rfl, .none, settled_of_ne .strDq rfl (by decide)⟩
  | strSq => exact ⟨rfl, rfl, .none, settled_of_ne .strSq rfl (by decide)⟩
  | fstrBegin => exact ⟨rfl, rfl, passed_mark (by intro equal; cases equal) rfl rfl, fun _ => rfl⟩
  | lbrace =>
      exact ⟨rfl, rfl, passed_mark (by intro equal; cases equal) rfl rfl,
        settled_of_ne .initial initial (by decide)⟩
  | rbrace =>
      by_cases last : l.statics.fstrInterpDepth = 1
      · have last' : l.bare.statics.fstrInterpDepth = 1 := last
        simp only [applyRule, if_pos last, if_pos last']
        exact ⟨rfl, rfl, passed_mark (by intro equal; cases equal) rfl rfl, fun _ => rfl⟩
      · have last' : ¬l.bare.statics.fstrInterpDepth = 1 := last
        simp only [applyRule, if_neg last, if_neg last']
        exact ⟨rfl, rfl, passed_mark (by intro equal; cases equal) rfl rfl,
          settled_of_ne .initial initial (by decide)⟩
  | returns r needSemi nesting =>
      exact ⟨rfl, rfl, passed_of_returned (known r needSemi nesting rfl) _,
        settled_of_ne .initial initial (by decide)⟩
  | rejects message =>
      exact ⟨rfl, rfl, .error message, settled_of_ne .initial initial (by decide)⟩

theorem beside_scanInitial (initial : l.start = .initial) (notNewline : l.atNewline = false)
    (notEnd : l.input ≠ []) :
    Beside l (scanInitial floats l) (scanInitial floats l.bare) := by
  obtain ⟨start, input, stringBuf, s⟩ := l
  cases initial
  cases input with
  | nil => exact absurd rfl notEnd
  | cons b rest =>
      apply beside_applyRule rfl
      · intro rule
        simp [Scanner.atNewline, eq_newline_of_matchRule rule] at notNewline
      · intro r needSemi nesting rule
        exact returned_of_rule rule

theorem beside_scanMlComment (inside : l.start = .mlComment) :
    Beside (δ := δ) l (scanMlComment l) (scanMlComment l.bare) := by
  obtain ⟨start, input, stringBuf, s⟩ := l
  cases inside
  cases input with
  | nil => exact ⟨rfl, rfl, .error _, settled_of_ne .mlComment rfl (by decide)⟩
  | cons b rest =>
      simp only [scanMlComment, Scanner.bare]
      split_ifs
      · exact ⟨rfl, rfl, .none, settled_of_ne .initial rfl (by decide)⟩
      · exact ⟨rfl, rfl, .none, settled_of_ne .mlComment rfl (by decide)⟩

theorem beside_scanString {quote : UInt8} (inside : l.start ≠ .fstr) :
    Beside (δ := δ) l (scanString quote l) (scanString quote l.bare) := by
  obtain ⟨start, input, stringBuf, s⟩ := l
  cases input with
  | nil => exact ⟨rfl, rfl, .error _, settled_of_ne start rfl inside⟩
  | cons b rest =>
      simp only [scanString, Scanner.bare]
      split_ifs
      · exact ⟨rfl, rfl, passed_mark (by intro equal; cases equal) rfl rfl,
          settled_of_ne .initial rfl (by decide)⟩
      · cases readEscape escapes rest with
        | some c => exact ⟨rfl, rfl, .none, settled_of_ne start rfl inside⟩
        | none => exact ⟨rfl, rfl, .none, settled_of_ne start rfl inside⟩
      · exact ⟨rfl, rfl, .none, settled_of_ne start rfl inside⟩

theorem beside_scanFstr (inside : l.start = .fstr) (settled : l.Settled) :
    Beside (δ := δ) l (scanFstr l) (scanFstr l.bare) := by
  obtain ⟨start, input, stringBuf, needSemi, nesting, fstrBuf, depth⟩ := l
  obtain rfl := settled inside
  cases input with
  | nil => exact ⟨rfl, rfl, .error _, fun _ => rfl⟩
  | cons b rest =>
      simp only [scanFstr, Scanner.bare]
      split_ifs
      · exact ⟨rfl, rfl, passed_mark (by intro equal; cases equal) rfl rfl,
          settled_of_ne .initial rfl (by decide)⟩
      · exact ⟨rfl, rfl, passed_mark (by intro equal; cases equal) rfl rfl,
          settled_of_ne .initial rfl (by decide)⟩
      · cases readEscape fstrEscapes rest with
        | some c => exact ⟨rfl, rfl, .none, fun _ => rfl⟩
        | none => exact ⟨rfl, rfl, .none, fun _ => rfl⟩
      · exact ⟨rfl, rfl, .none, fun _ => rfl⟩
      · exact ⟨rfl, rfl, .none, fun _ => rfl⟩

theorem beside_step (settled : l.Settled) (notNewline : l.atNewline = false)
    (notEnd : l.start = .initial → l.input ≠ []) :
    Beside l (step floats l) (step floats l.bare) := by
  have start : l.bare.start = l.start := rfl
  unfold step
  rw [start]
  cases inside : l.start with
  | initial => exact beside_scanInitial inside notNewline (notEnd inside)
  | mlComment => exact beside_scanMlComment inside
  | strSq => exact beside_scanString (by rw [inside]; decide)
  | strDq => exact beside_scanString (by rw [inside]; decide)
  | fstr => exact beside_scanFstr inside settled

theorem semi_of_ended {line : Line} (ended : line.ended = true) :
    line.semi = [Result.token (δ := δ) (.punct .semi)] :=
  if_pos ended

theorem semi_of_not_ended {line : Line} (ended : line.ended = false) :
    line.semi = ([] : List (Result δ)) :=
  if_neg (by simp [ended])

theorem ended_next (line : Line) : line.next.ended = false := rfl

theorem step_newline (newline : l.atNewline = true) :
    ∃ rest, step floats l = applyRule l .newline rest ∧
      step floats l.bare = applyRule l.bare .newline rest ∧ rest.length < l.input.length := by
  obtain ⟨initial, first⟩ := of_decide_eq_true newline
  cases input : l.input with
  | nil => simp [input] at first
  | cons b rest =>
      obtain rfl : b = 0x0a := by simpa [input] using first
      have rule : matchRule floats 0x0a rest = (.newline, rest.dropWhile (· = 0x0a)) := rfl
      have applies (l' : Scanner) (initial' : l'.start = .initial)
          (input' : l'.input = 0x0a :: rest) :
          step floats l' = applyRule l' .newline (rest.dropWhile (· = 0x0a)) := by
        simp only [step, initial', scanInitial, input', rule]
      exact ⟨_, applies l initial input, applies l.bare initial input,
        Nat.lt_succ_of_le (List.dropWhile_suffix _).length_le⟩

theorem newline_returns (rest : Text) :
    (applyRule (δ := δ) l .newline rest).1 =
      if l.line.ended then some (.token (.punct .semi)) else none := by
  simp only [applyRule, Line.ended_iff]
  rfl

/-- The scanner behind the end of a line. -/
def Scanner.next (l : Scanner) : Scanner :=
  { l with statics := { l.statics with needSemi := false } }

theorem step_end (initial : l.start = .initial) (ends : l.input = []) :
    step floats l =
      if l.line.ended then (some (.token (.punct .semi)), l.next) else (some (.token .eof), l) := by
  simp only [step, initial, scanInitial, ends, Line.ended_iff, Scanner.next]
  rfl

end Steps

/-! ## All calls -/

section Calls

variable {δ : Type} {floats : Floats δ} {l : Scanner}

/-- The results of so many calls are among those with semicolons of what enough rules come upon. -/
def Eventually (floats : Floats δ) (k : Nat) (l : Scanner) : Prop :=
  ∃ n, ∀ m, n ≤ m → calls floats k l = (withSemis l.line (items floats m l)).take k

theorem eventually_zero : Eventually floats 0 l := ⟨0, fun _ _ => by simp [calls]⟩

theorem eventually_of_succ {k : Nat} {text : List (Result δ)} {line : Line} {l' : Scanner}
    (later : ∃ n, ∀ m, n ≤ m → text = (withSemis line (items floats m l')).take k)
    (alike : ∀ m, withSemis l.line (items floats (m + 1) l) = withSemis line (items floats m l')) :
    ∃ n, ∀ m, n ≤ m → text = (withSemis l.line (items floats m l)).take k := by
  obtain ⟨n, same⟩ := later
  refine ⟨n + 1, fun m bound => ?_⟩
  cases m with
  | zero => exact absurd bound (Nat.not_succ_le_zero n)
  | succ m => rw [alike, same m (Nat.le_of_succ_le_succ bound)]

theorem eventually_of_none {k : Nat} (silent : (step floats l).1 = none)
    (alike : ∀ m, withSemis l.line (items floats (m + 1) l) =
      withSemis (step floats l).2.line (items floats m (step floats l).2))
    (later : Eventually floats k (step floats l).2) : Eventually floats k l := by
  rw [Eventually, calls_congr (yylex_of_none silent)]
  exact eventually_of_succ later alike

theorem eventually_of_token {k : Nat} {r : Result δ} (returned : (step floats l).1 = some r)
    (noFault : r ≠ .fault)
    (alike : ∀ m, withSemis l.line (items floats (m + 1) l) =
      r :: withSemis (step floats l).2.line (items floats m (step floats l).2))
    (later : Eventually floats k (step floats l).2) : Eventually floats (k + 1) l := by
  obtain ⟨n, same⟩ := later
  refine ⟨n + 1, fun m bound => ?_⟩
  cases m with
  | zero => exact absurd bound (Nat.not_succ_le_zero n)
  | succ m =>
      rw [calls_of_returned (yylex_of_some returned) noFault, alike, List.take_succ_cons,
        same m (Nat.le_of_succ_le_succ bound)]

/-- What a step that is neither at a newline nor at the end comes upon. -/
theorem items_of_beside (notNewline : l.atNewline = false)
    (beside : Beside l (step floats l) (step floats l.bare)) (m : Nat) :
    items floats (m + 1) l =
      ((step floats l).1.map .result).toList ++ items floats m (step floats l).2 := by
  rw [items, bareStep, if_neg (by simp [notNewline]), ← beside.same, ← items_congr beside.bare]

theorem eventually_newline {k : Nat} (newline : l.atNewline = true)
    (shorter : ∀ l' : Scanner, l'.input.length < l.input.length → l'.Settled →
      Eventually floats (k + 1) l')
    (later : ∀ l' : Scanner, l'.Settled → Eventually floats k l') :
    Eventually floats (k + 1) l := by
  obtain ⟨rest, applied, bare, less⟩ := @step_newline _ floats l newline
  have settled : (step floats l).2.Settled := by
    rw [applied]
    exact settled_of_ne .initial (of_decide_eq_true newline).1 (by decide)
  have line : (step floats l).2.line = l.line.next := by
    rw [applied]
    rfl
  have alike (m : Nat) : items floats (m + 1) l = .newline :: items floats m (step floats l).2 := by
    have same : (applyRule l.bare (.newline (δ := δ)) rest).2.bare =
        (applyRule l (.newline (δ := δ)) rest).2.bare := rfl
    rw [items, bareStep, if_pos newline, bare, applied, ← items_congr same]
    rfl
  have returns : (step floats l).1 =
      if l.line.ended then some (.token (.punct .semi)) else none := by
    rw [applied, newline_returns]
  cases ended : l.line.ended with
  | true =>
      rw [ended, if_pos rfl] at returns
      apply eventually_of_token returns (by intro equal; cases equal) _ (later _ settled)
      intro m
      rw [alike, withSemis, semi_of_ended ended, line]
      rfl
  | false =>
      rw [ended, if_neg (by decide)] at returns
      apply eventually_of_none returns _ (shorter _ _ settled)
      · intro m
        rw [alike, withSemis, semi_of_not_ended ended, line]
        rfl
      · rwa [applied, applyRule_input]

theorem eventually_end {k : Nat} (initial : l.start = .initial) (ends : l.input = [])
    (later : ∀ l' : Scanner, l'.Settled → Eventually floats k l') :
    Eventually floats (k + 1) l := by
  have alike (l' : Scanner) (initial' : l'.start = .initial) (ends' : l'.input = []) (m : Nat) :
      items floats (m + 1) l' = .result (.token .eof) :: items floats m l' := by
    have notNewline : l'.atNewline = false := by simp [Scanner.atNewline, ends']
    have stepped : step floats l'.bare = (some (.token .eof), l'.bare) := step_end initial' ends'
    rw [items, bareStep, if_neg (by simp [notNewline]), stepped, ← items_bare m l']
    rfl
  have settled : l.Settled := settled_of_ne .initial initial (by decide)
  have stepped : step floats l = _ := step_end initial ends
  cases ended : l.line.ended with
  | true =>
      rw [ended, if_pos rfl] at stepped
      obtain ⟨n, same⟩ := later l.next (settled_of_ne .initial initial (by decide))
      have line : l.next.line = l.line.next := rfl
      refine ⟨n + 1, fun m bound => ?_⟩
      cases m with
      | zero => exact absurd bound (Nat.not_succ_le_zero n)
      | succ m =>
          rw [calls_of_returned (yylex_of_some (by rw [stepped])) (by intro equal; cases equal),
            stepped, same (m + 1) (Nat.le_of_succ_le bound), alike l initial ends,
            alike l.next initial ends, line, withSemis, withSemis, semi_of_ended ended,
            semi_of_not_ended (ended_next _), items_congr (show l.next.bare = l.bare from rfl)]
          rfl
  | false =>
      rw [ended, if_neg (by decide)] at stepped
      apply eventually_of_token (by rw [stepped]) (by intro equal; cases equal) _
      · rw [stepped]
        exact later l settled
      · intro m
        rw [stepped, alike l initial ends, withSemis, semi_of_not_ended ended]
        exact congrArg (Result.token .eof :: ·)
          (withSemis_congr ((ended_next l.line).trans ended.symm) rfl _)

theorem eventually_beside {k : Nat} (notNewline : l.atNewline = false)
    (beside : Beside l (step floats l) (step floats l.bare))
    (shorter : ∀ l' : Scanner, l'.input.length < l.input.length → l'.Settled →
      Eventually floats (k + 1) l')
    (later : ∀ l' : Scanner, l'.Settled → Eventually floats k l') :
    Eventually floats (k + 1) l := by
  have alike := items_of_beside notNewline beside
  have settled := beside.settled
  have passed := beside.passed
  generalize isLine : (step floats l).2.line = line at passed
  cases returned : (step floats l).1 with
  | none =>
      rw [returned] at passed
      cases passed
      apply eventually_of_none returned _ (shorter _ (step_length returned) settled)
      intro m
      rw [alike, returned, isLine]
      rfl
  | some r =>
      rw [returned] at passed
      cases passed with
      | token notEof =>
          apply eventually_of_token returned (by intro equal; cases equal) _ (later _ settled)
          intro m
          rw [alike, returned, isLine]
          exact withSemis_token notEof _ _
      | error message =>
          apply eventually_of_token returned (by intro equal; cases equal) _ (later _ settled)
          intro m
          rw [alike, returned, isLine]
          rfl
      | fault =>
          refine ⟨1, fun m bound => ?_⟩
          cases m with
          | zero => exact absurd bound (Nat.not_succ_le_zero 0)
          | succ m =>
              rw [calls_of_fault (by rw [yylex_of_some returned]), alike, returned]
              simp [withSemis]

/-- Lexing a text gives what lexing without semicolons gives, with the semicolons of the pass. -/
theorem calls_eq_withSemis (floats : Floats δ) (statics : Statics) (stringBuf input : Text)
    (k : Nat) : ∃ n, ∀ m, n ≤ m → calls floats k (.ofFile statics stringBuf input) =
      (withSemis ⟨statics.needSemi, statics.nesting⟩
        (items floats m (.ofFile statics stringBuf input))).take k := by
  have holds (k : Nat) : ∀ l : Scanner, l.Settled → Eventually floats k l := by
    induction k with
    | zero => exact fun l _ => eventually_zero
    | succ k ih =>
        intro l settled
        induction size : l.input.length using Nat.strong_induction_on generalizing l with
        | _ size shorter =>
            have shorter' (l' : Scanner) (less : l'.input.length < l.input.length)
                (settled' : l'.Settled) : Eventually floats (k + 1) l' :=
              shorter _ (size ▸ less) l' settled' rfl
            cases newline : l.atNewline with
            | true => exact eventually_newline newline shorter' ih
            | false =>
                by_cases ends : l.start = .initial ∧ l.input = []
                · exact eventually_end ends.1 ends.2 ih
                · have notEnd (initial : l.start = .initial) (none : l.input = []) : False :=
                    ends ⟨initial, none⟩
                  exact eventually_beside newline (beside_step settled newline notEnd) shorter' ih
  exact holds k _ (settled_of_ne .initial rfl (by decide))

end Calls

end Dux.Lexer
