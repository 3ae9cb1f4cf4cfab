import Dux.Lexer.Agreement

/-!
# Files one after another

`Driver::parse` (`src/driver/driver.cpp`) runs a parser over a file.  The parser that bison makes
of `src/parser/dux.y` is any machine here that asks `yylex` for one result after another.
`yylex_destroy` resets what belongs to the buffer of the file, and not the static variables.
-/

namespace Dux.Lexer

open Logic (ascii)

/-! ## Parsing -/

/-- How a parse ends: with an AST, with errors, or with an exception that nobody catches. -/
inductive Outcome (α : Type)
  | success (ast : α)
  | failure
  | terminated
  deriving DecidableEq

/-- A parser with the errors that its driver has counted.  It goes on after a token or a
`syntax_error`, or it ends. -/
structure Parser (δ σ α : Type) where
  start : σ
  step : σ → Result δ → σ ⊕ Outcome α

section Parsing

variable {δ σ α : Type} (floats : Floats δ) (p : Parser δ σ α)

def advance (s : σ) (l : Scanner) : (σ ⊕ Outcome α) × Scanner :=
  match (yylex floats l).1 with
  | .fault => (.inr .terminated, (yylex floats l).2)
  | result => (p.step s result, (yylex floats l).2)

/-- It does so until it has ended. -/
def progress : (σ ⊕ Outcome α) × Scanner → (σ ⊕ Outcome α) × Scanner
  | (.inl s, l) => advance floats p s l
  | (.inr o, l) => (.inr o, l)

/-- The parser and the lexer after so many calls of `yylex`. -/
def after (l : Scanner) (k : Nat) : (σ ⊕ Outcome α) × Scanner :=
  (progress floats p)^[k] (.inl p.start, l)

/-- What the call after so many calls returns, if there is another one. -/
def given (l : Scanner) (k : Nat) : Option (Result δ) :=
  match after floats p l k with
  | (.inl _, l) => some (yylex floats l).1
  | (.inr _, _) => none

def outcome (l : Scanner) (k : Nat) : Option (Outcome α) := (after floats p l k).1.getRight?

/-- Two parses get the same results and come to the same outcome. -/
def Same (a b : Scanner) : Prop :=
  ∀ k, given floats p a k = given floats p b k ∧ outcome floats p a k = outcome floats p b k

/-- The file is parsed as in a fresh process. -/
def SameAsFresh (statics : Statics) (stringBuf input : Text) : Prop :=
  Same floats p (.ofFile statics stringBuf input) (.ofFile .initial [] input)

/-- The static variables and the buffer of the driver between files.  A file may have a driver of
its own, and an exception that nobody catches ends the process. -/
inductive Reaches : Statics → Text → Prop
  | initial : Reaches .initial []
  | parse {statics stringBuf} (before : Reaches statics stringBuf) (input : Text) {k : Nat}
      {o : Outcome α} {l : Scanner}
      (ends : after floats p (.ofFile statics stringBuf input) k = (.inr o, l))
      (caught : o ≠ .terminated) : Reaches l.statics l.stringBuf
  | driver {statics stringBuf} (before : Reaches statics stringBuf) : Reaches statics []

end Parsing

/-- Nothing is left over that a file would notice. -/
def Statics.Clean (s : Statics) : Prop :=
  s.needSemi = false ∧ s.nesting = 0 ∧ s.fstrInterpDepth = 0

/-! ## What a parser asks for -/

namespace Parser

variable {δ σ α : Type} (p : Parser δ σ α)

/-- The state after some results. -/
def feed : σ → List (Result δ) → Option σ
  | s, [] => some s
  | s, r :: rs => (p.step s r).getLeft?.bind fun s => feed s rs

/-- An import of one name goes on: the parser waits for a semicolon, `as`, `::` or a point. -/
def GoesOnInImport : Prop :=
  ∀ name, (p.feed p.start [.token (.keyword .kwImport), .token (.ident name)]).isSome

/-- Closing braces are discarded until there is a semicolon, by
`program_body: program_body error SEMI`. -/
def DiscardsBraces : Prop :=
  ∀ n, (p.feed p.start (List.replicate n (.token (.punct .rbrace)))).isSome

end Parser

/-! ## Clean variables suffice -/

section Sufficient

variable {δ σ α : Type} (floats : Floats δ) (p : Parser δ σ α)

theorem advance_alike (s : σ) {a b : Scanner} (h : Agree a b) :
    (advance floats p s a).1 = (advance floats p s b).1 ∧
      Agree (advance floats p s a).2 (advance floats p s b).2 := by
  have alike := yylex_alike floats h
  unfold advance
  rw [← alike.1]
  cases (yylex floats a).1 with
  | fault => exact ⟨rfl, alike.2⟩
  | token _ | error _ => exact ⟨rfl, alike.2⟩

theorem progress_alike {x y : (σ ⊕ Outcome α) × Scanner} (equal : x.1 = y.1)
    (agree : Agree x.2 y.2) :
    (progress floats p x).1 = (progress floats p y).1 ∧
      Agree (progress floats p x).2 (progress floats p y).2 := by
  obtain ⟨s | o, l⟩ := x
  all_goals
    obtain ⟨s', l'⟩ := y
    dsimp only at equal
    subst equal
  · exact advance_alike floats p s agree
  · exact ⟨rfl, agree⟩

theorem after_alike {a b : Scanner} (h : Agree a b) (k : Nat) :
    (after floats p a k).1 = (after floats p b k).1 ∧
      Agree (after floats p a k).2 (after floats p b k).2 := by
  unfold after
  induction k with
  | zero => exact ⟨rfl, h⟩
  | succ k ih =>
      rw [Function.iterate_succ_apply', Function.iterate_succ_apply']
      exact progress_alike floats p ih.1 ih.2

theorem same_of_agree {a b : Scanner} (h : Agree a b) : Same floats p a b := by
  intro k
  have alike := after_alike floats p h k
  refine ⟨?_, congrArg Sum.getRight? alike.1⟩
  unfold given
  revert alike
  rcases after floats p a k with ⟨s | o, l⟩ <;> rcases after floats p b k with ⟨s' | o', l'⟩ <;>
    rintro ⟨equal, agree⟩
  · exact congrArg some (yylex_alike floats agree).1
  · cases equal
  · cases equal
  · rfl

theorem agree_ofFile {statics : Statics} (clean : statics.Clean) (stringBuf input : Text) :
    Agree (.ofFile statics stringBuf input) (.ofFile .initial [] input) where
  start := rfl
  input := rfl
  needSemi := clean.1
  nesting := clean.2.1
  depth := clean.2.2
  stringBuf within := by rcases within with within | within <;> cases within
  fstrBuf within := by
    rcases within with within | within
    · cases within
    · exact absurd clean.2.2 (Nat.pos_iff_ne_zero.mp within)

end Sufficient

/-! ## Clean variables are needed -/

section Needed

variable {δ σ α : Type} {floats : Floats δ} {p : Parser δ σ α}

/-- The lexer returns these results, and leaves this. -/
def Yields (floats : Floats δ) : Scanner → List (Result δ) → Scanner → Prop
  | l, [], l' => l = l'
  | l, r :: rs, l' => r ≠ .fault ∧ (yylex floats l).1 = r ∧ Yields floats (yylex floats l).2 rs l'

theorem advance_of_yields {s : σ} {l : Scanner} (noFault : (yylex floats l).1 ≠ .fault) :
    advance floats p s l = (p.step s (yylex floats l).1, (yylex floats l).2) := by
  unfold advance
  cases returned : (yylex floats l).1 with
  | fault => exact absurd returned noFault
  | token _ | error _ => rfl

theorem iterate_of_yields {l l' : Scanner} {rs : List (Result δ)} {s s' : σ}
    (yields : Yields floats l rs l') (feeds : p.feed s rs = some s') :
    (progress floats p)^[rs.length] (.inl s, l) = (.inl s', l') := by
  induction rs generalizing l s with
  | nil =>
      cases feeds
      rw [show l = l' from yields]
      rfl
  | cons r rs ih =>
      obtain ⟨noFault, rfl, rest⟩ := yields
      obtain ⟨t, stepped, more⟩ := Option.bind_eq_some_iff.mp feeds
      have first : progress floats p (.inl s, l) = (.inl t, (yylex floats l).2) := by
        rw [progress, advance_of_yields noFault, Sum.getLeft?_eq_some_iff.mp stepped]
      rw [List.length_cons, Function.iterate_succ_apply, first]
      exact ih rest more

theorem given_of_yields {l l' : Scanner} {rs : List (Result δ)}
    (yields : Yields floats l rs l') (goesOn : (p.feed p.start rs).isSome) :
    given floats p l rs.length = some (yylex floats l').1 := by
  obtain ⟨s, feeds⟩ := Option.isSome_iff_exists.mp goesOn
  rw [given, after, iterate_of_yields yields feeds]

theorem not_same_of_yields {a b a' b' : Scanner} {rs : List (Result δ)}
    (left : Yields floats a rs a') (right : Yields floats b rs b')
    (goesOn : (p.feed p.start rs).isSome) (differ : (yylex floats a').1 ≠ (yylex floats b').1) :
    ¬ Same floats p a b := by
  intro same
  have next := (same rs.length).1
  rw [given_of_yields left goesOn, given_of_yields right goesOn] at next
  exact differ (Option.some.inj next)

variable (floats) (statics : Statics) (stringBuf : Text)

theorem yylex_newline (needSemi : Bool) (nesting : Int) (fstrBuf : Text) (depth : Nat) :
    (yylex floats ⟨.initial, [0x0a], stringBuf, ⟨needSemi, nesting, fstrBuf, depth⟩⟩).1 =
      .token (if needSemi ∧ nesting = 0 then .punct .semi else .eof) := by
  have step_eq :
      step floats ⟨.initial, [0x0a], stringBuf, ⟨needSemi, nesting, fstrBuf, depth⟩⟩ =
        (if needSemi ∧ nesting = 0 then some (.token (.punct .semi)) else none,
          ⟨.initial, [], stringBuf, ⟨false, nesting, fstrBuf, depth⟩⟩) := rfl
  by_cases due : needSemi ∧ nesting = 0
  · rw [if_pos due]
    rw [if_pos due] at step_eq
    rw [yylex_of_some (by rw [step_eq])]
  · rw [if_neg due]
    rw [if_neg due] at step_eq
    rw [yylex_of_none (by rw [step_eq]), step_eq]
    rfl

theorem yields_import :
    Yields floats (.ofFile statics stringBuf (ascii "import x\n"))
      [.token (.keyword .kwImport), .token (.ident (ascii "x"))]
      ⟨.initial, [0x0a], stringBuf,
        ⟨true, statics.nesting + 0 + 0, statics.fstrBuf, statics.fstrInterpDepth⟩⟩ := by
  refine ⟨by rintro ⟨⟩, rfl, by rintro ⟨⟩, rfl, ?_⟩
  rfl

theorem yylex_rbrace (rest : Text) (needSemi : Bool) (nesting : Int) (fstrBuf : Text) {depth : Nat}
    (inner : depth ≠ 1) :
    yylex floats ⟨.initial, 0x7d :: rest, stringBuf, ⟨needSemi, nesting, fstrBuf, depth⟩⟩ =
      (.token (.punct .rbrace),
        ⟨.initial, rest, stringBuf, ⟨true, nesting, fstrBuf, depth - 1⟩⟩) := by
  have step_eq :
      step floats ⟨.initial, 0x7d :: rest, stringBuf, ⟨needSemi, nesting, fstrBuf, depth⟩⟩ =
        (some (.token (.punct .rbrace)),
          ⟨.initial, rest, stringBuf, ⟨true, nesting, fstrBuf, depth - 1⟩⟩) := if_neg inner
  rw [yylex_of_some (by rw [step_eq]), step_eq]

theorem yylex_interpEnd (rest : Text) (needSemi : Bool) (nesting : Int) (fstrBuf : Text) :
    (yylex floats ⟨.initial, 0x7d :: rest, stringBuf, ⟨needSemi, nesting, fstrBuf, 1⟩⟩).1 =
      .token .fstrInterpEnd :=
  rfl

theorem yields_rbraces (n : Nat) (rest : Text) (needSemi : Bool) (nesting : Int) (fstrBuf : Text)
    {depth : Nat} (inner : depth = 0 ∨ n < depth) :
    ∃ needSemi', Yields floats
      ⟨.initial, List.replicate n 0x7d ++ rest, stringBuf, ⟨needSemi, nesting, fstrBuf, depth⟩⟩
      (List.replicate n (.token (.punct .rbrace)))
      ⟨.initial, rest, stringBuf, ⟨needSemi', nesting, fstrBuf, depth - n⟩⟩ := by
  induction n generalizing needSemi depth with
  | zero => exact ⟨needSemi, rfl⟩
  | succ n ih =>
      have first := yylex_rbrace floats stringBuf (List.replicate n 0x7d ++ rest)
        needSemi nesting fstrBuf (show depth ≠ 1 by omega)
      obtain ⟨needSemi', more⟩ := ih true (show depth - 1 = 0 ∨ n < depth - 1 by omega)
      refine ⟨needSemi', by rintro ⟨⟩, congrArg Prod.fst first, ?_⟩
      rw [List.replicate_succ, List.cons_append, first, Nat.add_comm, ← Nat.sub_sub]
      exact more

end Needed

/-! ## The last of several files -/

section Sessions

variable {δ σ α : Type} {floats : Floats δ} {p : Parser δ σ α}

theorem nesting_of_same (goesOn : p.GoesOnInImport) {statics : Statics} {stringBuf : Text}
    (same : SameAsFresh floats p statics stringBuf (ascii "import x\n")) : statics.nesting = 0 := by
  by_contra nested
  refine not_same_of_yields (yields_import floats statics stringBuf)
    (yields_import floats .initial []) (goesOn _) ?_ same
  rw [yylex_newline, yylex_newline, if_neg (by simpa using nested), if_pos (by decide)]
  rintro ⟨⟩

theorem needSemi_of_same {statics : Statics} {stringBuf : Text} (outside : statics.nesting = 0)
    (same : SameAsFresh floats p statics stringBuf [0x0a]) : statics.needSemi = false := by
  obtain ⟨needSemi, nesting, fstrBuf, depth⟩ := statics
  rw [← Bool.not_eq_true]
  intro due
  refine not_same_of_yields (show Yields floats _ [] _ from rfl) rfl rfl ?_ same
  rw [Scanner.ofFile, Scanner.ofFile, Statics.initial, yylex_newline, yylex_newline,
    if_pos ⟨due, outside⟩, if_neg (by decide)]
  rintro ⟨⟩

theorem depth_of_same (discards : p.DiscardsBraces) {statics : Statics} {stringBuf : Text}
    (same : SameAsFresh floats p statics stringBuf (List.replicate statics.fstrInterpDepth 0x7d)) :
    statics.fstrInterpDepth = 0 := by
  obtain ⟨needSemi, nesting, fstrBuf, depth⟩ := statics
  cases depth with
  | zero => rfl
  | succ n =>
      exfalso
      dsimp only at same
      rw [List.replicate_succ'] at same
      obtain ⟨semi, left⟩ := yields_rbraces floats stringBuf n [0x7d] needSemi nesting
        fstrBuf (.inr (Nat.lt_add_one n))
      obtain ⟨semi', right⟩ := yields_rbraces floats [] n [0x7d] false 0 []
        (.inl rfl)
      refine not_same_of_yields left right (discards n) ?_ same
      rw [Nat.add_sub_cancel_left, yylex_interpEnd, yylex_rbrace _ _ _ _ _ _ (by omega)]
      rintro ⟨⟩

/-- After any files, the next one is parsed as in a fresh process, whatever stands in it, exactly
if no semicolon is due and no bracket and no interpolation is open. -/
theorem sameAsFresh_iff_clean (goesOn : p.GoesOnInImport) (discards : p.DiscardsBraces) :
    ∀ {statics : Statics} {stringBuf : Text}, Reaches floats p statics stringBuf →
      ((∀ input, SameAsFresh floats p statics stringBuf input) ↔ statics.Clean) := by
  intro statics stringBuf _
  constructor
  · intro same
    have outside := nesting_of_same goesOn (same _)
    exact ⟨needSemi_of_same outside (same _), outside, depth_of_same discards (same _)⟩
  · intro clean input
    exact same_of_agree floats p (agree_ofFile clean stringBuf input)

end Sessions

/-! ## A parser of imports -/

/-- Between declarations, within an import, or behind an error. -/
inductive ImportPhase
  | body | keyword | path | discard

structure ImportState where
  phase : ImportPhase
  imports : List Text
  errors : Nat

namespace ImportState

/-- Tokens are discarded until there is a semicolon. -/
def discard (s : ImportState) (t : Token Unit) : ImportState ⊕ Outcome (List Text) :=
  match t with
  | .punct .semi => .inl { s with phase := .body }
  | .eof => .inr .failure
  | _ => .inl { s with phase := .discard }

/-- `Driver::error`, which gives up at `kMaxErrors`. -/
def error (s : ImportState) : ImportState ⊕ Outcome (List Text) :=
  if 20 ≤ s.errors + 1 then .inr .failure
  else .inl { s with phase := .discard, errors := s.errors + 1 }

def next (s : ImportState) (t : Token Unit) : ImportState ⊕ Outcome (List Text) :=
  match s.phase, t with
  | .body, .punct .semi => .inl s
  | .body, .keyword .kwImport => .inl { s with phase := .keyword }
  | .body, .eof => .inr (if s.errors = 0 then .success s.imports else .failure)
  | .keyword, .ident name => .inl { s with phase := .path, imports := s.imports ++ [name] }
  | .path, .punct .semi => .inl { s with phase := .body }
  | .discard, t => s.discard t
  | _, t => s.error.elim (fun s => s.discard t) .inr

end ImportState

/-- The part of the grammar that a file of imports of one name each needs. -/
def importParser : Parser Unit ImportState (List Text) where
  start := ⟨.body, [], 0⟩
  step s r :=
    match r with
    | .token t => s.next t
    | .error _ => s.error
    | .fault => .inr .terminated

/-- Without the values of floating-point numbers. -/
def noFloats : Floats Unit := ⟨fun _ => some (), fun _ => ()⟩

theorem importParser_goesOn : importParser.GoesOnInImport := fun _ => rfl

theorem importParser_feed_rbraces (imports : List Text) (errors n : Nat) :
    importParser.feed ⟨.discard, imports, errors⟩ (List.replicate n (.token (.punct .rbrace))) =
      some ⟨.discard, imports, errors⟩ := by
  induction n with
  | zero => rfl
  | succ n ih => exact ih

theorem importParser_discards : importParser.DiscardsBraces := by
  intro n
  cases n with
  | zero => rfl
  | succ n => exact Option.isSome_iff_exists.mpr ⟨_, importParser_feed_rbraces [] 1 n⟩

theorem reaches_open_bracket : Reaches noFloats importParser ⟨false, 1, [], 0⟩ [] :=
  .parse .initial (ascii "f(") (k := 3) (o := .failure)
    (l := ⟨.initial, [], [], ⟨false, 1, [], 0⟩⟩) rfl (by rintro ⟨⟩)

theorem sameAsFresh_iff_clean_open_bracket :
    (∀ input, SameAsFresh noFloats importParser ⟨false, 1, [], 0⟩ [] input) ↔
      Statics.Clean ⟨false, 1, [], 0⟩ :=
  sameAsFresh_iff_clean importParser_goesOn importParser_discards reaches_open_bracket

/-- An import behind a file with an open bracket is an error. -/
theorem not_sameAsFresh :
    ¬ ∀ statics stringBuf, Reaches noFloats importParser statics stringBuf →
      ∀ input, SameAsFresh noFloats importParser statics stringBuf input := by
  intro h
  have same := (h _ _ reaches_open_bracket (ascii "import x\n") 4).2
  revert same
  decide +kernel

end Dux.Lexer
