import Dux.Bootstrap.Parser
import Mathlib.Data.Prod.Lex

/-!
# What the second stage has before it

The lexer and the parser of `bootstrap/dux_stage2.dux` get on by the characters and tokens that are
left.  Of the calls that find as many left as their caller, those of a lower rank are allowed.
-/

namespace Dux.Bootstrap

open Dux.Logic (ascii Prog)
open Dux.Runtime (Bytes)
open Dux.Runtime.Text (int32Max)

/-! ## Positions -/

/-- A position in a source that is short enough for the positions behind it. -/
structure Lexer.InRange (lx : Lexer) : Prop where
  nonneg : 0 ≤ lx.pos
  inside : lx.pos ≤ lx.len
  short : lx.len + 2 ≤ int32Max

def Parser.moveTo (s : Parser) (p : Int) : Parser := { s with lx := { s.lx with pos := p } }

def Parser.store (s : Parser) (isPeek : Bool) (tt : TokenType) (tv : Bytes) : Parser :=
  { s with
    lx := if isPeek then { s.lx with pekTt := tt, pekTv := tv }
      else { s.lx with curTt := tt, curTv := tv } }

/-- A token that is left; the end is none. -/
def TokenType.count (tt : TokenType) : Nat := if tt = .eof then 0 else 1

def Lexer.rest (lx : Lexer) : Nat := (lx.len - lx.pos).toNat

def Parser.left (s : Parser) : Nat := s.lx.curTt.count + s.lx.pekTt.count + s.lx.rest

/-- A parser between two calls: what is missing is missing for good. -/
structure Parser.Ready (s : Parser) : Prop where
  inRange : s.lx.InRange
  pek : s.lx.pekTt = .eof → s.lx.pos = s.lx.len
  cur : s.lx.curTt = .eof → s.lx.pekTt = .eof

namespace Lexer.InRange

variable {lx : Lexer} {k : Int}

theorem ahead_eq' (inRange : lx.InRange) (nonneg : 0 ≤ k) (near : lx.pos + k ≤ lx.len + 2) :
    lx.ahead k = lx.pos + k := by
  have ⟨low, inside, short⟩ := inRange
  rw [int32Max] at short
  rw [Lexer.ahead, int32, Int.bmod_eq_of_le (by omega) (by omega)]

theorem ahead_eq (inRange : lx.InRange) (nonneg : 0 ≤ k) (small : k ≤ 2) :
    lx.ahead k = lx.pos + k :=
  inRange.ahead_eq' nonneg (add_le_add inRange.inside small)

end Lexer.InRange

/-! ## Ranks -/

/-- How far the calls of the lexer go down without a character. -/
def ScanCall.rank : ScanCall → Nat
  | lexOneInto _ => 4
  | skipWsAndComments => 3
  | skipLoop going => if going then 2 else 0
  | wsLoop wsGoing => if wsGoing then 1 else 0
  | readIdent | readStringContent _ => 1
  | lineLoop | blockLoop _ | tripleLoop _ | identLoop | digitsLoop | stringLoop .. => 0

/-- How far the calls of the parser go down before a token is consumed: the levels of precedence,
and what begins with what. -/
def ParseCall.rank : ParseCall → Nat
  | parseType | parseParams | parseArgList | parsePrimary | parseAssignRest _ => 6
  | postfixLoop _ going => if going then 7 else 6
  | parsePostfix => 7
  | parseUnary => 8
  | mulLoop _ | addLoop _ | andLoop _ | orLoop _ => 6
  | parseMul => 9
  | parseAdd => 10
  | parseCmp => 11
  | parseAnd => 12
  | parseOr => 13
  | parseAssign => 14
  | parseExpr => 15
  | paramsLoop .. | payloadLoop .. => 7
  | argLoop .. | elemsLoop .. | pairsLoop .. => 16
  | parseStmt _ => 16
  | stmtsLoop _ | caseLoop _ | switchLoop .. => 17
  | parseBlockBody _ | parseBlock _ | parseIfBody _ | parseIfStmt _ | parseWhileStmt _
  | parseDoWhileStmt _ | parseForStmt _ | parseSwitchStmt _ | parseMatchStmt _
  | parseTryCatch _ => 6
  | parseBlockHeader .. => 7
  | declsLoop _ | matchLoop .. | symsLoop .. | pathLoop _ | tparamsLoop .. | basesLoop ..
  | enumLoop _ => 6
  | parseImport _ | parseDottedPath | parseDtorDecl .. | parseClassDecl _ | parseInterfaceDecl _
  | parseNamespaceDecl _ | parseEnumDecl _ | parseExternDecl _ | parseMemberAfterType .. => 6
  | parseFuncDecl .. => 7
  | parseClassMember .. | parseTopDeclAt _ => 8
  | membersLoop .. | topLoop _ | parseTopDecl => 16
  | programLoop => 17
  | parseProgram => 18

/-- How far they go down when nothing is left: no loop turns then. -/
def ParseCall.rankAtEnd : ParseCall → Nat
  | postfixLoop _ going => if going then 7 else 6
  | paramsLoop .. | orLoop _ | andLoop _ | addLoop _ | mulLoop _ | argLoop .. | elemsLoop ..
  | pairsLoop .. | stmtsLoop _ | declsLoop _ | switchLoop .. | caseLoop _ | matchLoop ..
  | symsLoop .. | pathLoop _ | tparamsLoop .. | basesLoop .. | membersLoop .. | topLoop _
  | enumLoop _ | payloadLoop .. | programLoop | parseAssignRest _
  | parseMemberAfterType .. => 6
  | parseType | parseParams | parseArgList | parsePrimary | parseBlockBody _ | parseBlock _
  | parseIfBody _ | parseDottedPath | parseClassDecl _ | parseClassMember ..
  | parseInterfaceDecl _ | parseEnumDecl _ | parseTopDeclAt _ | parseProgram => 7
  | parsePostfix | parseBlockHeader .. | parseImport _ | parseFuncDecl .. | parseDtorDecl ..
  | parseNamespaceDecl _ | parseExternDecl _ | parseTopDecl => 8
  | parseUnary => 9
  | parseMul => 10
  | parseAdd => 11
  | parseCmp => 12
  | parseAnd => 13
  | parseOr => 14
  | parseAssign => 15
  | parseExpr => 16
  | parseStmt _ => 17
  | parseIfStmt _ | parseWhileStmt _ | parseDoWhileStmt _ | parseForStmt _ | parseSwitchStmt _
  | parseMatchStmt _ | parseTryCatch _ => 18

def Call.rank (c : Call) (s : Parser) : Nat :=
  match c with
  | scan c => c.rank
  | advance => 5
  | parse c => if s.left = 0 then c.rankAtEnd else c.rank

def Call.measure (c : Call) (s : Parser) : Nat × Nat := (s.left, c.rank s)

/-- Less is left, or as much with a lower rank. -/
def Less : Nat × Nat → Nat × Nat → Prop := Prod.Lex (· < ·) (· < ·)

theorem less_iff {c c' : Call} {s s' : Parser} : Less (c'.measure s') (c.measure s) ↔
    s'.left < s.left ∨ s'.left = s.left ∧ c'.rank s' < c.rank s :=
  Prod.lex_def

/-! ## What is expected of a call -/

/-- What the loops of the lexer consume for sure. -/
def ScanCall.Consumes : ScanCall → Lexer → Prop
  | lineLoop, lx => lx.pos < lx.len ∧ lx.char ≠ ascii "\n"
  | identLoop, lx | readIdent, lx => lx.pos < lx.len ∧ isAlnumUnder lx.char
  | digitsLoop, lx => lx.pos < lx.len ∧ isDigit lx.char
  | _, _ => False

/-- What a call of the lexer does: it moves on, and a token is stored that has taken characters,
unless there are none. -/
def ScanCall.Post : ScanCall → Parser → Parser → Prop
  | lexOneInto isPeek, s, s' => ∃ p tt tv, s.lx.pos ≤ p ∧ p ≤ s.lx.len ∧
      s' = (s.moveTo p).store isPeek tt tv ∧
        if tt = .eof then p = s.lx.len else s.lx.pos < p
  | c, s, s' => ∃ p, s.lx.pos ≤ p ∧ p ≤ s.lx.len ∧ s' = s.moveTo p ∧
      (c.Consumes s.lx → s.lx.pos < p)

/-- The procedures of the parser that may consume nothing. -/
def ParseCall.mayStay : ParseCall → Bool
  | paramsLoop .. | orLoop _ | andLoop _ | addLoop _ | mulLoop _ | postfixLoop .. | argLoop ..
  | elemsLoop .. | pairsLoop .. | stmtsLoop _ | declsLoop _ | switchLoop .. | caseLoop _
  | matchLoop .. | symsLoop .. | pathLoop _ | tparamsLoop .. | basesLoop .. | membersLoop ..
  | topLoop _ | enumLoop _ | payloadLoop .. | programLoop | parseAssignRest _
  | parseMemberAfterType .. | parseProgram => true
  | _ => false

/-- When a call is allowed. -/
def Pre : Call → Parser → Prop
  | .scan _, s => s.lx.InRange
  | .advance, s | .parse _, s => s.Ready

/-- What is known behind it. -/
def Post : Call → Parser → Parser → Prop
  | .scan c, s, s' => c.Post s s'
  | .advance, s, s' => s'.Ready ∧ s'.left ≤ s.left - 1
  | .parse c, s, s' => s'.Ready ∧ s'.left ≤ s.left - if c.mayStay then 0 else 1

/-! ## Pieces of the lexer -/

section Lexer

variable {s : Parser} {c : ScanCall}

theorem inRange_moveTo (inRange : s.lx.InRange) {q : Int} (behind : s.lx.pos ≤ q)
    (inside : q ≤ s.lx.len) : (s.moveTo q).lx.InRange where
  nonneg := inRange.nonneg.trans behind
  inside := inside
  short := inRange.short

theorem left_moveTo (inRange : s.lx.InRange) {q : Int} (behind : s.lx.pos ≤ q)
    (inside : q ≤ s.lx.len) : (s.moveTo q).left + (q - s.lx.pos).toNat = s.left := by
  have start := inRange.inside
  have rest : (s.moveTo q).lx.rest + (q - s.lx.pos).toNat = s.lx.rest := by
    change (s.lx.len - q).toNat + _ = (s.lx.len - s.lx.pos).toNat
    omega
  rw [Parser.left, Parser.left, ← rest, ← Nat.add_assoc]
  rfl

theorem less_moveTo (inRange : s.lx.InRange) {c' : ScanCall} {q : Int} (behind : s.lx.pos ≤ q)
    (inside : q ≤ s.lx.len) (down : s.lx.pos < q ∨ c'.rank < c.rank) :
    Less (Call.measure (.scan c') (s.moveTo q)) (Call.measure (.scan c) s) := by
  have left := left_moveTo inRange behind inside
  rw [less_iff]
  rcases down with forward | lower
  · left
    omega
  · have lower' : (Call.scan c').rank (s.moveTo q) < (Call.scan c).rank s := lower
    omega

/-- A position that the lexer may have moved on to. -/
structure Parser.Ahead (s : Parser) (q : Int) : Prop where
  behind : s.lx.pos ≤ q
  inside : q ≤ s.lx.len

namespace Scanning

/-- A piece of the procedure `c`, which has been called in the state `s`, begins at `q` and ends
further on. -/
def Ends {α : Type} (c : ScanCall) (s : Parser) (Q : α → Int → Prop) (p : Scanning α) (q : Int) :
    Prop :=
  p.Meets Pre (fun c' s' => Less (c'.measure s') (Call.measure (.scan c) s)) Post
    (fun a s' => ∃ q', s.Ahead q' ∧ s' = s.moveTo q' ∧ Q a q') (s.moveTo q)

variable {α β : Type} {Q : α → Int → Prop} {q : Int}

theorem ends_pure {a : α} (ahead : s.Ahead q) (holds : Q a q) : Ends c s Q (pure a) q :=
  ⟨q, ahead, rfl, holds⟩

theorem ends_lexer {k : Lexer → Scanning α} :
    Ends c s Q (lexer >>= k) q ↔ Ends c s Q (k (s.moveTo q).lx) q :=
  Iff.rfl

theorem ends_bind {p : Scanning β} {k : β → Scanning α} {Q' : β → Int → Prop}
    (first : Ends c s Q' p q) (rest : ∀ b q', s.Ahead q' → Q' b q' → Ends c s Q (k b) q') :
    Ends c s Q (p >>= k) q := by
  refine Prog.meets_bind.mpr (Prog.Meets.mono first ?_)
  rintro b _ ⟨q', ahead, rfl, holds⟩
  exact rest b q' ahead holds

theorem ends_skip {n : Int} {k : Unit → Scanning α} (inRange : s.lx.InRange) (ahead : s.Ahead q)
    (nonneg : 0 ≤ n) (inside : q + n ≤ s.lx.len) (rest : Ends c s Q (k ()) (q + n)) :
    Ends c s Q (skip n >>= k) q := by
  have moved : (s.moveTo q).lx.ahead n = q + n :=
    (inRange_moveTo inRange ahead.behind ahead.inside).ahead_eq' nonneg
      (inside.trans (Int.le_add_of_nonneg_right (by decide)))
  have same : Ends c s Q (skip n >>= k) q ↔ Prog.Meets Pre _ Post _ (k ()) (s.moveTo _) := Iff.rfl
  rw [same, moved]
  exact rest

theorem ends_scan {c' : ScanCall} {k : Bytes → Scanning α} (inRange : s.lx.InRange)
    (plain : ∀ isPeek, c' ≠ .lexOneInto isPeek) (ahead : s.Ahead q)
    (down : s.lx.pos < q ∨ c'.rank < c.rank)
    (rest : ∀ r q', s.Ahead q' → q ≤ q' → (c'.Consumes (s.moveTo q).lx → q < q') →
      Ends c s Q (k r) q') :
    Ends c s Q (scan c' >>= k) q := by
  refine ⟨inRange_moveTo inRange ahead.behind ahead.inside,
    less_moveTo inRange ahead.behind ahead.inside down, fun r s' known => ?_⟩
  have moved : ∃ p, q ≤ p ∧ p ≤ s.lx.len ∧ s' = (s.moveTo q).moveTo p ∧
      (c'.Consumes (s.moveTo q).lx → q < p) := by
    cases c' with
    | lexOneInto isPeek => exact absurd rfl (plain isPeek)
    | _ => exact known
  obtain ⟨p, from', inside, rfl, consumes⟩ := moved
  exact rest r p ⟨ahead.behind.trans from', inside⟩ from' consumes

theorem ends_tail {c' : ScanCall} {Q : Bytes → Int → Prop} (inRange : s.lx.InRange)
    (plain : ∀ isPeek, c' ≠ .lexOneInto isPeek) (ahead : s.Ahead q)
    (down : s.lx.pos < q ∨ c'.rank < c.rank)
    (holds : ∀ r q', q ≤ q' → (c'.Consumes (s.moveTo q).lx → q < q') → Q r q') :
    Ends c s Q (scan c') q :=
  ends_scan (k := pure) inRange plain ahead down fun r q' ahead from' consumes =>
    ends_pure ahead (holds r q' from' consumes)

theorem ends_turn {n : Int} {c' : ScanCall} {Q : Bytes → Int → Prop} (inRange : s.lx.InRange)
    (plain : ∀ isPeek, c' ≠ .lexOneInto isPeek) (ahead : s.Ahead q) (pos : 0 < n)
    (inside : q + n ≤ s.lx.len) (holds : ∀ r q', q < q' → Q r q') :
    Ends c s Q (skip n >>= fun _ => scan c') q := by
  have behind := ahead.behind
  apply ends_skip inRange ahead (by omega) inside
  apply ends_tail inRange plain ⟨by omega, inside⟩ (by omega)
  intro r q' from' _
  exact holds r q' (by omega)

theorem ends_charLoop {P : Lexer → Prop} [DecidablePred P] (inRange : s.lx.InRange)
    (plain : ∀ isPeek, c ≠ .lexOneInto isPeek) :
    Ends c s (fun _ q => s.lx.pos < s.lx.len ∧ P s.lx → s.lx.pos < q) (do
      let lx ← lexer
      if lx.pos < lx.len ∧ P lx then
        skip 1
        scan c
      else return []) s.lx.pos := by
  have start : s.Ahead s.lx.pos := ⟨le_refl _, inRange.inside⟩
  rw [ends_lexer]
  split
  case isTrue inside =>
    exact ends_turn inRange plain start (by omega) inside.1 fun _ _ forward _ => forward
  case isFalse outside => exact ends_pure start fun inside => absurd inside outside

end Scanning

/-! ## The procedures of the lexer -/

/-- What is to be shown of a procedure other than `_lex_one_into`. -/
def ScanCall.Fine (c : ScanCall) (s : Parser) : Prop :=
  Scanning.Ends c s (fun _ q => c.Consumes s.lx → s.lx.pos < q) c.body s.lx.pos

namespace Scanning

theorem lineLoop_fine (inRange : s.lx.InRange) : ScanCall.lineLoop.Fine s :=
  ends_charLoop (P := fun lx => lx.char ≠ ascii "\n") inRange nofun

theorem identLoop_fine (inRange : s.lx.InRange) : ScanCall.identLoop.Fine s :=
  ends_charLoop (P := fun lx => isAlnumUnder lx.char) inRange nofun

theorem digitsLoop_fine (inRange : s.lx.InRange) : ScanCall.digitsLoop.Fine s :=
  ends_charLoop (P := fun lx => isDigit lx.char) inRange nofun

theorem wsLoop_fine (inRange : s.lx.InRange) (wsGoing : Bool) :
    (ScanCall.wsLoop wsGoing).Fine s := by
  have start : s.Ahead s.lx.pos := ⟨le_refl _, inRange.inside⟩
  rw [ScanCall.Fine, ScanCall.body, wsLoop, ends_lexer]
  split
  case isTrue inside =>
    have more : s.lx.pos < s.lx.len := inside.2
    dsimp only
    split
    case isTrue => exact ends_turn inRange nofun start (by omega) more fun _ _ _ none => none.elim
    case isFalse =>
      have lower : (ScanCall.wsLoop false).rank < (ScanCall.wsLoop wsGoing).rank := by
        simp [inside.1, ScanCall.rank]
      exact ends_tail inRange nofun start (.inr lower) fun _ _ _ _ none => none.elim
  case isFalse => exact ends_pure start fun none => none.elim

theorem blockLoop_fine (inRange : s.lx.InRange) (foundEnd : Bool) :
    (ScanCall.blockLoop foundEnd).Fine s := by
  have start : s.Ahead s.lx.pos := ⟨le_refl _, inRange.inside⟩
  have next : s.lx.ahead 1 = s.lx.pos + 1 := inRange.ahead_eq (by omega) (by omega)
  rw [ScanCall.Fine, ScanCall.body, blockLoop, ends_lexer]
  split
  case isTrue inside =>
    have more : s.lx.pos + 1 < s.lx.len := next ▸ inside.1
    split
    · exact ends_turn inRange nofun start (by omega) (by omega) fun _ _ _ none => none.elim
    · exact ends_turn inRange nofun start (by omega) (by omega) fun _ _ _ none => none.elim
  case isFalse => exact ends_pure start fun none => none.elim

theorem tripleLoop_fine (inRange : s.lx.InRange) (foundTq : Bool) :
    (ScanCall.tripleLoop foundTq).Fine s := by
  have start : s.Ahead s.lx.pos := ⟨le_refl _, inRange.inside⟩
  have next : s.lx.ahead 2 = s.lx.pos + 2 := inRange.ahead_eq (by omega) (by omega)
  rw [ScanCall.Fine, ScanCall.body, tripleLoop, ends_lexer]
  split
  case isTrue inside =>
    have more : s.lx.pos + 2 < s.lx.len := next ▸ inside.1
    split
    · exact ends_turn inRange nofun start (by omega) (by omega) fun _ _ _ none => none.elim
    · exact ends_turn inRange nofun start (by omega) (by omega) fun _ _ _ none => none.elim
  case isFalse => exact ends_pure start fun none => none.elim

theorem stringLoop_fine (inRange : s.lx.InRange) (quote result : Bytes) (done : Bool) :
    (ScanCall.stringLoop quote result done).Fine s := by
  have start : s.Ahead s.lx.pos := ⟨le_refl _, inRange.inside⟩
  have next : s.lx.ahead 1 = s.lx.pos + 1 := inRange.ahead_eq (by omega) (by omega)
  rw [ScanCall.Fine, ScanCall.body, stringLoop, ends_lexer]
  split
  case isTrue inside =>
    have more : s.lx.pos < s.lx.len := inside.1
    dsimp only
    split
    · exact ends_turn inRange nofun start (by omega) more fun _ _ _ none => none.elim
    · split
      case isTrue escaped =>
        have more' : s.lx.pos + 1 < s.lx.len := next ▸ escaped.2
        exact ends_turn inRange nofun start (by omega) (by omega) fun _ _ _ none => none.elim
      case isFalse =>
        exact ends_turn inRange nofun start (by omega) more fun _ _ _ none => none.elim
  case isFalse => exact ends_pure start fun none => none.elim

theorem readStringContent_fine (inRange : s.lx.InRange) (quote : Bytes) :
    (ScanCall.readStringContent quote).Fine s :=
  ends_tail inRange nofun ⟨le_refl _, inRange.inside⟩ (.inr Nat.zero_lt_one)
    fun _ _ _ _ none => none.elim

theorem readIdent_fine (inRange : s.lx.InRange) : ScanCall.readIdent.Fine s := by
  have start : s.Ahead s.lx.pos := ⟨le_refl _, inRange.inside⟩
  rw [ScanCall.Fine, ScanCall.body, readIdent, ends_lexer]
  have lower : ScanCall.identLoop.rank < ScanCall.readIdent.rank := Nat.zero_lt_one
  refine ends_scan inRange nofun start (.inr lower) ?_
  intro _ q' ahead _ consumes
  rw [ends_lexer]
  exact ends_pure ahead consumes

theorem skipWsAndComments_fine (inRange : s.lx.InRange) : ScanCall.skipWsAndComments.Fine s :=
  ends_tail inRange nofun ⟨le_refl _, inRange.inside⟩ (.inr (by decide))
    fun _ _ _ _ none => none.elim

theorem skipComment_ends (inRange : s.lx.InRange) {q : Int} (ahead : s.Ahead q) :
    Ends (.skipLoop true) s (fun going q' => going = true → s.lx.pos < q') skipComment q := by
  have behind := ahead.behind
  have inRange' := inRange_moveTo inRange ahead.behind ahead.inside
  have next (k : Int) (nonneg : 0 ≤ k) (small : k ≤ 2) : (s.moveTo q).lx.ahead k = q + k :=
    inRange'.ahead_eq nonneg small
  rw [skipComment, ends_lexer]
  split
  case isTrue more =>
    have more : q < s.lx.len := more
    dsimp only
    split
    case isTrue hash =>
      have line : (s.moveTo q).lx.char ≠ ascii "\n" := by rw [hash]; decide
      refine ends_scan inRange nofun ahead (.inr (by decide)) fun _ q' ahead' _ consumes => ?_
      exact ends_pure ahead' fun _ => behind.trans_lt (consumes ⟨more, line⟩)
    split
    case isTrue slashes =>
      have line : (s.moveTo q).lx.char ≠ ascii "\n" := by rw [slashes.1]; decide
      refine ends_scan inRange nofun ahead (.inr (by decide)) fun _ q' ahead' _ consumes => ?_
      exact ends_pure ahead' fun _ => behind.trans_lt (consumes ⟨more, line⟩)
    split
    case isTrue block =>
      have inside : (s.moveTo q).lx.ahead 1 < s.lx.len := by
        have second := block.2
        simp only [Lexer.follows, Bool.and_eq_true, decide_eq_true_eq] at second
        exact second.1
      rw [next 1 (by omega) (by omega)] at inside
      apply ends_skip inRange ahead (by omega) (by omega)
      refine ends_scan inRange nofun ⟨by omega, by omega⟩ (.inl (by omega)) ?_
      intro _ q' ahead' from' _
      exact ends_pure ahead' fun _ => by omega
    split
    case isTrue triple =>
      have inside : (s.moveTo q).lx.ahead 2 < s.lx.len := triple.1
      rw [next 2 (by omega) (by omega)] at inside
      apply ends_skip inRange ahead (by omega) (by omega)
      refine ends_scan inRange nofun ⟨by omega, by omega⟩ (.inl (by omega)) ?_
      intro _ q' ahead' from' _
      exact ends_pure ahead' fun _ => by omega
    case isFalse => exact ends_pure ahead nofun
  case isFalse => exact ends_pure ahead nofun

theorem skipLoop_fine (inRange : s.lx.InRange) (going : Bool) :
    (ScanCall.skipLoop going).Fine s := by
  have start : s.Ahead s.lx.pos := ⟨le_refl _, inRange.inside⟩
  rw [ScanCall.Fine, ScanCall.body, skipLoop]
  cases going with
  | false => exact ends_pure start fun none => none.elim
  | true =>
    refine ends_scan inRange nofun start (.inr (by decide)) fun _ q ahead _ _ => ?_
    refine ends_bind (skipComment_ends inRange ahead) fun going q' ahead' moved => ?_
    have down : s.lx.pos < q' ∨ (ScanCall.skipLoop going).rank < (ScanCall.skipLoop true).rank := by
      cases going with
      | false => exact .inr (by decide)
      | true => exact .inl (moved rfl)
    exact ends_tail inRange nofun ahead' down fun _ _ _ _ none => none.elim

/-! ### Tokens -/

theorem kwOrIdent_ne_eof (word : Bytes) : kwOrIdent word ≠ .eof := by
  have none : ∀ kw ∈ keywords, kw.2 ≠ .eof := by decide
  rw [kwOrIdent]
  cases found : keywords.find? fun kw => ascii kw.1 = word with
  | none => simp
  | some kw => exact none kw (List.mem_of_find?_eq_some found)

theorem startsWith_inside {lx : Lexer} (inRange : lx.InRange) (more : lx.pos < lx.len)
    {symbol : String} (short : symbol.length ≤ 3) (starts : lx.startsWith symbol) :
    lx.pos + symbol.length ≤ lx.len := by
  have inside (k : Int) (nonneg : 0 ≤ k) (small : k ≤ 2) {c : String} (follows : lx.follows k c) :
      lx.pos + k < lx.len := by
    simp only [Lexer.follows, Bool.and_eq_true, decide_eq_true_eq] at follows
    rw [← inRange.ahead_eq nonneg small]
    exact follows.1
  rw [← String.length_toList] at short ⊢
  rw [Lexer.startsWith] at starts
  match symbol.toList, short, starts with
  | [], _, starts => cases starts
  | [a], _, _ => exact more
  | [a, b], _, starts =>
    have second := inside 1 (by omega) (by omega) (Bool.and_eq_true _ _ ▸ starts).2
    change lx.pos + 2 ≤ lx.len
    omega
  | [a, b, c], _, starts =>
    have third := inside 2 (by omega) (by omega) (Bool.and_eq_true _ _ ▸ starts).2
    change lx.pos + 3 ≤ lx.len
    omega

theorem lexFraction_ends (inRange : s.lx.InRange) {isPeek : Bool} {q : Int} (ahead : s.Ahead q) :
    Ends (.lexOneInto isPeek) s (fun _ q' => q ≤ q') lexFraction q := by
  rw [lexFraction, ends_lexer]
  split
  case isFalse => exact ends_pure ahead le_rfl
  case isTrue point =>
    have more : q < s.lx.len := point.1
    split
    case isFalse => exact ends_pure ahead le_rfl
    case isTrue =>
      have behind := ahead.behind
      apply ends_skip inRange ahead (by omega) (by omega)
      refine ends_scan inRange nofun ⟨by omega, by omega⟩ (.inl (by omega)) ?_
      intro _ q' ahead' from' _
      exact ends_pure ahead' (by omega)

theorem lexSuffix_ends (inRange : s.lx.InRange) {isPeek : Bool} (isFloat : Bool) {q : Int}
    (ahead : s.Ahead q) :
    Ends (.lexOneInto isPeek) s (fun tt q' => q ≤ q' ∧ tt ≠ .eof) (lexSuffix isFloat) q := by
  have behind := ahead.behind
  have letter (tt : TokenType) (real : tt ≠ .eof) (inside : q + 1 ≤ s.lx.len) :
      Ends (.lexOneInto isPeek) s (fun tt q' => q ≤ q' ∧ tt ≠ .eof)
        (skip 1 >>= fun _ => pure tt) q :=
    ends_skip inRange ahead (by omega) inside
      (ends_pure ⟨by omega, inside⟩ ⟨by omega, real⟩)
  rw [lexSuffix, ends_lexer]
  split
  case isTrue inside => exact letter .longLit (by decide) inside.1
  split
  case isTrue inside => exact letter .intLit (by decide) inside.1
  split
  case isTrue inside => exact letter .realLit (by decide) inside.1
  split
  case isTrue inside => exact letter .floatLit (by decide) inside.1
  case isFalse => exact ends_pure ahead ⟨le_rfl, by cases isFloat <;> decide⟩

theorem lexToken_ends (inRange : s.lx.InRange) {isPeek : Bool} {q : Int} (ahead : s.Ahead q)
    (more : q < s.lx.len) :
    Ends (.lexOneInto isPeek) s (fun token q' => q < q' ∧ token.1 ≠ .eof) lexToken q := by
  have behind := ahead.behind
  have inRange' := inRange_moveTo inRange ahead.behind ahead.inside
  rw [lexToken, ends_lexer]
  dsimp only
  split
  case isTrue word =>
    have begins : ScanCall.readIdent.Consumes (s.moveTo q).lx := by
      refine ⟨more, ?_⟩
      rcases word with alpha | under
      · simp [isAlnumUnder, alpha]
      · simp [isAlnumUnder, under]
    have lower : ScanCall.readIdent.rank < (ScanCall.lexOneInto isPeek).rank := by
      simp [ScanCall.rank]
    refine ends_scan inRange nofun ahead (.inr lower) fun tv q' ahead' _ consumes => ?_
    exact ends_pure ahead' ⟨consumes begins, kwOrIdent_ne_eof tv⟩
  split
  case isTrue digit =>
    rw [lexNumber, ends_lexer]
    have lower : ScanCall.digitsLoop.rank < (ScanCall.lexOneInto isPeek).rank := by
      simp [ScanCall.rank]
    refine ends_scan inRange nofun ahead (.inr lower) ?_
    intro _ q₁ ahead₁ _ consumes
    refine ends_bind (lexFraction_ends inRange ahead₁) fun isFloat q₂ ahead₂ from₂ => ?_
    rw [ends_lexer]
    refine ends_bind (lexSuffix_ends inRange isFloat ahead₂) fun tt q₃ ahead₃ from₃ => ?_
    exact ends_pure ahead₃ ⟨(consumes ⟨more, digit⟩).trans_le (from₂.trans from₃.1), from₃.2⟩
  have text (quote : Bytes) : Ends (.lexOneInto isPeek) s
      (fun token q' => q < q' ∧ token.1 ≠ .eof)
      (skip 1 >>= fun _ => scan (.readStringContent quote) >>= fun tv =>
        pure (TokenType.strLit, tv)) q := by
    apply ends_skip inRange ahead (by omega) more
    refine ends_scan inRange nofun ⟨by omega, more⟩ (.inl (by omega)) fun tv q' ahead' from' _ => ?_
    exact ends_pure ahead' ⟨by omega, nofun⟩
  split
  case isTrue => exact text (ascii "\"")
  split
  case isTrue => exact text (ascii "'")
  split
  case h_1 symbol tt found =>
    have known : ∀ symbol ∈ symbols,
        0 < symbol.1.length ∧ symbol.1.length ≤ 3 ∧ symbol.2 ≠ .eof := by decide
    have ⟨nonempty, short, real⟩ := known _ (List.mem_of_find?_eq_some found)
    have starts : (s.moveTo q).lx.startsWith symbol :=
      List.find?_some (p := fun c : String × TokenType => (s.moveTo q).lx.startsWith c.1) found
    have inside := startsWith_inside inRange' more short starts
    have longer : (0 : Int) < symbol.length := Int.natCast_pos.mpr nonempty
    apply ends_skip inRange ahead longer.le inside
    exact ends_pure ⟨by omega, inside⟩ ⟨by omega, real⟩
  case h_2 =>
    apply ends_skip inRange ahead (by omega) more
    exact ends_pure ⟨by omega, more⟩ ⟨by omega, nofun⟩

theorem lexOneInto_meets (inRange : s.lx.InRange) (isPeek : Bool) :
    (lexOneInto isPeek).Meets Pre
      (fun c' s' => Less (c'.measure s') (Call.measure (.scan (.lexOneInto isPeek)) s)) Post
      (fun _ s' => (ScanCall.lexOneInto isPeek).Post s s') s := by
  have start : s.Ahead s.lx.pos := ⟨le_refl _, inRange.inside⟩
  have skips : Ends (.lexOneInto isPeek) s (fun _ _ => True) (scan .skipWsAndComments) s.lx.pos :=
    ends_tail inRange nofun start (.inr (by simp [ScanCall.rank])) fun _ _ _ _ => trivial
  refine Prog.meets_bind.mpr (Prog.Meets.mono skips ?_)
  rintro _ _ ⟨q, ahead, rfl, -⟩
  change Prog.Meets _ _ _ _ (ite _ _ _) _
  split
  case isTrue ended =>
    exact ⟨q, .eof, [], ahead.behind, ahead.inside, rfl, ahead.inside.antisymm ended⟩
  case isFalse more =>
    refine Prog.meets_bind.mpr (Prog.Meets.mono (lexToken_ends inRange ahead (not_le.mp more)) ?_)
    rintro ⟨tt, tv⟩ _ ⟨q', ahead', rfl, forward, real⟩
    have moved : if tt = .eof then q' = s.lx.len else s.lx.pos < q' := by
      rw [if_neg real]
      exact ahead.behind.trans_lt forward
    exact ⟨q', tt, tv, ahead'.behind, ahead'.inside, rfl, moved⟩

end Scanning

theorem ScanCall.fine (inRange : s.lx.InRange) :
    ∀ c : ScanCall, (∀ isPeek, c ≠ .lexOneInto isPeek) → c.Fine s
  | .lexOneInto isPeek, plain => absurd rfl (plain isPeek)
  | .skipWsAndComments, _ => Scanning.skipWsAndComments_fine inRange
  | .skipLoop going, _ => Scanning.skipLoop_fine inRange going
  | .wsLoop wsGoing, _ => Scanning.wsLoop_fine inRange wsGoing
  | .lineLoop, _ => Scanning.lineLoop_fine inRange
  | .blockLoop foundEnd, _ => Scanning.blockLoop_fine inRange foundEnd
  | .tripleLoop foundTq, _ => Scanning.tripleLoop_fine inRange foundTq
  | .readIdent, _ => Scanning.readIdent_fine inRange
  | .identLoop, _ => Scanning.identLoop_fine inRange
  | .digitsLoop, _ => Scanning.digitsLoop_fine inRange
  | .readStringContent quote, _ => Scanning.readStringContent_fine inRange quote
  | .stringLoop quote result done, _ => Scanning.stringLoop_fine inRange quote result done

theorem scan_meets (inRange : s.lx.InRange) (c : ScanCall) :
    c.body.Meets Pre (fun c' s' => Less (c'.measure s') (Call.measure (.scan c) s)) Post
      (fun _ s' => c.Post s s') s := by
  by_cases plain : ∀ isPeek, c ≠ .lexOneInto isPeek
  case pos =>
    refine Prog.Meets.mono (c.fine inRange plain) ?_
    rintro _ _ ⟨q, ahead, rfl, consumes⟩
    cases c with
    | lexOneInto isPeek => exact absurd rfl (plain isPeek)
    | _ => exact ⟨q, ahead.behind, ahead.inside, rfl, consumes⟩
  case neg =>
    obtain ⟨isPeek, isToken⟩ := not_forall.mp plain
    cases not_not.mp isToken
    exact Scanning.lexOneInto_meets inRange isPeek

/-! ## The next token -/

theorem left_next (ready : s.Ready) {p : Int} {tt : TokenType} (inside : p ≤ s.lx.len)
    (moved : if tt = .eof then p = s.lx.len else s.lx.pos < p) :
    s.lx.pekTt.count + tt.count + (s.lx.len - p).toNat ≤ s.left - 1 := by
  have rest : s.lx.rest = (s.lx.len - s.lx.pos).toNat := rfl
  have left : s.left = s.lx.curTt.count + s.lx.pekTt.count + s.lx.rest := rfl
  by_cases ended : tt = .eof
  case pos =>
    subst ended
    rw [if_pos rfl] at moved
    have none : TokenType.eof.count = 0 := rfl
    have last : s.lx.pekTt.count + 1 ≤ s.lx.curTt.count + s.lx.pekTt.count ∨
        s.lx.pekTt.count = 0 := by
      by_cases last : s.lx.curTt = .eof
      · right
        rw [ready.cur last]
        rfl
      · left
        have one : s.lx.curTt.count = 1 := if_neg last
        omega
    omega
  case neg =>
    rw [if_neg ended] at moved
    have more : s.lx.pekTt ≠ .eof := fun ended => by
      have := ready.pek ended
      omega
    have more' : s.lx.curTt ≠ .eof := fun last => more (ready.cur last)
    have one : s.lx.curTt.count = 1 := if_neg more'
    have one' : tt.count = 1 := if_neg ended
    omega

theorem advance_meets (ready : s.Ready) :
    Scanning.advance.Meets Pre
      (fun c' s' => Less (c'.measure s') (Call.measure .advance s)) Post
      (fun _ s' => Post .advance s s') s := by
  have ⟨⟨nonneg, inside, short⟩, pek, cur⟩ := ready
  have below : Less (Call.measure (.scan (.lexOneInto true))
      (s.store false s.lx.pekTt s.lx.pekTv)) (Call.measure .advance s) := by
    have shifted : (s.store false s.lx.pekTt s.lx.pekTv).left + s.lx.curTt.count =
        s.left + s.lx.pekTt.count := by
      change s.lx.pekTt.count + s.lx.pekTt.count + s.lx.rest + s.lx.curTt.count =
        s.lx.curTt.count + s.lx.pekTt.count + s.lx.rest + s.lx.pekTt.count
      omega
    have fewer : s.lx.pekTt.count ≤ s.lx.curTt.count := by
      by_cases last : s.lx.curTt = .eof
      · rw [cur last, last]
      · rw [TokenType.count, TokenType.count, if_neg last]
        split <;> decide
    have lower : (Call.scan (.lexOneInto true)).rank (s.store false s.lx.pekTt s.lx.pekTv) <
        Call.advance.rank s := Nat.lt_succ_self 4
    rw [less_iff]
    omega
  refine ⟨⟨nonneg, inside, short⟩, below, ?_⟩
  rintro r _ ⟨p, tt, tv, behind, inside, rfl, moved⟩
  refine ⟨⟨⟨nonneg.trans behind, inside, short⟩, ?_, ?_⟩, left_next ready inside moved⟩
  · intro ended
    have ended : tt = .eof := ended
    rw [if_pos ended] at moved
    exact moved
  · intro last
    have atEnd : s.lx.pos = s.lx.len := pek last
    change tt = .eof
    by_contra real
    rw [if_neg real] at moved
    exact absurd inside (not_le.mpr (atEnd ▸ moved))

end Lexer

end Dux.Bootstrap
