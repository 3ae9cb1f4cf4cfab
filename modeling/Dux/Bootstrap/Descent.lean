import Dux.Bootstrap.Progress

/-!
# How far the calls of the parser go down

In every procedure of `bootstrap/dux_stage2.dux` the calls that are made before a token has been
consumed are of a lower rank.  When nothing is left this is so for all of its calls.
-/

namespace Dux.Bootstrap

open Dux.Logic (ascii Prog)
open Dux.Runtime (Bytes)

/-- The calls that consume a token if there is one. -/
def Call.Spends : Call → Prop
  | .scan _ | .advance => True
  | .parse c => c.mayStay = false

def Call.fullRank : Call → Nat
  | .scan c => c.rank
  | .advance => 5
  | .parse c => c.rank

def Call.endRank : Call → Nat
  | .scan c => c.rank
  | .advance => 5
  | .parse c => c.rankAtEnd

def anyLexer : Lexer := (Parser.start ⟨[], Nat.zero_le _⟩).lx

instance : Nonempty Lexer := ⟨anyLexer⟩

instance : Nonempty TokenType := ⟨.eof⟩

attribute [simp] ParseCall.body ParseCall.rank ParseCall.rankAtEnd ParseCall.mayStay

namespace Parsing

variable {α β : Type} {r : Nat}

/-! ## While something is left -/

/-- Up to the first call that consumes a token the calls are of a rank below `r`; `Q` holds if
nothing is consumed. -/
def First (r : Nat) (Q : α → Prop) (p : Parsing α) : Prop :=
  p.1.Within (fun _ => True) Call.fullRank r Call.Spends Q

section First

variable {Q : α → Prop}

@[simp]
theorem first_pure {a : α} : First r Q (pure a) ↔ Q a := Iff.rfl

@[simp]
theorem first_bind {p : Parsing β} {f : β → Parsing α} :
    First r Q (p >>= f) ↔ First r (fun b => First r Q (f b)) p :=
  Prog.within_bind

@[simp]
theorem first_ite {c : Prop} [Decidable c] {p p' : Parsing α} :
    First r Q (if c then p else p') ↔ (c → First r Q p) ∧ (¬c → First r Q p') := by
  by_cases h : c <;> simp [h]

@[simp]
theorem first_lexer {Q : Lexer → Prop} : First r Q lexer ↔ ∀ lx, Q lx :=
  ⟨fun h lx => h ⟨lx, []⟩ trivial, fun h s _ => h s.lx⟩

@[simp]
theorem first_print {Q : Unit → Prop} {line : Bytes} : First r Q (print line) ↔ Q () := Iff.rfl

@[simp]
theorem first_advance {Q : Unit → Prop} : First r Q advance ↔ 5 < r :=
  and_iff_left (.inl trivial)

@[simp]
theorem first_parse {Q : Bytes → Prop} {c : ParseCall} :
    First r Q (parse c) ↔ c.rank < r ∧ (c.mayStay = false ∨ ∀ x, Q x) :=
  Iff.rfl

@[simp]
theorem first_expect {Q : Unit → Prop} {t : TokenType} : First r Q (expect t) ↔ 5 < r := by
  simp [expect]

@[simp]
theorem first_tt {Q : TokenType → Prop} : First r Q tt ↔ ∀ t, Q t := by
  simp [tt]
  constructor
  · intro h t
    exact h { anyLexer with curTt := t }
  · exact fun h lx => h lx.curTt

@[simp]
theorem first_tv {Q : Bytes → Prop} : First r Q tv ↔ ∀ v, Q v := by
  simp [tv]
  constructor
  · intro h v
    exact h { anyLexer with curTv := v }
  · exact fun h lx => h lx.curTv

@[simp]
theorem first_check {Q : Bool → Prop} {t : TokenType} :
    First r Q (check t) ↔ ∀ t', Q (t' = t) := by
  simp [check]

@[simp]
theorem first_take {Q : Bytes → Prop} : First r Q take ↔ 5 < r := by
  simp [take]

@[simp]
theorem first_noneOf {Q : Bool → Prop} {stops : List TokenType} :
    First r Q (noneOf stops) ↔ ∀ t, Q (t ∉ stops) := by
  simp [noneOf]

@[simp]
theorem first_operatorLoop {Q : Bytes → Prop} {ops : List TokenType} {operand : ParseCall}
    {again : Bytes → ParseCall} {left : Bytes} (nothing : ∀ v, Q v) :
    First 6 Q (operatorLoop ops operand again left) := by
  simp [operatorLoop, nothing]

@[simp]
theorem first_braced {Q : Unit → Prop} {d : Nat} : First r Q (braced d) ↔ 5 < r := by
  simp [braced]

@[simp]
theorem first_pattern {Q : Bytes → Prop} : First r Q pattern ↔ 5 < r := by
  simp [pattern]

theorem first_typeParams {stops : List TokenType} :
    First 7 (fun _ => True) (typeParams stops) := by
  simp [typeParams]

theorem first_baseAccess : First 6 (fun _ => True) baseAccess := by
  simp [baseAccess]

theorem first_parsePrefix {Q : Bytes → Prop} {op : String} :
    First r Q (parsePrefix op) ↔ 5 < r := by
  simp [parsePrefix]

theorem first_parseStmt {d : Nat} : First 16 (fun _ => False) (parseStmt d) := by
  simp only [parseStmt, first_bind, first_lexer]
  intro lx
  split
  all_goals simp [returnStmt, bareStmt, wordStmt, assertStmt, deferStmt, unsafeStmt, constDecl,
    varDecl, exprStmt]

theorem first_parseClassMember {className : Bytes} {d : Nat} :
    First 8 (fun _ => False) (parseClassMember className d) := by
  simp only [parseClassMember, first_bind, first_lexer]
  intro lx
  split
  all_goals simp [accessMember, typedMember, namedMember, skipIf]

theorem first_parseTopDeclAt {d : Nat} : First 8 (fun _ => False) (parseTopDeclAt d) := by
  simp only [parseTopDeclAt, first_bind, first_tt]
  intro t
  split
  all_goals simp [constDecl, typedDecl, namedDecl]

end First

/-- Before a procedure has consumed a token it makes calls of lower ranks only, and it consumes one
if it has to. -/
theorem body_first (c : ParseCall) : First c.rank (fun _ => c.mayStay = true) c.body := by
  cases c with
  | parseType | parseParams | paramsLoop => simp [parseType, parseParams, paramsLoop]
  | parseExpr | parseAssign | parseOr | parseAnd | parseCmp | parseAdd | parseMul =>
    simp [parseExpr, parseAssign, parseOr, parseAnd, parseCmp, parseAdd, parseMul]
  | orLoop | andLoop | addLoop | mulLoop => simp [orLoop, andLoop, addLoop, mulLoop]
  | parseUnary => simp [parseUnary, first_parsePrefix]
  | parsePostfix => simp [parsePostfix]
  | postfixLoop base going => cases going <;> simp [postfixLoop]
  | parsePrimary => simp [parsePrimary]
  | parseArgList | argLoop | elemsLoop | pairsLoop =>
    simp [parseArgList, argLoop, elemsLoop, pairsLoop]
  | parseBlockBody | parseBlockHeader | parseBlock | stmtsLoop =>
    simp [parseBlockBody, parseBlockHeader, parseBlock, stmtsLoop]
  | parseStmt => simp [first_parseStmt]
  | declsLoop | parseAssignRest => simp [declsLoop, parseAssignRest]
  | parseIfBody | parseIfStmt | parseWhileStmt | parseDoWhileStmt | parseForStmt | parseTryCatch =>
    simp [parseIfBody, parseIfStmt, parseWhileStmt, parseDoWhileStmt, parseForStmt, parseTryCatch]
  | parseSwitchStmt | switchLoop | caseLoop => simp [parseSwitchStmt, switchLoop, caseLoop]
  | parseMatchStmt | matchLoop => simp [parseMatchStmt, matchLoop]
  | parseImport | symsLoop | parseDottedPath | pathLoop =>
    simp [parseImport, symsLoop, parseDottedPath, pathLoop]
  | parseFuncDecl | tparamsLoop => simp [parseFuncDecl, tparamsLoop, first_typeParams]
  | parseDtorDecl | parseClassDecl | parseInterfaceDecl | parseNamespaceDecl | parseEnumDecl
  | parseExternDecl =>
    simp [parseDtorDecl, parseClassDecl, parseInterfaceDecl, parseNamespaceDecl, parseEnumDecl,
      parseExternDecl]
  | basesLoop => simp [basesLoop, first_baseAccess]
  | membersLoop | topLoop | enumLoop | payloadLoop =>
    simp [membersLoop, topLoop, enumLoop, payloadLoop]
  | parseClassMember => simp [first_parseClassMember]
  | parseMemberAfterType => simp [parseMemberAfterType]
  | parseTopDeclAt => simp [first_parseTopDeclAt]
  | parseTopDecl | parseProgram | programLoop => simp [parseTopDecl, parseProgram, programLoop]

/-! ## When nothing is left -/

/-- All calls are of a rank below `r`, and `Q` holds at the end. -/
def Over (r : Nat) (Q : α → Prop) (p : Parsing α) : Prop :=
  p.1.Within (fun s => s.lx.curTt = .eof) Call.endRank r (fun _ => False) Q

section Over

variable {Q : α → Prop}

@[simp]
theorem over_pure {a : α} : Over r Q (pure a) ↔ Q a := Iff.rfl

@[simp]
theorem over_bind {p : Parsing β} {f : β → Parsing α} :
    Over r Q (p >>= f) ↔ Over r (fun b => Over r Q (f b)) p :=
  Prog.within_bind

@[simp]
theorem over_ite {c : Prop} [Decidable c] {p p' : Parsing α} :
    Over r Q (if c then p else p') ↔ (c → Over r Q p) ∧ (¬c → Over r Q p') := by
  by_cases h : c <;> simp [h]

@[simp]
theorem over_lexer {Q : Lexer → Prop} : Over r Q lexer ↔ ∀ lx, lx.curTt = .eof → Q lx :=
  ⟨fun h lx ended => h ⟨lx, []⟩ ended, fun h s ended => h s.lx ended⟩

@[simp]
theorem over_print {Q : Unit → Prop} {line : Bytes} : Over r Q (print line) ↔ Q () := Iff.rfl

@[simp]
theorem over_advance {Q : Unit → Prop} : Over r Q advance ↔ 5 < r ∧ Q () := by
  simp [Over, advance, Prog.Within, Call.endRank]

@[simp]
theorem over_parse {Q : Bytes → Prop} {c : ParseCall} :
    Over r Q (parse c) ↔ c.rankAtEnd < r ∧ ∀ x, Q x := by
  simp [Over, parse, Prog.Within, Call.endRank]

@[simp]
theorem over_tt {Q : TokenType → Prop} : Over r Q tt ↔ Q .eof := by
  simp only [tt, over_bind, over_lexer, over_pure]
  exact ⟨fun h => h anyLexer rfl, fun h lx ended => ended ▸ h⟩

@[simp]
theorem over_tv {Q : Bytes → Prop} : Over r Q tv ↔ ∀ v, Q v := by
  simp only [tv, over_bind, over_lexer, over_pure]
  exact ⟨fun h v => h { anyLexer with curTv := v } rfl, fun h lx _ => h lx.curTv⟩

@[simp]
theorem over_check {Q : Bool → Prop} {t : TokenType} : Over r Q (check t) ↔ Q (.eof = t) := by
  simp [check]

@[simp]
theorem over_skipIf {Q : Unit → Prop} {t : TokenType} (real : t ≠ .eof) :
    Over r Q (skipIf t) ↔ Q () := by
  simp [skipIf, real.symm]

@[simp]
theorem over_take {Q : Bytes → Prop} : Over r Q take ↔ 5 < r ∧ ∀ v, Q v := by
  simp [take, forall_and]

@[simp]
theorem over_expect {Q : Unit → Prop} {t : TokenType} : Over r Q (expect t) ↔ 5 < r ∧ Q () := by
  simp only [expect, over_bind, over_lexer, over_ite, over_print, over_advance]
  constructor
  · intro h
    by_cases same : anyLexer.curTt = t
    · exact (h anyLexer rfl).1 same
    · exact (h anyLexer rfl).2 same
  · exact fun h lx _ => ⟨fun _ => h, fun _ => h⟩

@[simp]
theorem over_noneOf {Q : Bool → Prop} {stops : List TokenType} (stop : .eof ∈ stops) :
    Over r Q (noneOf stops) ↔ Q false := by
  simp [noneOf, stop]

@[simp]
theorem over_takeName {Q : Bytes → Prop} : Over r Q takeName ↔ Q [] := by
  simp [takeName]

@[simp]
theorem over_catchVar {Q : Bytes → Prop} : Over r Q catchVar ↔ Q [] := by
  simp [catchVar]

@[simp]
theorem over_printAt {Q : Unit → Prop} {d : Nat} {line : Bytes} :
    Over r Q (printAt d line) ↔ Q () :=
  Iff.rfl

@[simp]
theorem over_printEnd {Q : Unit → Prop} {d : Nat} : Over r Q (printEnd d) ↔ Q () := Iff.rfl

@[simp]
theorem over_braced {Q : Unit → Prop} {d : Nat} : Over r Q (braced d) ↔ 6 < r ∧ Q () := by
  simp only [braced, over_bind, over_expect, over_parse, ParseCall.rankAtEnd, forall_const]
  constructor
  · exact fun h => ⟨h.2.1, h.2.2.2⟩
  · exact fun h => ⟨by omega, h.1, by omega, h.2⟩

@[simp]
theorem over_condition {Q : Bytes → Prop} : Over r Q condition ↔ 16 < r ∧ ∀ v, Q v := by
  simp [condition]

@[simp]
theorem over_blockOrStmt {Q : Unit → Prop} {header : Bytes} {d : Nat} :
    Over r Q (blockOrStmt header d) ↔ 17 < r ∧ Q () := by
  simp [blockOrStmt]

@[simp]
theorem over_operatorLoop {Q : Bytes → Prop} {ops : List TokenType} {operand : ParseCall}
    {again : Bytes → ParseCall} {left : Bytes} (ends : .eof ∉ ops) :
    Over r Q (operatorLoop ops operand again left) ↔ Q left := by
  simp [operatorLoop, ends]

theorem over_parseStmt {d : Nat} : Over 17 (fun _ => True) (parseStmt d) := by
  simp only [parseStmt, over_bind, over_lexer]
  intro lx ended
  rw [ended]
  simp [exprStmt, isTypeStart]

theorem over_parseClassMember {className : Bytes} {d : Nat} :
    Over 7 (fun _ => True) (parseClassMember className d) := by
  simp only [parseClassMember, over_bind, over_lexer]
  intro lx ended
  rw [ended]
  simp [isTypeStart]

end Over

theorem body_over (c : ParseCall) : Over c.rankAtEnd (fun _ => True) c.body := by
  cases c with
  | parseType | parseParams | paramsLoop => simp [parseType, parseParams, paramsLoop]
  | parseExpr | parseAssign | parseOr | parseAnd | parseCmp | parseAdd | parseMul =>
    simp [parseExpr, parseAssign, parseOr, parseAnd, parseCmp, parseAdd, parseMul, assignOps]
  | orLoop | andLoop | addLoop | mulLoop => simp [orLoop, andLoop, addLoop, mulLoop]
  | parseUnary => simp [parseUnary]
  | parsePostfix => simp [parsePostfix]
  | postfixLoop base going => cases going <;> simp [postfixLoop]
  | parsePrimary => simp [parsePrimary]
  | parseArgList | argLoop | elemsLoop | pairsLoop =>
    simp [parseArgList, argLoop, elemsLoop, pairsLoop]
  | parseBlockBody | parseBlockHeader | parseBlock | stmtsLoop =>
    simp [parseBlockBody, parseBlockHeader, parseBlock, stmtsLoop]
  | parseStmt => simp [over_parseStmt]
  | declsLoop | parseAssignRest => simp [declsLoop, parseAssignRest, assignOps]
  | parseIfBody | parseIfStmt | parseWhileStmt | parseDoWhileStmt | parseTryCatch =>
    simp [parseIfBody, parseIfStmt, parseWhileStmt, parseDoWhileStmt, parseTryCatch]
  | parseForStmt => simp [parseForStmt]
  | parseSwitchStmt | switchLoop | caseLoop => simp [parseSwitchStmt, switchLoop, caseLoop]
  | parseMatchStmt | matchLoop => simp [parseMatchStmt, matchLoop]
  | parseImport | symsLoop | parseDottedPath | pathLoop =>
    simp [parseImport, symsLoop, parseDottedPath, pathLoop, importAlias]
  | parseFuncDecl | tparamsLoop => simp [parseFuncDecl, tparamsLoop, typeParams]
  | parseDtorDecl | parseInterfaceDecl | parseNamespaceDecl | parseEnumDecl =>
    simp [parseDtorDecl, parseInterfaceDecl, parseNamespaceDecl, parseEnumDecl]
  | parseClassDecl => simp [parseClassDecl, typeParams, baseList]
  | parseExternDecl => simp [parseExternDecl, abi]
  | basesLoop | membersLoop | topLoop | enumLoop | payloadLoop =>
    simp [basesLoop, membersLoop, topLoop, enumLoop, payloadLoop]
  | parseClassMember => simp [over_parseClassMember]
  | parseMemberAfterType => simp [parseMemberAfterType]
  | parseTopDeclAt => simp [parseTopDeclAt, isTypeStart]
  | parseTopDecl | parseProgram | programLoop => simp [parseTopDecl, parseProgram, programLoop]

end Parsing

/-! ## The procedures of the parser -/

variable {s : Parser}

theorem same_left {s' : Parser} (same : SameLexer s s') : s'.left = s.left := by
  rw [Parser.left, Parser.left, same]

theorem same_ready {s' : Parser} (same : SameLexer s s') (ready : s.Ready) : s'.Ready := by
  have ⟨inRange, pek, cur⟩ := ready
  rw [← same] at inRange pek cur
  exact ⟨inRange, pek, cur⟩

theorem curTt_of_left {s : Parser} (nothing : s.left = 0) : s.lx.curTt = .eof := by
  by_contra more
  have one : s.lx.curTt.count = 1 := if_neg more
  rw [Parser.left] at nothing
  omega

theorem parse_pre {c : Call} (isParse : IsParse c) (ready : s.Ready) : Pre c s := by
  cases c with
  | scan c => exact isParse.elim
  | advance | parse c => exact ready

theorem parse_post {c : Call} {s' : Parser} (isParse : IsParse c) (known : Post c s s') :
    s'.Ready ∧ s'.left ≤ s.left ∧ (c.Spends → 0 < s.left → s'.left < s.left) := by
  cases c with
  | scan c => exact isParse.elim
  | advance =>
    refine ⟨known.1, known.2.trans (Nat.sub_le _ _), fun _ more => ?_⟩
    have := known.2
    omega
  | parse c =>
    refine ⟨known.1, known.2.trans (Nat.sub_le _ _), fun spends more => ?_⟩
    have spends : c.mayStay = false := spends
    have := known.2
    rw [spends] at this
    change _ ≤ s.left - 1 at this
    omega

theorem within_meets {n r : Nat} {E : Parser → Prop} {rank : Call → Nat} {spends : Call → Prop}
    {α : Type} {Q : α → Prop} {p : Parsing α} (within : p.1.Within E rank r spends Q)
    (sees : ∀ s : Parser, s.left = n → E s)
    (ranks : ∀ (c : Call) (s : Parser), s.left = n → c.rank s = rank c)
    (some : ∀ c, spends c → c.Spends ∧ 0 < n) (ready : s.Ready) (full : s.left = n) :
    p.1.Meets Pre (fun c s' => s'.left < n ∨ s'.left = n ∧ c.rank s' < r) Post
      (fun a s' => s'.Ready ∧ s'.left < n ∨ (s'.Ready ∧ s'.left = n) ∧ Q a) s := by
  apply within.meets (fun s' => s'.Ready ∧ s'.left = n) (fun s' => s'.Ready ∧ s'.left < n) p.2
  · exact fun s' full => sees s' full.2
  · intro s s' same
    rw [same_left same]
    exact ⟨fun h => ⟨same_ready same h.1, h.2⟩, fun h => ⟨same_ready same h.1, h.2⟩⟩
  · rintro c s' isParse lower ⟨ready, full⟩
    refine ⟨parse_pre isParse ready, .inr ⟨full, ranks c s' full ▸ lower⟩, ?_⟩
    intro s'' known
    have ⟨ready', fewer, consumes⟩ := parse_post isParse known
    by_cases less : s''.left < n
    · exact .inl ⟨ready', less⟩
    · refine .inr ⟨⟨ready', by omega⟩, fun h => less ?_⟩
      have ⟨spends, more⟩ := some c h
      exact full ▸ consumes spends (full ▸ more)
  · rintro c s' isParse ⟨ready, less⟩
    refine ⟨parse_pre isParse ready, .inl less, fun s'' known => ?_⟩
    have ⟨ready', fewer, _⟩ := parse_post isParse known
    exact ⟨ready', fewer.trans_lt less⟩
  · exact ⟨ready, full⟩

theorem parse_meets (ready : s.Ready) (c : ParseCall) :
    c.body.1.Meets Pre (fun c' s' => Less (c'.measure s') (Call.measure (.parse c) s)) Post
      (fun _ s' => Post (.parse c) s s') s := by
  by_cases nothing : s.left = 0
  case pos =>
    have ranks (c : Call) (s' : Parser) (ended : s'.left = s.left) : c.rank s' = c.endRank := by
      cases c <;> simp [Call.rank, Call.endRank, ended, nothing]
    have meets := within_meets (n := s.left) (Parsing.body_over c)
      (fun _ ended => curTt_of_left (ended.trans nothing)) ranks (fun _ => False.elim) ready rfl
    have rank : (Call.parse c).rank s = c.rankAtEnd := ranks (.parse c) s rfl
    simp only [less_iff, rank]
    refine meets.mono fun _ s' known => ?_
    rcases known with ⟨_, less⟩ | ⟨⟨ready', ended⟩, -⟩
    · exact absurd less (by omega)
    · exact ⟨ready', by rw [ended, nothing]; exact Nat.zero_le _⟩
  case neg =>
    have ranks (c : Call) (s' : Parser) (full : s'.left = s.left) : c.rank s' = c.fullRank := by
      cases c <;> simp [Call.rank, Call.fullRank, full, nothing]
    have meets := within_meets (n := s.left) (Parsing.body_first c) (fun _ _ => trivial) ranks
      (fun _ spends => ⟨spends, Nat.pos_of_ne_zero nothing⟩) ready rfl
    have rank : (Call.parse c).rank s = c.rank := ranks (.parse c) s rfl
    simp only [less_iff, rank]
    refine meets.mono fun _ s' known => ?_
    rcases known with ⟨ready', less⟩ | ⟨⟨ready', full⟩, stays⟩
    · refine ⟨ready', ?_⟩
      split <;> omega
    · exact ⟨ready', by rw [full, if_pos stays, Nat.sub_zero]⟩

end Dux.Bootstrap
