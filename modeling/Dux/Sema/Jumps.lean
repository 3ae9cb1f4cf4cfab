import Dux.Sema.Helpers

/-!
# Jumps and what stands around them

Every `break` and `continue` of a program with the constructs it stands in, and
what semantic analysis (`src/sema/sema.cpp`) has checked about it: the flag
`in_loop_`, which loops and `switch` set and nothing resets.
-/

namespace Dux

open Logic (Moves)

/-- A construct around a statement that matters for jumps; a loop without a
label carries the empty one. -/
inductive Around
  | loop (label : String)
  | switch
  | lambda
  | defer
  deriving DecidableEq, Repr

/-- Whether a construct is one that `break` can leave. -/
def Around.isTarget : Around → Bool
  | .loop _ => true
  | .switch => true
  | .lambda => false
  | .defer => false

def Around.isLoop : Around → Bool
  | .loop _ => true
  | _ => false

/-- A `break`, or a `continue`, and the constructs around it, innermost first. -/
structure Jump where
  toHeader : Bool
  label : Option String
  path : List Around

mutual

/-- The jumps in an expression that stands in `path`.  Only lambdas have
statements. -/
def jumpsExpr (path : List Around) : Expr → List Jump
  | .intLit .. | .longLit .. | .floatLit .. | .realLit .. | .stringLit .. | .boolLit ..
  | .nullLit _ | .ident .. | .this _ | .super _ => []
  | .binary _ _ left right => jumpsExpr path left ++ jumpsExpr path right
  | .unary _ _ operand _ => jumpsExpr path operand
  | .assign _ _ target value => jumpsExpr path value ++ jumpsExpr path target
  | .call _ callee args => jumpsExpr path callee ++ jumpsExprs path args
  | .member _ object _ => jumpsExpr path object
  | .index _ object index => jumpsExpr path object ++ jumpsExpr path index
  | .new _ _ args => jumpsExprs path args
  | .list _ elements => jumpsExprs path elements
  | .dict _ pairs => jumpsPairs path pairs
  | .lambda _ _ body _ _ => jumpsStmts (.lambda :: path) body
  | .await _ operand => jumpsExpr path operand

def jumpsExprs (path : List Around) : List Expr → List Jump
  | [] => []
  | e :: es => jumpsExpr path e ++ jumpsExprs path es

def jumpsPair (path : List Around) : DictPair → List Jump
  | .mk key value => jumpsExpr path key ++ jumpsExpr path value

def jumpsPairs (path : List Around) : List DictPair → List Jump
  | [] => []
  | p :: ps => jumpsPair path p ++ jumpsPairs path ps

def jumpsOpt (path : List Around) : Option Expr → List Jump
  | none => []
  | some e => jumpsExpr path e

/-- The jumps in a statement that stands in `path`.  The values of cases count
as standing in the `switch`. -/
def jumpsStmt (path : List Around) : Stmt → List Jump
  | .block body => jumpsStmts path body
  | .expr e => jumpsExpr path e
  | .varDecl _ _ _ _ decls => jumpsItems path decls
  | .ifStmt cond thenBr elseBr =>
      jumpsExpr path cond ++ (jumpsStmts path thenBr ++ jumpsElse path elseBr)
  | .whileStmt label cond body =>
      jumpsExpr path cond ++ jumpsStmts (.loop (label.getD "") :: path) body
  | .doWhile body cond => jumpsStmts (.loop "" :: path) body ++ jumpsExpr path cond
  | .forIn _ _ iterable body => jumpsExpr path iterable ++ jumpsStmts (.loop "" :: path) body
  | .forC _ _ init cond incr body =>
      jumpsExpr path init ++ (jumpsExpr path cond ++ (jumpsExpr path incr ++
        jumpsStmts (.loop "" :: path) body))
  | .switchStmt e cases => jumpsExpr path e ++ jumpsCases (.switch :: path) cases
  | .matchStmt e arms => jumpsExpr path e ++ jumpsArms path arms
  | .tryCatch tryBody _ _ _ catchBody => jumpsStmts path tryBody ++ jumpsStmts path catchBody
  | .returnStmt value => jumpsOpt path value
  | .breakStmt label => [⟨false, label, path⟩]
  | .continueStmt label => [⟨true, label, path⟩]
  | .assertStmt cond => jumpsExpr path cond
  | .deleteStmt e => jumpsExpr path e
  | .defer _ body => jumpsStmts (.defer :: path) body
  | .throwStmt e => jumpsExpr path e
  | .unsafeStmt body => jumpsStmts path body

def jumpsStmts (path : List Around) : List Stmt → List Jump
  | [] => []
  | s :: ss => jumpsStmt path s ++ jumpsStmts path ss

def jumpsElse (path : List Around) : ElseBr → List Jump
  | .none => []
  | .block body => jumpsStmts path body
  | .elif cond thenBr elseBr =>
      jumpsExpr path cond ++ (jumpsStmts path thenBr ++ jumpsElse path elseBr)

def jumpsItem (path : List Around) : VarItem → List Jump
  | .mk _ init => jumpsOpt path init

def jumpsItems (path : List Around) : List VarItem → List Jump
  | [] => []
  | d :: ds => jumpsItem path d ++ jumpsItems path ds

def jumpsCase (path : List Around) : SwitchCase → List Jump
  | .mk value body => jumpsOpt path value ++ jumpsStmts path body

def jumpsCases (path : List Around) : List SwitchCase → List Jump
  | [] => []
  | c :: cs => jumpsCase path c ++ jumpsCases path cs

def jumpsArm (path : List Around) : MatchArm → List Jump
  | .mk _ body => jumpsStmts path body

def jumpsArms (path : List Around) : List MatchArm → List Jump
  | [] => []
  | a :: as => jumpsArm path a ++ jumpsArms path as

end

/-! ## What a jump's path ends with -/

section Suffix

/-- Every one of these jumps has this below it. -/
def AllIn (path : List Around) (jumps : List Jump) : Prop := ∀ j ∈ jumps, path <:+ j.path

variable {path path' : List Around} {left right : List Jump}

theorem AllIn.append (ofLeft : AllIn path left) (ofRight : AllIn path right) :
    AllIn path (left ++ right) := List.forall_mem_append.2 ⟨ofLeft, ofRight⟩

theorem allIn_nil : AllIn path [] := fun _ member => by cases member

theorem AllIn.of_cons {a : Around} (all : AllIn (a :: path) left) : AllIn path left :=
  fun j member => (List.suffix_cons a path).trans (all j member)

mutual

theorem allIn_jumpsExpr (path : List Around) :
    ∀ e : Expr, AllIn (.lambda :: path) (jumpsExpr path e)
  | .intLit .. | .longLit .. | .floatLit .. | .realLit .. | .stringLit .. | .boolLit ..
  | .nullLit _ | .ident .. | .this _ | .super _ => allIn_nil
  | .binary _ _ left right => (allIn_jumpsExpr path left).append (allIn_jumpsExpr path right)
  | .unary _ _ operand _ => allIn_jumpsExpr path operand
  | .assign _ _ target value => (allIn_jumpsExpr path value).append (allIn_jumpsExpr path target)
  | .call _ callee args => (allIn_jumpsExpr path callee).append (allIn_jumpsExprs path args)
  | .member _ object _ => allIn_jumpsExpr path object
  | .index _ object index => (allIn_jumpsExpr path object).append (allIn_jumpsExpr path index)
  | .new _ _ args => allIn_jumpsExprs path args
  | .list _ elements => allIn_jumpsExprs path elements
  | .dict _ pairs => allIn_jumpsPairs path pairs
  | .lambda _ _ body _ _ => allIn_jumpsStmts (.lambda :: path) body
  | .await _ operand => allIn_jumpsExpr path operand

theorem allIn_jumpsExprs (path : List Around) :
    ∀ es : List Expr, AllIn (.lambda :: path) (jumpsExprs path es)
  | [] => allIn_nil
  | e :: es => (allIn_jumpsExpr path e).append (allIn_jumpsExprs path es)

theorem allIn_jumpsPair (path : List Around) :
    ∀ p : DictPair, AllIn (.lambda :: path) (jumpsPair path p)
  | .mk key value => (allIn_jumpsExpr path key).append (allIn_jumpsExpr path value)

theorem allIn_jumpsPairs (path : List Around) :
    ∀ ps : List DictPair, AllIn (.lambda :: path) (jumpsPairs path ps)
  | [] => allIn_nil
  | p :: ps => (allIn_jumpsPair path p).append (allIn_jumpsPairs path ps)

theorem allIn_jumpsOpt (path : List Around) :
    ∀ e : Option Expr, AllIn (.lambda :: path) (jumpsOpt path e)
  | none => allIn_nil
  | some e => allIn_jumpsExpr path e

theorem allIn_jumpsStmt (path : List Around) : ∀ s : Stmt, AllIn path (jumpsStmt path s)
  | .block body => allIn_jumpsStmts path body
  | .expr e => (allIn_jumpsExpr path e).of_cons
  | .varDecl _ _ _ _ decls => allIn_jumpsItems path decls
  | .ifStmt cond thenBr elseBr =>
      (allIn_jumpsExpr path cond).of_cons.append
        ((allIn_jumpsStmts path thenBr).append (allIn_jumpsElse path elseBr))
  | .whileStmt _ cond body =>
      (allIn_jumpsExpr path cond).of_cons.append (allIn_jumpsStmts _ body).of_cons
  | .doWhile body cond =>
      (allIn_jumpsStmts _ body).of_cons.append (allIn_jumpsExpr path cond).of_cons
  | .forIn _ _ iterable body =>
      (allIn_jumpsExpr path iterable).of_cons.append (allIn_jumpsStmts _ body).of_cons
  | .forC _ _ init cond incr body =>
      (allIn_jumpsExpr path init).of_cons.append ((allIn_jumpsExpr path cond).of_cons.append
        ((allIn_jumpsExpr path incr).of_cons.append (allIn_jumpsStmts _ body).of_cons))
  | .switchStmt e cases =>
      (allIn_jumpsExpr path e).of_cons.append (allIn_jumpsCases _ cases).of_cons
  | .matchStmt e arms => (allIn_jumpsExpr path e).of_cons.append (allIn_jumpsArms path arms)
  | .tryCatch tryBody _ _ _ catchBody =>
      (allIn_jumpsStmts path tryBody).append (allIn_jumpsStmts path catchBody)
  | .returnStmt value => (allIn_jumpsOpt path value).of_cons
  | .breakStmt _ | .continueStmt _ => fun j member => by
      cases List.mem_singleton.1 member
      exact List.suffix_rfl
  | .assertStmt cond => (allIn_jumpsExpr path cond).of_cons
  | .deleteStmt e => (allIn_jumpsExpr path e).of_cons
  | .defer _ body => (allIn_jumpsStmts (.defer :: path) body).of_cons
  | .throwStmt e => (allIn_jumpsExpr path e).of_cons
  | .unsafeStmt body => allIn_jumpsStmts path body

theorem allIn_jumpsStmts (path : List Around) :
    ∀ ss : List Stmt, AllIn path (jumpsStmts path ss)
  | [] => allIn_nil
  | s :: ss => (allIn_jumpsStmt path s).append (allIn_jumpsStmts path ss)

theorem allIn_jumpsElse (path : List Around) : ∀ br : ElseBr, AllIn path (jumpsElse path br)
  | .none => allIn_nil
  | .block body => allIn_jumpsStmts path body
  | .elif cond thenBr elseBr =>
      (allIn_jumpsExpr path cond).of_cons.append
        ((allIn_jumpsStmts path thenBr).append (allIn_jumpsElse path elseBr))

theorem allIn_jumpsItem (path : List Around) : ∀ d : VarItem, AllIn path (jumpsItem path d)
  | .mk _ init => (allIn_jumpsOpt path init).of_cons

theorem allIn_jumpsItems (path : List Around) :
    ∀ ds : List VarItem, AllIn path (jumpsItems path ds)
  | [] => allIn_nil
  | d :: ds => (allIn_jumpsItem path d).append (allIn_jumpsItems path ds)

theorem allIn_jumpsCase (path : List Around) : ∀ c : SwitchCase, AllIn path (jumpsCase path c)
  | .mk value body => (allIn_jumpsOpt path value).of_cons.append (allIn_jumpsStmts path body)

theorem allIn_jumpsCases (path : List Around) :
    ∀ cs : List SwitchCase, AllIn path (jumpsCases path cs)
  | [] => allIn_nil
  | c :: cs => (allIn_jumpsCase path c).append (allIn_jumpsCases path cs)

theorem allIn_jumpsArm (path : List Around) : ∀ a : MatchArm, AllIn path (jumpsArm path a)
  | .mk _ body => allIn_jumpsStmts path body

theorem allIn_jumpsArms (path : List Around) :
    ∀ as : List MatchArm, AllIn path (jumpsArms path as)
  | [] => allIn_nil
  | a :: as => (allIn_jumpsArm path a).append (allIn_jumpsArms path as)

end

end Suffix

/-! ## The jumps of a program -/

def FunctionDecl.bodyJumps (f : FunctionDecl) : List Jump :=
  match f.body with
  | some body => jumpsStmts [] body
  | none => []

/-- The jumps in the arguments of an initialiser list. -/
def FunctionDecl.initJumps (f : FunctionDecl) : List Jump :=
  f.initList.flatMap fun ie => jumpsExprs [] ie.args

/-- The jumps in the bodies of methods and in the initialisers of fields. -/
def memberJumps : List ClassMember → List Jump
  | [] => []
  | .func f :: ms => f.bodyJumps ++ memberJumps ms
  | .field f :: ms => jumpsOpt [] f.init ++ memberJumps ms

/-- The jumps in the initialiser lists of constructors. -/
def memberInitJumps : List ClassMember → List Jump
  | [] => []
  | .func f :: ms => f.initJumps ++ memberInitJumps ms
  | .field _ :: ms => memberInitJumps ms

mutual

/-- The jumps that analysis comes to in a declaration. -/
def jumpsDecl : Decl → List Jump
  | .func f => f.bodyJumps
  | .cls c => memberJumps c.members
  | .namespaceDecl _ decls stmts => jumpsDecls decls ++ jumpsStmts [] stmts
  | .iface _ => []
  | .enum _ => []
  | .importDecl _ => []
  | .packageDecl _ => []
  | .externDecl _ => []

def jumpsDecls : List Decl → List Jump
  | [] => []
  | d :: ds => jumpsDecl d ++ jumpsDecls ds

end

mutual

/-- The jumps in the initialiser lists of a declaration, which analysis does not
look into. -/
def initJumpsDecl : Decl → List Jump
  | .func f => f.initJumps
  | .cls c => memberInitJumps c.members
  | .namespaceDecl _ decls _ => initJumpsDecls decls
  | .iface _ => []
  | .enum _ => []
  | .importDecl _ => []
  | .packageDecl _ => []
  | .externDecl _ => []

def initJumpsDecls : List Decl → List Jump
  | [] => []
  | d :: ds => initJumpsDecl d ++ initJumpsDecls ds

end

def Program.checkedJumps (prog : Program) : List Jump :=
  jumpsDecls prog.decls ++ jumpsStmts [] prog.stmts

def Program.jumps (prog : Program) : List Jump :=
  prog.checkedJumps ++ initJumpsDecls prog.decls

theorem allIn_initJumps (f : FunctionDecl) : AllIn [.lambda] f.initJumps := by
  intro j member
  obtain ⟨ie, _, member⟩ := List.mem_flatMap.1 member
  exact allIn_jumpsExprs [] ie.args j member

theorem allIn_memberInitJumps : ∀ ms : List ClassMember, AllIn [.lambda] (memberInitJumps ms)
  | [] => allIn_nil
  | .func f :: ms => (allIn_initJumps f).append (allIn_memberInitJumps ms)
  | .field _ :: ms => allIn_memberInitJumps ms

mutual

theorem allIn_initJumpsDecl : ∀ d : Decl, AllIn [.lambda] (initJumpsDecl d)
  | .func f => allIn_initJumps f
  | .cls c => allIn_memberInitJumps c.members
  | .namespaceDecl _ decls _ => allIn_initJumpsDecls decls
  | .iface _ | .enum _ | .importDecl _ | .packageDecl _ | .externDecl _ => allIn_nil

theorem allIn_initJumpsDecls : ∀ ds : List Decl, AllIn [.lambda] (initJumpsDecls ds)
  | [] => allIn_nil
  | d :: ds => (allIn_initJumpsDecl d).append (allIn_initJumpsDecls ds)

end

/-- Whether a loop or a `switch` stands around, in whatever function. -/
def inside (path : List Around) : Bool := path.any (·.isTarget)

namespace Sema

/-- From a state whose flag is that of `path`, a computation comes back to the
flag and gives no message only if these jumps have a loop or `switch` around
them. -/
def Lets (path : List Around) (jumps : List Jump) (s s' : State) : Prop :=
  s.inLoop = inside path → s'.inLoop = s.inLoop ∧
    (s'.errors = [] → s.errors = [] ∧ ∀ j ∈ jumps, inside j.path = true)

section Rules

variable {α β : Type} {path : List Around} {left right jumps : List Jump}

theorem Lets.trans (s₁ s₂ s₃ : State) (first : Lets path left s₁ s₂)
    (second : Lets path right s₂ s₃) : Lets path (left ++ right) s₁ s₃ := by
  intro flag
  obtain ⟨flag', quiet⟩ := first flag
  obtain ⟨flag'', quiet'⟩ := second (flag'.trans flag)
  refine ⟨flag''.trans flag', fun silent => ?_⟩
  obtain ⟨silent', ofRight⟩ := quiet' silent
  obtain ⟨silent'', ofLeft⟩ := quiet silent'
  refine ⟨silent'', fun j member => ?_⟩
  rcases List.mem_append.1 member with inLeft | inRight
  · exact ofLeft j inLeft
  · exact ofRight j inRight

theorem lets_of_eq {s s' : State} (flag : s'.inLoop = s.inLoop)
    (silent : s'.errors = [] → s.errors = []) : Lets path [] s s' := fun _ =>
  ⟨flag, fun silent' => ⟨silent silent', fun _ member => by cases member⟩⟩

instance : Free (Lets path []) where
  refl _ := lets_of_eq rfl id
  trans _ _ _ := Lets.trans _ _ _
  err _ _ := lets_of_eq rfl fun silent => by simp at silent
  warn _ _ := lets_of_eq rfl id
  scopes _ _ := lets_of_eq rfl id
  types _ _ := lets_of_eq rfl id

variable {m : M α} {f : α → M β}

theorem lets_seq (first : Moves (Lets path left) m) (second : ∀ a, Moves (Lets path right) (f a)) :
    Moves (Lets path (left ++ right)) (m >>= f) := .comp Lets.trans first second

theorem lets_after (first : Moves (Lets path []) m) (second : ∀ a, Moves (Lets path right) (f a)) :
    Moves (Lets path right) (m >>= f) := lets_seq first second

theorem lets_before (first : Moves (Lets path left) m) (second : ∀ a, Moves (Lets path []) (f a)) :
    Moves (Lets path left) (m >>= f) := by
  have both := lets_seq first second
  rwa [List.append_nil] at both

theorem lets_return {g : α → β} (first : Moves (Lets path left) m) :
    Moves (Lets path left) (m >>= fun a => pure (g a)) := lets_before first fun _ => .pure _

theorem lets_modify {g : State → State} (flag : ∀ s, (g s).inLoop = s.inLoop)
    (errors : ∀ s, (g s).errors = s.errors) : Moves (Lets path []) (modify g : M PUnit) :=
  .modify fun s => lets_of_eq (flag s) fun silent => by rwa [errors] at silent

theorem lets_inScope {check : M α} (lets : Moves (Lets path jumps) check) :
    Moves (Lets path jumps) (inScope check) :=
  lets_after tame_push fun _ => lets_before lets fun _ =>
    .bind tame_pop fun _ => .pure _

theorem lets_bracket {check : M α} {enter : State → State} {leave : State → State → State}
    (lets : Moves (Lets path jumps) check)
    (entering : ∀ s, (enter s).inLoop = s.inLoop ∧ (enter s).errors = s.errors)
    (leaving : ∀ saved s, (leave saved s).inLoop = s.inLoop ∧ (leave saved s).errors = s.errors) :
    Moves (Lets path jumps) (bracket enter leave check) :=
  lets_after .get fun _ =>
    lets_after (lets_modify (fun s => (entering s).1) fun s => (entering s).2) fun _ =>
      lets_before lets fun _ =>
        .bind (lets_modify (fun s => (leaving _ s).1) fun s => (leaving _ s).2) fun _ =>
          .pure _

theorem lets_insideUnsafe {check : M α} (lets : Moves (Lets path jumps) check) :
    Moves (Lets path jumps) (insideUnsafe check) :=
  lets_bracket lets (fun _ => ⟨rfl, rfl⟩) fun _ _ => ⟨rfl, rfl⟩

theorem lets_insideAwait {check : M α} (lets : Moves (Lets path jumps) check) :
    Moves (Lets path jumps) (insideAwait check) :=
  lets_bracket lets (fun _ => ⟨rfl, rfl⟩) fun _ _ => ⟨rfl, rfl⟩

theorem lets_returning (ret : TypeId) {check : M α} (lets : Moves (Lets path jumps) check) :
    Moves (Lets path jumps) (returning ret check) :=
  lets_bracket lets (fun _ => ⟨rfl, rfl⟩) fun _ _ => ⟨rfl, rfl⟩

theorem lets_insideClass (name : String) (type : TypeId) {check : M α}
    (lets : Moves (Lets path jumps) check) :
    Moves (Lets path jumps) (insideClass name type check) :=
  lets_bracket lets (fun _ => ⟨rfl, rfl⟩) fun _ _ => ⟨rfl, rfl⟩

theorem lets_insideLoop {check : M α} {a : Around} (target : a.isTarget = true)
    (lets : Moves (Lets (a :: path) jumps) check) : Moves (Lets path jumps) (insideLoop check) := by
  intro s r s' run flag
  obtain ⟨saved, s₁, got, run⟩ := Logic.run_bind_eq_some_iff.1 run
  obtain ⟨rfl, rfl⟩ := Logic.run_get_eq_some_iff.1 got
  obtain ⟨_, s₂, entered, run⟩ := Logic.run_bind_eq_some_iff.1 run
  rw [Logic.run_modify_eq_some_iff] at entered
  obtain ⟨_, s₃, checked, run⟩ := Logic.run_bind_eq_some_iff.1 run
  obtain ⟨_, s₄, left, run⟩ := Logic.run_bind_eq_some_iff.1 run
  rw [Logic.run_modify_eq_some_iff] at left
  obtain ⟨rfl, rfl⟩ := Logic.run_pure_eq_some_iff.1 run
  subst entered left
  exact ⟨rfl, (lets _ _ _ checked (by simp [inside, target])).2⟩

theorem lets_through {check : M α} {a : Around} (noTarget : a.isTarget = false)
    (lets : Moves (Lets (a :: path) jumps) check) : Moves (Lets path jumps) check := by
  intro s r s' run flag
  exact lets s r s' run (by rw [flag]; simp [inside, noTarget])

theorem lets_again (lets : Moves (Lets path jumps) m) : Moves (Lets path []) m :=
  lets.mono fun _ _ step flag => by
    obtain ⟨flag', quiet⟩ := step flag
    exact ⟨flag', fun silent => ⟨(quiet silent).1, fun _ member => by cases member⟩⟩

theorem lets_none (none : jumps = []) (tame : Moves (Lets path []) m) :
    Moves (Lets path jumps) m := by
  rwa [none]

theorem lets_refused (msg : String) (a : α) :
    Moves (Lets path jumps) (do
      err msg
      return a : M α) := by
  intro s r s' run flag
  obtain ⟨_, s₁, gave, run⟩ := Logic.run_bind_eq_some_iff.1 run
  rw [err, Logic.run_modify_eq_some_iff] at gave
  obtain ⟨_, rfl⟩ := Logic.run_pure_eq_some_iff.1 run
  subst gave
  exact ⟨rfl, fun silent => by simp at silent⟩

theorem lets_jump (toHeader : Bool) (label : Option String) (msg : String) (a : α) :
    Moves (Lets path [⟨toHeader, label, path⟩])
      (do
        if !(← get).inLoop then err msg
        return a : M α) := by
  intro s r s' run flag
  obtain ⟨_, _, got, run⟩ := Logic.run_bind_eq_some_iff.1 run
  obtain ⟨rfl, rfl⟩ := Logic.run_get_eq_some_iff.1 got
  by_cases isIn : s.inLoop = true
  · simp only [isIn] at run
    obtain ⟨_, rfl⟩ := Logic.run_pure_eq_some_iff.1 run
    refine ⟨rfl, fun silent => ⟨silent, fun j member => ?_⟩⟩
    rw [List.mem_singleton.1 member, ← flag, isIn]
  · simp only [Bool.eq_false_iff.2 isIn] at run
    obtain ⟨_, s₁, gave, run⟩ := Logic.run_bind_eq_some_iff.1 run
    rw [err, Logic.run_modify_eq_some_iff] at gave
    obtain ⟨_, rfl⟩ := Logic.run_pure_eq_some_iff.1 run
    subst gave
    exact ⟨rfl, fun silent => by simp at silent⟩

end Rules

/-! ## The recursion over syntax -/

section Syntax

variable {path : List Around}

theorem jumpsExpr_of_identName {e : Expr} {name : String} (isIdent : identName e = some name) :
    jumpsExpr path e = [] := by
  cases e with
  | ident t n => rfl
  | _ => cases isIdent

theorem jumpsExpr_of_stdlibCall {e : Expr} {t : TypeId} (isCall : stdlibCall e = some t) :
    jumpsExpr path e = [] := by
  unfold stdlibCall at isCall
  split at isCall
  · rfl
  · cases isCall

mutual

theorem lets_checkExpr (path : List Around) :
    ∀ e : Expr, Moves (Lets path (jumpsExpr path e)) (checkExpr e)
  | .intLit .. | .longLit .. | .floatLit .. | .realLit .. | .stringLit .. | .boolLit ..
  | .nullLit _ => lets_none rfl (.pure _)
  | .ident _ _ => lets_none rfl (lets_return (checks_checkIdent _).moves)
  | .this _ => lets_none rfl (lets_return checks_checkThis.moves)
  | .super _ => lets_none rfl (lets_return checks_checkSuper.moves)
  | .binary _ _ left right =>
      lets_seq (lets_checkExpr path left) fun _ => lets_before (lets_checkExpr path right) fun _ =>
        lets_return (checks_checkBinary _ _ _).moves
  | .unary _ _ operand _ =>
      lets_before (lets_checkExpr path operand) fun _ => lets_return (checks_checkUnary _ _).moves
  | .assign _ op target value => by
      refine lets_seq (lets_checkExpr path value) fun value => ?_
      have rest : Moves (Lets path (jumpsExpr path target)) (do
          let target ← checkExpr target
          return Expr.assign (← checkAssign op target.tid value.tid) op target value) :=
        lets_before (lets_checkExpr path target) fun _ =>
          lets_return (checks_checkAssign _ _ _).moves
      cases isIdent : identName target with
      | none =>
          rw [checkAssignIdent, isIdent]
          exact rest
      | some name =>
          refine lets_after (checks_checkAssignIdent _ _ _).moves fun found => ?_
          cases found with
          | some result =>
              rw [jumpsExpr_of_identName isIdent]
              exact .pure _
          | none => exact rest
  | .call _ callee args => by
      unfold checkExpr jumpsExpr
      cases isIdent : identName callee with
      | some name =>
          rw [jumpsExpr_of_identName isIdent]
          refine lets_after (checks_lookup _).moves fun found => ?_
          cases found with
          | none =>
              exact lets_after (Checks.err _).moves fun _ => lets_return (lets_checkExprs path args)
          | some sym =>
              refine .ite (fun _ => ?_) fun _ => ?_
              · exact lets_after (checks_checkCallable _ _).moves fun _ =>
                  lets_return (lets_checkArgs path sym 0 args)
              · refine lets_before (lets_checkExprs path args) fun _ => ?_
                refine .ite (fun _ => .pure _) fun _ => ?_
                refine .bind (checks_closureType _).moves fun closure => ?_
                cases closure with
                | none => exact .pure _
                | some t =>
                    exact .bind (lets_again (lets_checkExprs path args)) fun _ =>
                      .bind .get fun _ => .pure _
      | none =>
          cases isCall : stdlibCall callee with
          | some t =>
              rw [jumpsExpr_of_stdlibCall isCall]
              exact lets_return (lets_checkExprs path args)
          | none =>
              exact lets_seq (lets_checkExpr path callee) fun _ =>
                lets_return (lets_checkExprs path args)
  | .member _ object member => by
      have rest : Moves (Lets path (jumpsExpr path object)) (do
          let object ← checkExpr object
          return Expr.member (← checkMember object member) object member) :=
        lets_before (lets_checkExpr path object) fun _ => lets_return (checks_checkMember _ _).moves
      unfold checkExpr jumpsExpr
      cases isIdent : identName object with
      | none =>
          rw [checkEnumMember, isIdent]
          exact rest
      | some name =>
          refine lets_after (checks_checkEnumMember _ _).moves fun found => ?_
          cases found with
          | some t =>
              rw [jumpsExpr_of_identName isIdent]
              exact .pure _
          | none => exact rest
  | .index _ object index =>
      lets_seq (lets_checkExpr path object) fun _ => lets_before (lets_checkExpr path index)
        fun _ => lets_return (checks_checkIndex _ _).moves
  | .new _ _ args =>
      lets_after (checks_checkNew _).moves fun _ => lets_return (lets_checkExprs path args)
  | .list _ elements => lets_return (lets_checkExprs path elements)
  | .dict _ pairs => lets_return (lets_checkPairs path pairs)
  | .lambda _ _ body _ _ =>
      lets_before
        (lets_inScope (lets_after (checks_defineParams (.inl rfl) _).moves fun _ =>
          lets_returning _ (lets_through rfl (lets_checkStmts (.lambda :: path) body))))
        fun _ => lets_return (checks_checkLambda _ _ _).moves
  | .await _ operand => lets_return (lets_insideAwait (lets_checkExpr path operand))

theorem lets_checkExprs (path : List Around) :
    ∀ es : List Expr, Moves (Lets path (jumpsExprs path es)) (checkExprs es)
  | [] => lets_none rfl (.pure _)
  | e :: es => lets_seq (lets_checkExpr path e) fun _ => lets_return (lets_checkExprs path es)

theorem lets_checkArgs (path : List Around) (sym : Symbol) : ∀ (i : Nat) (es : List Expr),
    Moves (Lets path (jumpsExprs path es)) (checkArgs sym i es)
  | _, [] => lets_none rfl (.pure _)
  | i, e :: es =>
      lets_seq (lets_checkExpr path e) fun _ => lets_after (checks_checkArg _ _ _).moves fun _ =>
        lets_return (lets_checkArgs path sym (i + 1) es)

theorem lets_checkPair (path : List Around) :
    ∀ p : DictPair, Moves (Lets path (jumpsPair path p)) (checkPair p)
  | .mk key value =>
      lets_seq (lets_checkExpr path key) fun _ => lets_return (lets_checkExpr path value)

theorem lets_checkPairs (path : List Around) :
    ∀ ps : List DictPair, Moves (Lets path (jumpsPairs path ps)) (checkPairs ps)
  | [] => lets_none rfl (.pure _)
  | p :: ps => lets_seq (lets_checkPair path p) fun _ => lets_return (lets_checkPairs path ps)

theorem lets_checkOpt (path : List Around) :
    ∀ e : Option Expr, Moves (Lets path (jumpsOpt path e)) (checkOpt e)
  | none => lets_none rfl (.pure _)
  | some e => lets_return (lets_checkExpr path e)

theorem lets_checkStmt (path : List Around) :
    ∀ s : Stmt, Moves (Lets path (jumpsStmt path s)) (checkStmt s)
  | .block body => lets_return (lets_inScope (lets_checkStmts path body))
  | .expr e => lets_return (lets_checkExpr path e)
  | .varDecl _ type _ _ decls => by
      unfold checkStmt
      by_cases isFn : type.name = "__fn"
      · rw [if_pos isFn]
        exact lets_refused _ _
      · rw [if_neg isFn]
        refine lets_after (checks_typeFromTe _).moves fun _ => ?_
        exact lets_after (checks_checkThreadLocal _).moves fun _ =>
          lets_return (lets_checkVarItems path _ _ _ decls)
  | .ifStmt cond thenBr elseBr =>
      lets_seq (lets_checkExpr path cond) fun _ =>
        lets_after (checks_requireBool _ _).moves fun _ =>
        lets_seq (lets_inScope (lets_checkStmts path thenBr)) fun _ =>
          lets_return (lets_checkElse path elseBr)
  | .whileStmt _ cond body =>
      lets_seq (lets_checkExpr path cond) fun _ =>
        lets_after (checks_requireBool _ _).moves fun _ =>
        lets_return (lets_insideLoop rfl (lets_inScope (lets_checkStmts _ body)))
  | .doWhile body cond =>
      lets_seq (lets_insideLoop rfl (lets_inScope (lets_checkStmts _ body))) fun _ =>
        lets_before (lets_checkExpr path cond) fun _ => lets_return (checks_requireBool _ _).moves
  | .forIn _ _ iterable body =>
      lets_seq (lets_checkExpr path iterable) fun _ =>
        lets_after (checks_checkIterable _).moves fun _ =>
        lets_return (lets_inScope (lets_after (checks_defineLoopVar _ _).moves fun _ =>
          lets_insideLoop rfl (lets_inScope (lets_checkStmts _ body))))
  | .forC _ _ init cond incr body =>
      lets_inScope (lets_after (checks_defineLoopVar _ _).moves fun _ =>
        lets_seq (lets_checkExpr path init) fun _ =>
          lets_after (checks_requireAssignable _ _ _).moves fun _ =>
            lets_seq (lets_checkExpr path cond) fun _ =>
              lets_seq (lets_checkExpr path incr) fun _ =>
                lets_return (lets_insideLoop rfl (lets_inScope (lets_checkStmts _ body))))
  | .switchStmt e cases =>
      lets_seq (lets_checkExpr path e) fun _ =>
        lets_return (lets_insideLoop rfl (lets_checkCases _ cases))
  | .matchStmt e arms =>
      lets_seq (lets_checkExpr path e) fun _ => lets_before (lets_checkArms path arms) fun _ =>
        lets_return (checks_checkScrutinee _ _).moves
  | .tryCatch tryBody _ _ _ catchBody =>
      lets_seq (lets_inScope (lets_checkStmts path tryBody)) fun _ =>
        lets_return (lets_inScope (lets_after (checks_defineCatchVar _ _ _).moves fun _ =>
          lets_inScope (lets_checkStmts path catchBody)))
  | .returnStmt value =>
      lets_before (lets_checkOpt path value) fun _ => lets_return (checks_checkReturn _).moves
  | .breakStmt _ => lets_jump _ _ _ _
  | .continueStmt _ => lets_jump _ _ _ _
  | .assertStmt cond =>
      lets_before (lets_checkExpr path cond) fun _ => lets_return (checks_requireBool _ _).moves
  | .deleteStmt e =>
      lets_before (lets_checkExpr path e) fun _ =>
        Checks.moves (checks_whenThen (.warn _) (.pure _))
  | .defer _ body => lets_return (lets_through rfl (lets_checkStmts (.defer :: path) body))
  | .throwStmt e => lets_return (lets_checkExpr path e)
  | .unsafeStmt body => lets_return (lets_insideUnsafe (lets_checkStmts path body))

theorem lets_checkStmts (path : List Around) :
    ∀ ss : List Stmt, Moves (Lets path (jumpsStmts path ss)) (checkStmts ss)
  | [] => lets_none rfl (.pure _)
  | s :: ss => lets_seq (lets_checkStmt path s) fun _ => lets_return (lets_checkStmts path ss)

theorem lets_checkElse (path : List Around) :
    ∀ br : ElseBr, Moves (Lets path (jumpsElse path br)) (checkElse br)
  | .none => lets_none rfl (.pure _)
  | .block body => lets_return (lets_inScope (lets_checkStmts path body))
  | .elif cond thenBr elseBr =>
      lets_seq (lets_checkExpr path cond) fun _ =>
        lets_after (checks_requireBool _ _).moves fun _ =>
        lets_seq (lets_inScope (lets_checkStmts path thenBr)) fun _ =>
          lets_return (lets_checkElse path elseBr)

theorem lets_checkVarItem (path : List Around) (isConst isThreadLocal : Bool) (declType : TypeId) :
    ∀ d : VarItem, Moves (Lets path (jumpsItem path d))
      (checkVarItem isConst isThreadLocal declType d)
  | .mk _ init =>
      lets_after (checks_checkDeclarator _ _ _ _).moves fun _ =>
        lets_before (lets_checkOpt path init) fun _ => lets_return (checks_defineVar _ _ _ _).moves

theorem lets_checkVarItems (path : List Around) (isConst isThreadLocal : Bool)
    (declType : TypeId) : ∀ ds : List VarItem, Moves (Lets path (jumpsItems path ds))
      (checkVarItems isConst isThreadLocal declType ds)
  | [] => lets_none rfl (.pure _)
  | d :: ds =>
      lets_seq (lets_checkVarItem path _ _ _ d) fun _ =>
        lets_return (lets_checkVarItems path _ _ _ ds)

theorem lets_checkCase (path : List Around) :
    ∀ c : SwitchCase, Moves (Lets path (jumpsCase path c)) (checkCase c)
  | .mk value body =>
      lets_seq (lets_checkOpt path value) fun _ =>
        lets_return (lets_inScope (lets_checkStmts path body))

theorem lets_checkCases (path : List Around) :
    ∀ cs : List SwitchCase, Moves (Lets path (jumpsCases path cs)) (checkCases cs)
  | [] => lets_none rfl (.pure _)
  | c :: cs => lets_seq (lets_checkCase path c) fun _ => lets_return (lets_checkCases path cs)

theorem lets_checkArm (path : List Around) :
    ∀ a : MatchArm, Moves (Lets path (jumpsArm path a)) (checkArm a)
  | .mk _ body =>
      lets_after (checks_checkPattern _).moves fun _ =>
        lets_return (lets_inScope (lets_after (checks_definePattern _).moves fun _ =>
          lets_checkStmts path body))

theorem lets_checkArms (path : List Around) :
    ∀ as : List MatchArm, Moves (Lets path (jumpsArms path as)) (checkArms as)
  | [] => lets_none rfl (.pure _)
  | a :: as => lets_seq (lets_checkArm path a) fun _ => lets_return (lets_checkArms path as)

end

end Syntax

/-! ## Declarations -/

section Declarations

theorem lets_checkFunc (f : FunctionDecl) : Moves (Lets [] f.bodyJumps) (checkFunc f) := by
  refine lets_after (checks_typeFromTe _).moves fun ret =>
    lets_inScope (lets_after .get fun s => ?_)
  have body : Moves (Lets [] f.bodyJumps) (match f.body with
      | some body => do return some (← checkStmts body)
      | none => return none) := by
    unfold FunctionDecl.bodyJumps
    cases f.body with
    | none => exact .pure _
    | some body => exact lets_return (lets_checkStmts [] body)
  have rest : Moves (Lets [] f.bodyJumps) (do
      defineParams .param f.params
      let body ← returning ret do
        match f.body with
        | some body => return some (← checkStmts body)
        | none => return none
      return { f with body := body }) :=
    lets_after (checks_defineParams (.inr rfl) _).moves fun _ => lets_return (lets_returning _ body)
  refine .ite (fun _ => ?_) fun _ => rest
  exact lets_after checks_defineThis.moves fun _ => rest

theorem lets_checkField (f : FieldDecl) : Moves (Lets [] (jumpsOpt [] f.init)) (checkField f) := by
  unfold checkField
  cases f.init with
  | none => exact lets_none rfl (.pure _)
  | some init =>
      exact lets_before (lets_checkExpr [] init) fun _ =>
        (Checks.bind (checks_typeFromTe _) fun _ =>
          .bind (checks_requireAssignable _ _ _) fun _ => .pure _).moves

theorem lets_checkMembers (members : List ClassMember) :
    Moves (Lets [] (memberJumps members)) (checkMembers members) := by
  induction members with
  | nil => exact lets_none rfl (.pure _)
  | cons m ms ih =>
      cases m with
      | func f => exact lets_seq (lets_checkFunc f) fun _ => lets_return ih
      | field f => exact lets_seq (lets_checkField f) fun _ => lets_return ih

theorem lets_checkClass (c : ClassDecl) :
    Moves (Lets [] (memberJumps c.members)) (checkClass c) :=
  lets_after .get fun _ => lets_after (tame_checkBases _ _) fun _ =>
    lets_after (checks_checkContracts _ _).moves fun _ =>
      lets_insideClass _ _ (lets_inScope (lets_after (checks_defineMembers _).moves fun _ =>
        lets_return (lets_checkMembers _)))

mutual

theorem lets_checkDecl : ∀ d : Decl, Moves (Lets [] (jumpsDecl d)) (checkDecl d)
  | .func f => lets_return (lets_checkFunc f)
  | .cls c => lets_return (lets_checkClass c)
  | .iface i =>
      lets_none rfl (.bind (checks_checkInterface i.members).moves fun _ => .pure _)
  | .namespaceDecl _ decls stmts =>
      lets_inScope (lets_after (free_hoistTop decls) fun _ =>
        lets_seq (lets_checkDecls decls) fun _ => lets_return (lets_checkStmts [] stmts))
  | .importDecl i => lets_none rfl (.bind (checks_checkImport i).moves fun _ => .pure _)
  | .enum _ => lets_none rfl (.pure _)
  | .packageDecl _ => lets_none rfl (.pure _)
  | .externDecl _ => lets_none rfl (.pure _)

theorem lets_checkDecls : ∀ ds : List Decl, Moves (Lets [] (jumpsDecls ds)) (checkDecls ds)
  | [] => lets_none rfl (.pure _)
  | d :: ds => lets_seq (lets_checkDecl d) fun _ => lets_return (lets_checkDecls ds)

end

end Declarations

/-- Analysis lets no jump through that has neither a loop nor a `switch` around
it, wherever functions begin and end. -/
theorem inside_of_accepts {prog prog' : Program} {s : State} (accepts : Accepts prog prog' s) :
    ∀ j ∈ prog.checkedJumps, inside j.path = true := by
  have lets : Moves (Lets [] prog.checkedJumps) (run prog) :=
    lets_after (free_hoistTop prog.decls) fun _ =>
      lets_seq (lets_checkDecls prog.decls) fun _ => lets_return (lets_checkStmts [] prog.stmts)
  exact ((lets _ _ _ accepts.1 rfl).2 accepts.2).2

theorem path_ne_nil_of_accepts {prog prog' : Program} {s : State}
    (accepts : Accepts prog prog' s) : ∀ j ∈ prog.jumps, j.path ≠ [] := by
  intro j member
  rcases List.mem_append.1 member with checked | unchecked
  · have isIn := inside_of_accepts accepts j checked
    rintro empty
    rw [empty] at isIn
    cases isIn
  · have suffix := allIn_initJumpsDecls prog.decls j unchecked
    rintro empty
    rw [empty] at suffix
    cases List.suffix_nil.1 suffix

end Sema

end Dux
