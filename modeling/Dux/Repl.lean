import Dux.Logic.CText
import Dux.Logic.Lines
import Mathlib.Data.List.DropRight

/-!
# Interactive sessions

`Repl` (`src/repl/repl.cpp`), as it is built without a library for line editing.  A line is a
command, a declaration or a statement.  A declaration is compiled behind those that were accepted
before; a statement is compiled and run behind everything that was accepted.
-/

namespace Dux.Repl

open Logic (ascii decimal lines strstr)

/-! ## State -/

abbrev Text := List UInt8

/-- The members `context_decls_` and `context_stmts_`. -/
structure Context where
  decls : List Text
  stmts : List Text

/-- What a session prints. -/
inductive Output
  | banner | prompt | newline | help | cleared | empty | ok | cannotWrite | cannotRun
  | line (text : Text)

/-- What a session asks of the system: the compilation of a source, which was written to its file
or not, and the run of a program, with their status. -/
inductive Call
  | compile (path source : Text) (written : Bool) (status : Int)
  | run (path : Text) (status : Int)

/-- What the system does, in states of its own: it writes a file if that can be opened; `popen`
may fail, and else the compiler prints something and exits; a program may end without an exit
status. -/
structure Os (ω : Type) where
  write : Text → Text → ω → Bool × ω
  compile : Text → Text → ω → Option (Text × Int) × ω
  run : Text → ω → Option Int × ω

/-- A session, with the two static counters. -/
structure State (ω : Type) where
  context : Context
  seq : Nat
  verifySeq : Nat
  output : List Output
  calls : List Call
  world : ω

/-- A loop that reads on, has left, or was ended by a null pointer. -/
inductive Status
  | reading | left | crashed

/-! ## Lines of a session -/

/-- A line without white space at its end. -/
def strip (line : Text) : Text := line.rdropWhile fun b => b = 0x20 || b = 0x09 || b = 0x0d

/-- `starts_with_kw` in `is_decl`. -/
def startsWithKw (text kw : Text) : Bool :=
  kw.isPrefixOf text && text[kw.length]?.any fun next => next = 0x20 || next = 0x3c || next = 0x09

def isDecl (line : Text) : Bool :=
  ["class", "enum", "interface", "import", "namespace", "extern"].any
      (fun kw => startsWithKw line (ascii kw)) ||
    (line.contains 0x28 && line.contains 0x7b &&
      ["void", "int", "str", "bool", "long", "double", "float", "auto", "fn"].any
        fun kw => startsWithKw line (ascii kw))

/-- The accepted declarations, each on a line. -/
def Context.declText (c : Context) : Text := c.decls.flatMap (· ++ [0x0a])

def buildSource (c : Context) (stmt : Text) : Text :=
  c.declText ++ ascii "void main() \x7b\n" ++
    c.stmts.flatMap (fun s => ascii "    " ++ s ++ [0x0a]) ++
      ascii "    " ++ stmt ++ ascii "\n\x7d\n"

/-- `test_src`. -/
def testSource (c : Context) (line : Text) : Text :=
  c.declText ++ line ++ ascii "\nvoid main() \x7b\x7d\n"

def Context.shown (c : Context) : List Output :=
  if c.decls.isEmpty && c.stmts.isEmpty then [.empty]
  else c.decls.map .line ++
    if c.stmts.isEmpty then []
    else .line (ascii "void main() \x7b") :: c.stmts.map (fun s => .line (ascii "    " ++ s)) ++
      [.line (ascii "    ..."), .line (ascii "\x7d")]

/-! ## Steps -/

section Steps

variable {ω : Type} (os : Os ω) (dir : Text)

def State.print (s : State ω) (out : List Output) : State ω := { s with output := s.output ++ out }

/-- Print what the compiler said, with another name for the source. -/
def State.report (s : State ω) (path out : Text) : State ω :=
  s.print ((lines 0x0a out).map fun errLine => .line
    (match strstr path errLine with
      | some (before, found) => before ++ ascii "<input>" ++ found.drop path.length
      | none => errLine))

/-- The source and the program of a statement. -/
def replPath (n : Nat) : Text := dir ++ ascii "/repl_" ++ decimal n

/-- Those of a declaration. -/
def declPath (n : Nat) : Text := dir ++ ascii "/decl_" ++ decimal n

def srcPath (path : Text) : Text := path ++ ascii ".dux"

def compileAndRun (source : Text) (s : State ω) : Int × State ω :=
  let s := { s with seq := s.seq + 1 }
  let binPath := replPath dir s.seq
  match os.write (srcPath binPath) source s.world with
  | (false, w) => (1, { s with world := w }.print [.cannotWrite])
  | (true, w) =>
      match os.compile (srcPath binPath) binPath w with
      | (none, w) => (1, { s with world := w }.print [.cannotRun])
      | (some (out, rc), w) =>
          let s := { s with
            world := w, calls := s.calls ++ [Call.compile (srcPath binPath) source true rc] }
          if rc ≠ 0 then (1, s.report (srcPath binPath) out)
          else
            let (status, w) := os.run binPath s.world
            (status.getD 1, { s with
              world := w, calls := s.calls ++ [Call.run binPath (status.getD 1)] })

/-- The branch for a declaration.  It checks neither the file nor the pipe. -/
def declare (line : Text) (s : State ω) : Status × State ω :=
  let s := { s with verifySeq := s.verifySeq + 1 }
  let vbin := declPath dir s.verifySeq
  let source := testSource s.context line
  let (written, w) := os.write (srcPath vbin) source s.world
  match os.compile (srcPath vbin) vbin w with
  | (none, w) => (.crashed, { s with world := w })
  | (some (out, rc), w) =>
      let s := { s with
        world := w, calls := s.calls ++ [Call.compile (srcPath vbin) source written rc] }
      if rc ≠ 0 then (.reading, s.report (srcPath vbin) out)
      else (.reading,
        { s with context := { s.context with decls := s.context.decls ++ [line] } }.print [.ok])

/-- The branch for a statement. -/
def perform (line : Text) (s : State ω) : Status × State ω :=
  let (rc, s) := compileAndRun os dir (buildSource s.context line) s
  (.reading,
    if rc = 0 then { s with context := { s.context with stmts := s.context.stmts ++ [line] } }
    else s)

/-- The body of the loop in `run`, for a line that was read. -/
def step (line : Text) (s : State ω) : Status × State ω :=
  let line := strip line
  let s := s.print [.prompt]
  if line = [] then (.reading, s)
  else if line ∈ [ascii ":q", ascii ":quit", ascii "exit", ascii "quit"] then (.left, s)
  else if line = ascii ":help" then (.reading, s.print [.help])
  else if line = ascii ":clear" then (.reading, { s with context := ⟨[], []⟩ }.print [.cleared])
  else if line = ascii ":context" then (.reading, s.print s.context.shown)
  else if isDecl line then declare os dir line s
  else perform os dir line s

/-- The loop in `run`, for the lines of an input that ends. -/
def loop : List Text → State ω → Status × State ω
  | [], s => (.left, s.print [.prompt, .newline])
  | line :: rest, s =>
      match step os dir line s with
      | (.reading, s) => loop rest s
      | ended => ended

/-- `run`, for a new session. -/
def run (input : List Text) (world : ω) : State ω :=
  (loop os dir input ⟨⟨[], []⟩, 0, 0, [.banner], [], world⟩).2

end Steps

/-! ## The context of a session -/

/-- What these lines are as a context, if they are accepted. -/
def contextOf (history : List Text) : Context :=
  ⟨history.filter isDecl, history.filter fun line => !isDecl line⟩

/-- The lines since the context was cleared, when another one was read. -/
def keep (kept : List Text) (line : Text) : List Text :=
  if strip line = ascii ":clear" then [] else kept ++ [strip line]

/-- These calls accepted a line in a context: its source was compiled, and the program of a
statement was run, with no error. -/
def Accepted (dir : Text) (calls : List Call) (c : Context) (line : Text) : Prop :=
  if isDecl line then
    ∃ n written, .compile (srcPath (declPath dir n)) (testSource c line) written 0 ∈ calls
  else ∃ n, .compile (srcPath (replPath dir n)) (buildSource c line) true 0 ∈ calls ∧
    .run (replPath dir n) 0 ∈ calls

/-- The context comes from these lines, each of which was accepted in the context of those before
it. -/
structure Explains (dir : Text) (history : List Text) (c : Context) (calls : List Call) : Prop where
  context : c = contextOf history
  accepted : ∀ before line after, history = before ++ line :: after →
    Accepted dir calls (contextOf before) line

section Contexts

variable {ω : Type} {os : Os ω} {dir : Text} {s : State ω} {line : Text} {history : List Text}
  {calls calls' : List Call} {c : Context}

theorem Accepted.more (accepted : Accepted dir calls c line) (more : calls <+: calls') :
    Accepted dir calls' c line := by
  unfold Accepted at accepted ⊢
  split
  · next isIt =>
    rw [if_pos isIt] at accepted
    obtain ⟨n, written, mem⟩ := accepted
    exact ⟨n, written, more.subset mem⟩
  · next other =>
    rw [if_neg other] at accepted
    obtain ⟨n, compiled, ran⟩ := accepted
    exact ⟨n, more.subset compiled, more.subset ran⟩

theorem Explains.more (explains : Explains dir history c calls) (more : calls <+: calls') :
    Explains dir history c calls' :=
  ⟨explains.context, fun before line after split =>
    (explains.accepted before line after split).more more⟩

theorem Explains.snoc (explains : Explains dir history c calls) (more : calls <+: calls')
    (accepted : Accepted dir calls' c line) :
    Explains dir (history ++ [line]) (contextOf (history ++ [line])) calls' := by
  refine ⟨rfl, fun before line' after split => ?_⟩
  rcases List.eq_nil_or_concat after with rfl | ⟨after, last, rfl⟩
  · obtain ⟨rfl, same⟩ := List.append_inj' split rfl
    cases same
    exact explains.context ▸ accepted
  · rw [List.concat_eq_append, ← List.cons_append, ← List.append_assoc] at split
    exact (explains.accepted before line' after (List.append_inj' split rfl).1).more more

@[simp] theorem print_context (s : State ω) (out : List Output) :
    (s.print out).context = s.context := rfl

@[simp] theorem print_calls (s : State ω) (out : List Output) : (s.print out).calls = s.calls := rfl

theorem compileAndRun_cases (os : Os ω) (dir source : Text) (s : State ω) :
    s.calls <+: (compileAndRun os dir source s).2.calls ∧
      (compileAndRun os dir source s).2.context = s.context ∧
      ((compileAndRun os dir source s).1 = 0 → ∃ n,
        .compile (srcPath (replPath dir n)) source true 0 ∈
          (compileAndRun os dir source s).2.calls ∧
        .run (replPath dir n) 0 ∈ (compileAndRun os dir source s).2.calls) := by
  unfold compileAndRun
  dsimp only
  split
  · exact ⟨List.prefix_rfl, rfl, fun zero => by cases zero⟩
  · split
    · exact ⟨List.prefix_rfl, rfl, fun zero => by cases zero⟩
    · next out rc w _ =>
      by_cases failed : rc ≠ 0
      · rw [if_pos failed]
        exact ⟨List.prefix_append _ _, rfl, fun zero => by cases zero⟩
      · rw [if_neg failed]
        rw [not_not] at failed
        refine ⟨(List.prefix_append _ _).trans (List.prefix_append _ _), rfl, fun zero => ?_⟩
        dsimp only at zero ⊢
        refine ⟨s.seq + 1, ?_, ?_⟩
        · simp [failed]
        · simp [zero]

theorem declare_cases (os : Os ω) (dir : Text) (isIt : isDecl line = true) (s : State ω) :
    s.calls <+: (declare os dir line s).2.calls ∧
      ((declare os dir line s).2.context = s.context ∨
        Accepted dir (declare os dir line s).2.calls s.context line ∧
          (declare os dir line s).2.context =
            { s.context with decls := s.context.decls ++ [line] }) := by
  unfold declare
  dsimp only
  split
  · exact ⟨List.prefix_rfl, .inl rfl⟩
  · next out rc w _ =>
    by_cases failed : rc ≠ 0
    · rw [if_pos failed]
      exact ⟨List.prefix_append _ _, .inl rfl⟩
    · rw [if_neg failed]
      rw [not_not] at failed
      refine ⟨List.prefix_append _ _, .inr ⟨?_, rfl⟩⟩
      rw [Accepted, if_pos isIt]
      exact ⟨_, _, List.mem_append_right _ (List.mem_singleton.2 (by rw [failed]))⟩

theorem contextOf_snoc (history : List Text) (line : Text) :
    contextOf (history ++ [line]) =
      if isDecl line then
        { contextOf history with decls := (contextOf history).decls ++ [line] }
      else { contextOf history with stmts := (contextOf history).stmts ++ [line] } := by
  cases isIt : isDecl line <;> simp [contextOf, isIt]

/-- What a line does to the context: it is cleared, or stays, or the line is accepted and added. -/
theorem step_cases (os : Os ω) (dir line : Text) (s : State ω) :
    s.calls <+: (step os dir line s).2.calls ∧
      if strip line = ascii ":clear" then (step os dir line s).2.context = ⟨[], []⟩
      else (step os dir line s).2.context = s.context ∨
        Accepted dir (step os dir line s).2.calls s.context (strip line) ∧
          (step os dir line s).2.context =
            if isDecl (strip line) then { s.context with decls := s.context.decls ++ [strip line] }
            else { s.context with stmts := s.context.stmts ++ [strip line] } := by
  unfold step
  dsimp only
  by_cases isClear : strip line = ascii ":clear"
  · rw [isClear, if_neg (by decide), if_neg (by decide), if_neg (by decide), if_pos rfl, if_pos rfl]
    exact ⟨List.prefix_rfl, rfl⟩
  rw [if_neg isClear]
  split
  · exact ⟨List.prefix_rfl, .inl rfl⟩
  split
  · exact ⟨List.prefix_rfl, .inl rfl⟩
  split
  · exact ⟨List.prefix_rfl, .inl rfl⟩
  split
  · exact ⟨List.prefix_rfl, .inl rfl⟩
  split
  · next isIt =>
    exact declare_cases os dir isIt (s.print [.prompt])
  · next other =>
    obtain ⟨more, kept, accepted⟩ := compileAndRun_cases os dir
      (buildSource (s.print [.prompt]).context (strip line)) (s.print [.prompt])
    unfold perform
    dsimp only
    split
    · next zero =>
      rw [kept, Accepted, if_neg other]
      exact ⟨more, .inr ⟨accepted zero, rfl⟩⟩
    · exact ⟨more, .inl kept⟩

theorem step_explained (os : Os ω) {kept : List Text} (isKept : history.Sublist kept)
    (explains : Explains dir history s.context s.calls) (line : Text) :
    ∃ history', history'.Sublist (keep kept line) ∧
      Explains dir history' (step os dir line s).2.context (step os dir line s).2.calls := by
  obtain ⟨more, cases⟩ := step_cases os dir line s
  by_cases isClear : strip line = ascii ":clear"
  · rw [if_pos isClear] at cases
    rw [keep, if_pos isClear, cases]
    refine ⟨[], List.nil_sublist _, rfl, fun before line after split => ?_⟩
    simp at split
  · rw [if_neg isClear] at cases
    rw [keep, if_neg isClear]
    rcases cases with same | ⟨accepted, added⟩
    · rw [same]
      exact ⟨history, isKept.trans (List.sublist_append_left _ _), explains.more more⟩
    · rw [added, explains.context, ← contextOf_snoc]
      exact ⟨_, isKept.append (List.Sublist.refl _), explains.snoc more accepted⟩

theorem loop_explained (input : List Text) {kept : List Text} (isKept : history.Sublist kept)
    (explains : Explains dir history s.context s.calls) : ∃ read history', read <+: input ∧
      history'.Sublist (read.foldl keep kept) ∧
      Explains dir history' (loop os dir input s).2.context (loop os dir input s).2.calls := by
  induction input generalizing s history kept with
  | nil => exact ⟨[], history, List.prefix_rfl, isKept, explains⟩
  | cons line rest ih =>
    obtain ⟨history', isKept', explains'⟩ := step_explained os isKept explains line
    rw [loop]
    split
    · next s' stepped =>
      rw [stepped] at explains'
      obtain ⟨read, history'', isRead, isKept'', explains''⟩ := ih isKept' explains'
      exact ⟨line :: read, history'', List.cons_prefix_cons.2 ⟨rfl, isRead⟩, isKept'', explains''⟩
    · exact ⟨[line], history', List.cons_prefix_cons.2 ⟨rfl, List.nil_prefix⟩, isKept', explains'⟩

/-- At the end of any session its context comes from lines that were read since the context was
cleared, in their order, each accepted by the compiler, and by a run if it is a statement, behind
the declarations and statements before it. -/
theorem context_explained (os : Os ω) (dir : Text) (input : List Text) (world : ω) :
    ∃ read history, read <+: input ∧ history.Sublist (read.foldl keep []) ∧
      Explains dir history (run os dir input world).context (run os dir input world).calls :=
  loop_explained input (List.Sublist.refl []) ⟨rfl, fun before line after split => by simp at split⟩

end Contexts

end Dux.Repl
