import Dux.Codegen.Functions
import Dux.Codegen.Registers

/-!
# Variables that outlive calls

Static variables of functions and `thread_local` variables of the module live in
globals, but `gen_var_decl` enters them into the innermost scope by `env_define`
like every other variable (`src/codegen/codegen.cpp`).  A `thread_local` variable
is in the global scope, which every `return`, `break` and `continue` cleans up
too.

The emitted code of whole programs is run with a world that knows what is in
these globals, and beside it what the program assigned last.  Expressions are
opaque to the emitter, so what one does is written in a script.
-/

namespace Dux.Codegen.Statics

open Dux.Logic (Outcome)

/-- The storage of a variable that outlives calls.  A static variable belongs to
the function behind a symbol. -/
inductive Place
  | static (symbol : String) (slot : Slot)
  | threadLocal (slot : Slot)
  deriving DecidableEq

/-- The bits in a global, zero for null, what the program assigned last, and
whether what the global points to is still there. -/
structure Cell where
  value : Nat := 0
  assigned : Nat := 0
  live : Bool := true
  deriving DecidableEq

/-- The program finds what it assigned last. -/
def Cell.Intact (c : Cell) : Prop := c.value = c.assigned ∧ c.live = true

/-- The variables of a program that outlive calls. -/
structure Vars where
  threadLocals : List Declaration
  statics : String → List Declaration

/-- The storage that a variable stands for in the function behind a symbol. -/
def Vars.find (vars : Vars) (symbol : String) (slot : Slot) : Option (Place × Declaration) :=
  match vars.threadLocals.find? (·.slot = slot) with
  | some d => some (.threadLocal slot, d)
  | none => ((vars.statics symbol).find? (·.slot = slot)).map (.static symbol slot, ·)

/-- What an expression or a `delete` does, one thing after the other. -/
inductive Access
  | compute (v : Nat)
  | read (slot : Slot)
  | assign (slot : Slot)
  | call (symbol : String)
  | stop (answer : Answer)

def Access.isCall : Access → Bool
  | .call _ => true
  | _ => false

/-- The globals, the guards of static variables, the value of the last
expression, what reads have found, and the storage that clean-ups have been run
on. -/
structure Memory where
  symbol : String := ""
  cells : Place → Cell
  guards : Place → Bool := fun _ => false
  value : Nat := 0
  reads : List (Place × Cell) := []
  cleaned : List Place := []
  scripts : List (List Access) := []
  choices : List Nat := []

namespace Memory

def setCell (s : Memory) (p : Place) (c : Cell) : Memory :=
  { s with cells := fun q => if q = p then c else s.cells q }

/-- Store the value of the last expression.  The global of a `const` variable is
a constant, which stays what it is. -/
def store (s : Memory) (p : Place) (d : Declaration) : Memory :=
  if d.type.isConst then s.setCell p { s.cells p with assigned := s.value }
  else s.setCell p ⟨s.value, s.value, true⟩

/-- A clean-up of a storage that is not null; `nulls` if it stores null. -/
def clean (s : Memory) (p : Place) (nulls : Bool) : Memory :=
  let c := s.cells p
  { s.setCell p { c with value := if nulls then 0 else c.value, live := false } with
    cleaned := p :: s.cleaned }

end Memory

section Running

variable (vars : Vars)
-- the function behind a symbol, run one level down
variable (invoke : String → Memory → Answer × Memory)

def Access.run (s : Memory) : Access → Answer × Memory
  | .compute v => (.ok, { s with value := v })
  | .read slot =>
      match vars.find s.symbol slot with
      | some (p, _) =>
          (.ok, { s with value := (s.cells p).value, reads := (p, s.cells p) :: s.reads })
      | none => (.ok, s)
  | .assign slot =>
      match vars.find s.symbol slot with
      -- analysis lets no assignment to a constant through
      | some (p, d) => (.ok, if d.type.isConst then s else s.store p d)
      | none => (.ok, s)
  | .call symbol => invoke symbol s
  | .stop answer => (answer, s)

def runAccesses (s : Memory) : List Access → Answer × Memory
  | [] => (.ok, s)
  | access :: rest =>
      match access.run vars invoke s with
      | (.ok, s') => runAccesses s' rest
      | r => r

/-- The next script; the destruction of fields only calls destructors. -/
def runScript (fields : Bool) (s : Memory) : Answer × Memory :=
  match s.scripts with
  | [] => (.ok, s)
  | script :: rest =>
      runAccesses vars invoke { s with scripts := rest }
        (if fields then script.filter Access.isCall else script)

/-- The declaration of a static variable stores the initial value and sets the
guard. -/
def declare (slot : Slot) (s : Memory) : Memory :=
  match vars.find s.symbol slot with
  | some (.static f x, d) =>
      { s.store (.static f x) d with
        guards := fun q => if q = .static f x then true else s.guards q }
  | some (.threadLocal _, _) | none => s

/-- The clean-up of a variable; that of an ordinary one does nothing to the
globals. -/
def cleanUp (slot : Slot) (nulls : Bool) (s : Memory) : Memory :=
  match vars.find s.symbol slot with
  | some (p, _) => if (s.cells p).value = 0 then s else s.clean p nulls
  | none => s

/-- What an instruction does.  Whether `emit_dtor` finds an instance in an
ordinary variable and calls the destructor is a choice. -/
def staticsOp (o : Op) (s : Memory) : Answer × Memory :=
  match o with
  | .eval _ | .delete _ => runScript vars invoke false s
  | .declare slot => (.ok, declare vars slot s)
  | .cleanup (.dtor slot cls) =>
      let s' := { s with choices := s.choices.tail }
      if s.choices.headD 0 = 0 then (.ok, cleanUp vars slot true s')
      else
        match invoke (cls ++ "___dtor") s' with
        | (.ok, s'') => (.ok, cleanUp vars slot true s'')
        | r => r
  | .cleanup (.release slot _) => (.ok, cleanUp vars slot true s)
  | .releaseStr slot => (.ok, cleanUp vars slot false s)
  | .cleanup (.deferBody _ _) | .cleanup (.call _) | .retainResult
  | .loopInit _ | .loopElement _ | .loopStep _ | .bindPayload _ | .bindCatch _ | .beginCatch =>
      (.ok, s)

/-- Which way a branch goes; the initialiser of a static variable runs where the
guard is not set. -/
def staticsChoice (c : Choice) (s : Memory) : Nat × Memory :=
  match c with
  | .staticGuard slot =>
      match vars.find s.symbol slot with
      | some (p, _) => (if s.guards p then 1 else 0, s)
      | none => (0, s)
  | _ => (s.choices.headD 0, { s with choices := s.choices.tail })

def staticsWorld : World Memory where
  op := staticsOp vars invoke
  choose := staticsChoice vars

end Running

/-! ## Programs -/

def body (m : Module) (symbol : String) : Option (List Stmt) :=
  match m.functions.lookup symbol with
  | some (.func f) => f.body
  | some (.member _ f) => f.body
  | some (.external _) => none
  | some (.runtime _ _) => none
  | none => none

def declared (m : Module) (symbol : String) : List Declaration :=
  (body m symbol).elim [] (declarationsAll false)

def threadLocals : List Stmt → List Declaration
  | [] => []
  | .varDecl loc type _ true decls :: ss =>
      declarators false loc type true decls ++ threadLocals ss
  | _ :: ss => threadLocals ss

def varsOf (m : Module) (stmts : List Stmt) : Vars where
  threadLocals := threadLocals stmts
  statics symbol := (declared m symbol).filter (·.isStatic)

/-- What `Codegen::run` registers in the global scope before it generates
bodies. -/
def globals (m : Module) (stmts : List Stmt) : List Item :=
  (threadLocals stmts).flatMap (·.items m.ls)

section Runs

variable (m : Module) (stmts : List Stmt) (nest N : Nat)

/-- The end of a call.  The caller goes on with its own variables. -/
def returned (symbol : String) (r : Outcome × Memory) : Answer × Memory :=
  let back := { r.2 with symbol := symbol }
  match r.1 with
  | .normal | .ret | .br _ _ => (.ok, back)
  | .raise | .escape => (.raise, back)
  | .abort | .timeout => (.abort, back)

/-- A call, with calls nested at most so deep; a function without code here does
nothing to the globals. -/
def runFunction : Nat → String → Memory → Answer × Memory
  | 0, _, s => (.abort, s)
  | depth + 1, symbol, s =>
      match m.functionCode nest (globals m stmts) symbol with
      | none => (.ok, s)
      | some code =>
          let vars := varsOf m stmts
          let invoke := runFunction depth
          returned s.symbol
            (code.run (staticsWorld vars invoke) (runScript vars invoke true) (globals m stmts) N
              { s with symbol := symbol })

def runCalls (depth : Nat) (s : Memory) : List String → Memory
  | [] => s
  | symbol :: rest =>
      match runFunction m stmts nest N depth symbol s with
      | (.abort, s') => s'
      | (_, s') => runCalls depth s' rest

end Runs

section Start

-- the bits of a literal, converted to the type of the variable
variable (bits : Expr → Nat)

/-- The constant initialiser of a `thread_local` variable. -/
def constant : Option Expr → Nat
  | none => 0
  | some (.stringLit _ _) | some (.nullLit _) => 0
  | some e => bits e

def initial : Option Expr → Nat
  | none => 0
  | some (.nullLit _) => 0
  | some e => bits e

/-- The globals before a program runs. -/
def firstCells (vars : Vars) : Place → Cell
  | .static _ _ => {}
  | .threadLocal slot =>
      match vars.threadLocals.find? (·.slot = slot) with
      | some d => { value := constant bits d.init, assigned := initial bits d.init }
      | none => {}

def start (vars : Vars) (scripts : List (List Access)) (choices : List Nat) : Memory :=
  { cells := firstCells bits vars, scripts := scripts, choices := choices }

end Start

/-! ## Persistence -/

/-- A storage holds what was assigned last, every read found that, and no
clean-up has been run on it. -/
structure Persists (p : Place) (s : Memory) : Prop where
  intact : (s.cells p).Intact
  reads : ∀ r ∈ s.reads, r.1 = p → r.2.Intact
  spared : p ∉ s.cleaned

/-- No clean-up is registered for a variable by these declarations. -/
def Unregistered (ls : Layouts) (slot : Slot) (ds : List Declaration) : Prop :=
  ∀ d ∈ ds, ∀ x ∈ d.items ls, x.slot ≠ some slot

/-- No declaration registers a clean-up for the variable, and its initialiser gets
into the global: a static variable is not constant and not part of a deferred
block, which is emitted once for every exit, each time with a global of its own; a
`thread_local` variable does not begin as a string. -/
def KeptApart (m : Module) (stmts : List Stmt) : Place → Prop
  | .static symbol slot =>
      Unregistered m.ls slot (threadLocals stmts) ∧ Unregistered m.ls slot (declared m symbol) ∧
        ∀ d ∈ declared m symbol, d.slot = slot → d.type.isConst = false ∧ d.deferred = false
  | .threadLocal slot =>
      Unregistered m.ls slot (threadLocals stmts) ∧
        (∀ symbol, Unregistered m.ls slot (declared m symbol)) ∧
        ∀ d ∈ threadLocals stmts, d.slot = slot → ∀ t v, d.init ≠ some (.stringLit t v)

section Steps

variable {p q : Place} {s : Memory}

namespace Persists

theorem of_eq {s' : Memory} (persists : Persists p s) (cells : s'.cells = s.cells)
    (reads : s'.reads = s.reads) (cleaned : s'.cleaned = s.cleaned) : Persists p s' where
  intact := by rw [cells]; exact persists.intact
  reads := by rw [reads]; exact persists.reads
  spared := by rw [cleaned]; exact persists.spared

theorem setCell (persists : Persists p s) {c : Cell} (intact : q = p → c.Intact) :
    Persists p (s.setCell q c) where
  intact := by
    by_cases same : p = q
    · simpa [Memory.setCell, same] using intact same.symm
    · simpa [Memory.setCell, same] using persists.intact
  reads := persists.reads
  spared := persists.spared

theorem store {d : Declaration} (persists : Persists p s)
    (notConst : q = p → d.type.isConst = false) : Persists p (s.store q d) := by
  unfold Memory.store
  split
  · next isConst =>
      exact persists.setCell fun same => absurd isConst (by rw [notConst same]; simp)
  · exact persists.setCell fun _ => ⟨rfl, rfl⟩

theorem clean {nulls : Bool} (persists : Persists p s) (other : q ≠ p) :
    Persists p (s.clean q nulls) where
  intact := by simpa [Memory.clean, Memory.setCell, other.symm] using persists.intact
  reads := persists.reads
  spared := by
    intro member
    rcases List.mem_cons.1 member with same | before
    · exact other same.symm
    · exact persists.spared before

theorem read (persists : Persists p s) {v : Nat} :
    Persists p { s with value := v, reads := (q, s.cells q) :: s.reads } where
  intact := persists.intact
  reads r member same := by
    rcases List.mem_cons.1 member with rfl | before
    · rw [show q = p from same]
      exact persists.intact
    · exact persists.reads r before same
  spared := persists.spared

end Persists

/-- In the run of a function the storage persists. -/
structure Inside (p : Place) (f : String) (s : Memory) : Prop where
  persists : Persists p s
  symbol : s.symbol = f

theorem Inside.of_eq {f : String} {s' : Memory} (inside : Inside p f s)
    (symbol : s'.symbol = s.symbol) (cells : s'.cells = s.cells) (reads : s'.reads = s.reads)
    (cleaned : s'.cleaned = s.cleaned) : Inside p f s' where
  persists := inside.persists.of_eq cells reads cleaned
  symbol := symbol.trans inside.symbol

/-- Calls leave the storage alone and come back to their caller. -/
def Returns (p : Place) (invoke : String → Memory → Answer × Memory) : Prop :=
  ∀ symbol f s, Inside p f s → Inside p f (invoke symbol s).2

/-- The storage is not that of a constant variable of a function. -/
def Variable (vars : Vars) (p : Place) : Prop :=
  ∀ f slot symbol x d, vars.find f slot = some (.static symbol x, d) → .static symbol x = p →
    d.type.isConst = false

def Other (vars : Vars) (p : Place) (f : String) (slot : Slot) : Prop :=
  ∀ d, vars.find f slot ≠ some (p, d)

variable {vars : Vars} {invoke : String → Memory → Answer × Memory} {f : String}

theorem inside_run (returns : Returns p invoke) (access : Access) (inside : Inside p f s) :
    Inside p f (access.run vars invoke s).2 := by
  cases access with
  | compute v => exact inside.of_eq rfl rfl rfl rfl
  | stop answer => exact inside
  | call symbol => exact returns symbol f s inside
  | read slot =>
      simp only [Access.run]
      split
      · exact ⟨inside.persists.read, inside.symbol⟩
      · exact inside
  | assign slot =>
      simp only [Access.run]
      split
      · next q d found =>
          by_cases isConst : d.type.isConst = true
          · rw [if_pos isConst]
            exact inside
          · rw [if_neg isConst]
            refine ⟨inside.persists.store fun _ => Bool.eq_false_iff.2 isConst, ?_⟩
            rw [← inside.symbol, Memory.store, if_neg isConst]
            rfl
      · exact inside

theorem inside_runAccesses (returns : Returns p invoke) (accesses : List Access)
    (inside : Inside p f s) : Inside p f (runAccesses vars invoke s accesses).2 := by
  induction accesses generalizing s with
  | nil => exact inside
  | cons access rest ih =>
      have first : Inside p f (access.run vars invoke s).2 := inside_run returns access inside
      unfold runAccesses
      split
      · next ran =>
          rw [ran] at first
          exact ih first
      · exact first

theorem inside_runScript (returns : Returns p invoke) (fields : Bool) (inside : Inside p f s) :
    Inside p f (runScript vars invoke fields s).2 := by
  unfold runScript
  split
  · exact inside
  · exact inside_runAccesses returns _ (inside.of_eq rfl rfl rfl rfl)

theorem Memory.store_symbol (s : Memory) (p : Place) (d : Declaration) :
    (s.store p d).symbol = s.symbol := by
  unfold Memory.store
  split <;> rfl

theorem inside_declare (isVariable : Variable vars p) (slot : Slot) (inside : Inside p f s) :
    Inside p f (declare vars slot s) := by
  unfold declare
  split
  · next g x d found =>
      have stored : Inside p f (s.store (.static g x) d) :=
        ⟨inside.persists.store (isVariable _ _ _ _ _ found), by
          rw [Memory.store_symbol, inside.symbol]⟩
      exact stored.of_eq rfl rfl rfl rfl
  · exact inside
  · exact inside

theorem inside_cleanUp {slot : Slot} (other : Other vars p f slot) (nulls : Bool)
    (inside : Inside p f s) : Inside p f (cleanUp vars slot nulls s) := by
  unfold cleanUp
  split
  · next q d found =>
      split
      · exact inside
      · rw [inside.symbol] at found
        refine ⟨inside.persists.clean ?_, inside.symbol⟩
        rintro rfl
        exact other d found
  · exact inside

theorem inside_staticsOp (returns : Returns p invoke) (isVariable : Variable vars p)
    {ls : Layouts} {o : Op} (follows : o.Follows (Concerns ls (Other vars p f)))
    (inside : Inside p f s) : Inside p f (staticsOp vars invoke o s).2 := by
  cases o with
  | eval e => exact inside_runScript returns false inside
  | delete e => exact inside_runScript returns false inside
  | declare slot => exact inside_declare isVariable slot inside
  | releaseStr slot => exact inside_cleanUp (follows slot rfl) false inside
  | cleanup c =>
      cases c with
      | release slot symbol => exact inside_cleanUp (follows slot rfl) true inside
      | deferBody | call => exact inside
      | dtor slot cls =>
          have told : Inside p f { s with choices := s.choices.tail } :=
            inside.of_eq rfl rfl rfl rfl
          simp only [staticsOp]
          split
          · exact inside_cleanUp (follows slot rfl) true told
          · have called := returns (cls ++ "___dtor") f _ told
            split
            · next ran =>
                rw [ran] at called
                exact inside_cleanUp (follows slot rfl) true called
            · exact called
  | retainResult | loopInit | loopElement | loopStep | bindPayload | bindCatch | beginCatch =>
      exact inside

theorem inside_staticsChoice (c : Choice) (inside : Inside p f s) :
    Inside p f (staticsChoice vars c s).2 := by
  cases c with
  | staticGuard slot =>
      simp only [staticsChoice]
      split <;> exact inside
  | cond | more | switchOn | matchOn | catchType => exact inside.of_eq rfl rfl rfl rfl

end Steps

/-! ## Runs -/

section Functions

variable {m : Module} {stmts : List Stmt} {p : Place}

theorem find_eq_some {vars : Vars} {f : String} {slot : Slot} {q : Place} {d : Declaration}
    (found : vars.find f slot = some (q, d)) :
    (q = .threadLocal slot ∧ d ∈ vars.threadLocals ∨ q = .static f slot ∧ d ∈ vars.statics f) ∧
      d.slot = slot := by
  unfold Vars.find at found
  split at found
  · next d' isThreadLocal =>
      cases found
      exact ⟨.inl ⟨rfl, List.mem_of_find?_eq_some isThreadLocal⟩,
        by simpa using List.find?_some isThreadLocal⟩
  · obtain ⟨d', isStatic, same⟩ := Option.map_eq_some_iff.1 found
    cases same
    exact ⟨.inr ⟨rfl, List.mem_of_find?_eq_some isStatic⟩, by simpa using List.find?_some isStatic⟩

theorem KeptApart.isVariable (kept : KeptApart m stmts p) : Variable (varsOf m stmts) p := by
  rintro f slot symbol x d found rfl
  obtain ⟨⟨isThreadLocal, _⟩ | ⟨isStatic, member⟩, here⟩ := find_eq_some found
  · cases isThreadLocal
  · cases isStatic
    exact (kept.2.2 d (List.mem_of_mem_filter member) here).1

theorem KeptApart.other (kept : KeptApart m stmts p) (f : String) {slot : Slot}
    (registered : (∃ d ∈ threadLocals stmts, ∃ x ∈ d.items m.ls, x.slot = some slot) ∨
      ∃ d ∈ declared m f, ∃ x ∈ d.items m.ls, x.slot = some slot) :
    Other (varsOf m stmts) p f slot := by
  intro d' found
  obtain ⟨⟨rfl, _⟩ | ⟨rfl, _⟩, _⟩ := find_eq_some found
  · rcases registered with ⟨d, member, x, item, here⟩ | ⟨d, member, x, item, here⟩
    · exact kept.1 d member x item here
    · exact kept.2.1 f d member x item here
  · rcases registered with ⟨d, member, x, item, here⟩ | ⟨d, member, x, item, here⟩
    · exact kept.1 d member x item here
    · exact kept.2.1 d member x item here

theorem follow_genDtor {A : Item → Prop} (admissible : Admissible A m.ls) {n : Nat}
    {global : List Item} {cls : String} {stmts : List Stmt} {is : DtorCode}
    (inGlobal : ∀ x ∈ global, A x) (inBody : Admitted A m.ls (declarationsAll false stmts))
    (emits : m.genDtor n global cls stmts = some is) : Follow A is.body ∧ Follow A is.exit := by
  obtain ⟨r, ran, rest⟩ := Option.bind_eq_some_iff.1 emits
  obtain ⟨exit, left, rest⟩ := Option.bind_eq_some_iff.1 rest
  cases rest
  have rules := followRules A
  have bodies := bodies_genLevel rules admissible n
  obtain ⟨admits, inside⟩ := emits_genStmts ⟨admissible, rules, bodies⟩ false stmts inBody _ r
    (admits_globals inGlobal) ran
  have leaving : Emits A (fun _ => Follow A)
      (if r.live then emitJump (genLevel m.ls n) .ret 1 .ret else Emitter.stop []) := by
    split
    · exact emits_return rules bodies 1
    · exact emits_stop follow_nil
  exact ⟨inside, (leaving r.ctx exit admits left).2⟩

theorem follows_of_functionCode {A : Item → Prop} (admissible : Admissible A m.ls) {nest : Nat}
    {global : List Item} {symbol : String} {code : FunctionCode} (inGlobal : ∀ x ∈ global, A x)
    (inBody : Admitted A m.ls (declared m symbol))
    (isCode : m.functionCode nest global symbol = some code) : ∀ o ∈ code.ops, o.Follows A := by
  have plain : ∀ stmts, body m symbol = some stmts →
      (genFunction m.ls nest global stmts).map .plain = some code →
        ∀ o ∈ code.ops, o.Follows A := by
    intro stmts isBody made
    obtain ⟨is, emits, rfl⟩ := Option.map_eq_some_iff.1 made
    rw [declared, isBody] at inBody
    obtain ⟨_, follow⟩ := holds_genFunction (followRules A) admissible inGlobal inBody emits
    exact follow
  unfold Module.functionCode at isCode
  cases found : m.functions.lookup symbol with
  | none => simp [found] at isCode
  | some d =>
      cases d with
      | external e => simp [found] at isCode
      | runtime name params => simp [found] at isCode
      | func f =>
          simp only [found] at isCode
          obtain ⟨stmts, isBody, made⟩ := Option.bind_eq_some_iff.1 isCode
          exact plain stmts (by rw [body, found, ← isBody]) made
      | member cls f =>
          simp only [found] at isCode
          obtain ⟨stmts, isBody, made⟩ := Option.bind_eq_some_iff.1 isCode
          have isBody : body m symbol = some stmts := by rw [body, found, ← isBody]
          split at made
          · obtain ⟨is, emits, rfl⟩ := Option.map_eq_some_iff.1 made
            rw [declared, isBody] at inBody
            obtain ⟨inside, atExit⟩ := follow_genDtor admissible inGlobal inBody emits
            intro o member
            rcases List.mem_append.1 member with ofBody | ofExit
            · exact inside o ofBody
            · exact atExit o ofExit
          · exact plain stmts isBody made

theorem inside_returned {f symbol : String} {r : Outcome × Memory} (inside : Inside p f r.2) :
    Inside p symbol (returned symbol r).2 := by
  unfold returned
  cases r.1 <;> exact ⟨inside.persists.of_eq rfl rfl rfl, rfl⟩

variable (nest N : Nat)

/-- The run of a function, by induction on the nesting of calls. -/
theorem returns_runFunction (kept : KeptApart m stmts p) (depth : Nat) :
    Returns p (runFunction m stmts nest N depth) := by
  induction depth with
  | zero => exact fun _ _ _ inside => inside
  | succ depth ih =>
      intro symbol f s inside
      unfold runFunction
      split
      · exact inside
      · next code isCode =>
          have admissible : Admissible (Concerns m.ls (Other (varsOf m stmts) p symbol)) m.ls :=
            admissible_concerns
          have inBody : Admitted (Concerns m.ls (Other (varsOf m stmts) p symbol)) m.ls
              (declared m symbol) := admitted_concerns_iff.2 fun d member x item slot here =>
            kept.other symbol (.inr ⟨d, member, x, item, here⟩)
          have inGlobal : ∀ x ∈ globals m stmts,
              Concerns m.ls (Other (varsOf m stmts) p symbol) x := by
            intro x member
            obtain ⟨d, isThreadLocal, item⟩ := List.mem_flatMap.1 member
            exact (concerns_of_mem_items item).2 fun slot here =>
              kept.other symbol (.inl ⟨d, isThreadLocal, x, item, here⟩)
          have ops := follows_of_functionCode admissible inGlobal inBody isCode
          rw [← inside.symbol]
          apply inside_returned (f := symbol)
          apply FunctionCode.run_keeps_of_ops (I := Inside p symbol)
          · exact fun o member w => inside_staticsOp ih kept.isVariable (ops o member)
          · exact fun c w => inside_staticsChoice c
          · exact fun w => inside_runScript ih true
          · exact ⟨inside.persists.of_eq rfl rfl rfl, rfl⟩

theorem persists_runCalls (kept : KeptApart m stmts p) (depth : Nat) {s : Memory}
    (persists : Persists p s) (calls : List String) :
    Persists p (runCalls m stmts nest N depth s calls) := by
  induction calls generalizing s with
  | nil => exact persists
  | cons symbol rest ih =>
      have ran := (returns_runFunction nest N kept depth symbol s.symbol s ⟨persists, rfl⟩).persists
      unfold runCalls
      split
      · next stopped =>
          rw [stopped] at ran
          exact ran
      · next went =>
          rw [went] at ran
          exact ih ran

end Functions

section Whole

variable {m : Module} {stmts : List Stmt} {p : Place} (bits : Expr → Nat)

theorem constant_eq_initial {init : Option Expr}
    (noString : ∀ t v, init ≠ some (.stringLit t v)) : constant bits init = initial bits init := by
  cases init with
  | none => rfl
  | some e =>
      cases e with
      | stringLit t v => exact absurd rfl (noString t v)
      | _ => rfl

theorem persists_start (kept : KeptApart m stmts p) (scripts : List (List Access))
    (choices : List Nat) : Persists p (start bits (varsOf m stmts) scripts choices) where
  intact := by
    cases p with
    | static symbol slot => exact ⟨rfl, rfl⟩
    | threadLocal slot =>
        simp only [start, firstCells]
        split
        · next d isThreadLocal =>
            refine ⟨?_, rfl⟩
            have noString := kept.2.2 d (List.mem_of_find?_eq_some isThreadLocal)
              (by simpa using List.find?_some isThreadLocal)
            exact constant_eq_initial bits noString
        · exact ⟨rfl, rfl⟩
  reads := nofun
  spared := nofun

end Whole

/-- A function with a static variable of some type. -/
def withStatic (type : String) (init : Expr) : Program where
  decls := [.func {
    loc := ⟨1, 1⟩, returnType := { name := "int" }, name := "next", params := []
    body := some [
      .varDecl ⟨2, 1⟩ { name := type } true false [.mk "last" (some init)],
      .expr (.ident 0 "last"),
      .returnStmt (some (.intLit 0 0))] }]
  stmts := []

def last : Place := .static "next" ⟨⟨2, 1⟩, "last"⟩

/-- Two calls, which read the variable and assign to it. -/
def twice (prog : Program) : Memory :=
  let use : List Access := [.read ⟨⟨2, 1⟩, "last"⟩, .compute 7, .assign ⟨⟨2, 1⟩, "last"⟩]
  runCalls (moduleOf prog) prog.stmts 0 1 1
    (start (fun _ => 5) (varsOf (moduleOf prog) prog.stmts) [[.compute 5], use, [], use, []] [])
    ["next", "next"]

end Dux.Codegen.Statics
