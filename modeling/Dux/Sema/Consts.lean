import Dux.Sema.Guards
import Dux.Sema.Heritage

/-!
# Constants

`const` before the type of a variable, a parameter or a field makes it immutable.
`check_assign` (`src/sema/sema.cpp`) refuses an assignment to a name whose symbol is
marked as constant; only variable declarations mark their symbols.  `check_unary` and the
targets that are members are not looked at.
-/

namespace Dux.Sema

open TypeRegistry
open Logic (Climbs)

/-- Whether the innermost declaration of a name is that of a constant. -/
def isConstName : List (List String) → List Scope → String → Bool
  | _, [], _ => false
  | headers, sc :: rest, name =>
      match sc.lookupLocal name with
      | some sym => sym.isConst || (headers.headD []).contains name
      | none => isConstName headers.tail rest name

/-- The field of that name that a class itself declares. -/
def ownField (c : ClassDecl) (name : String) : Option FieldDecl :=
  c.members.findSome? fun
    | .field f => if f.name = name then some f else none
    | .func _ => none

def Symbol.isField (sym : Symbol) : Bool :=
  match sym.decl with
  | .other => sym.kind = .var
  | _ => false

/-- Whether a name is that of a constant field of the class around. -/
def isConstFieldHere (s : State) (name : String) : Bool :=
  match lookupScopes s.scopes name, globalClass (s.scopes.getLastD []) s.currentClassName with
  | some sym, some c => sym.isField && ((ownField c name).map (·.type.isConst)).getD false
  | _, _ => false

/-- The test for a field at a type, on the way up the class hierarchy. -/
def constTest (types : TypeRegistry) (globals : Scope) (field : String) (cur : TypeId) :
    Option Bool :=
  if cur = TID_UNKNOWN ∨ cur < 0 ∨ cur = TID_OBJECT then some false
  else match globalClass globals (types.info cur).name with
    | some c => (ownField c field).map (·.type.isConst)
    | none => some false

/-- The nearest class that declares the field declares it constant. -/
def IsConstField (s : State) (t : TypeId) (field : String) : Prop :=
  Climbs (constTest s.types (s.scopes.getLastD []) field) s.types.parentOf t

/-- The operators that write to their operand. -/
def isStep : UnOp → Bool
  | .inc => true
  | .dec => true
  | _ => false

/-- A plain assignment in a constructor, by which it initialises a field. -/
def initialises (ctx : Context) (op : AssignOp) : Bool := ctx.inCtor && op = .assign

namespace Site

def writesConstName : Site → Bool
  | .target ctx op (.ident _ name) s =>
      isConstName ctx.headers s.scopes name || isConstFieldHere s name && !initialises ctx op
  | .operand ctx op (.ident _ name) s =>
      isStep op && (isConstName ctx.headers s.scopes name || isConstFieldHere s name)
  | _ => false

/-- A site with a member in it. -/
def ofMember : Site → Bool
  | .assigned _ _ (.member ..) _ => true
  | .operand _ _ (.member ..) _ => true
  | _ => false

/-- A write to a constant field of an object or of a class. -/
def WritesConstMember : Site → Prop
  | .assigned ctx op (.member _ object field) s =>
      IsConstField s object.tid field ∧ (initialises ctx op && isThis object) = false
  | .operand _ op (.member _ object field) s =>
      isStep op = true ∧ IsConstField s object.tid field
  | _ => False

/-- A write to a constant that is initialised. -/
def WritesConst (site : Site) : Prop := site.writesConstName = true ∨ site.WritesConstMember

theorem ofMember_of_writesConstMember {site : Site} (writes : site.WritesConstMember) :
    site.ofMember = true := by
  unfold WritesConstMember at writes
  split at writes
  · rfl
  · rfl
  · exact writes.elim

/-- An assignment to a name whose symbol is marked as constant. -/
def IsMarked : Site → Prop
  | .target _ _ e s => ∃ name sym, identName e = some name ∧
      lookupScopes s.scopes name = some sym ∧ sym.isConst = true
  | _ => False

theorem not_isMarked_of_passes {site : Site} (passes : site.Passes) : ¬site.IsMarked := by
  intro marked
  cases site with
  | target ctx op e s =>
    obtain ⟨name, sym, isName, found, isConst⟩ := marked
    rw [passes name sym isName found] at isConst
    cases isConst
  | named | called | assigned | operand => exact marked

end Site

/-- No constant is written to. -/
def ConstsKept (prog : Program) : Prop :=
  ∀ site ∈ sitesOf .checked prog ++ sitesOf .initialisers prog, ¬site.WritesConst

/-- The only writes to constants are assignments to names whose symbols are marked, and
there are none in initialiser lists. -/
def OnlyMarked (prog : Program) : Prop :=
  (∀ site ∈ sitesOf .checked prog, site.WritesConst → site.IsMarked) ∧
    ∀ site ∈ sitesOf .initialisers prog, ¬site.WritesConst

/-- `const int MAX = 100; int n = 1; n = 2`. -/
def limited : Program where
  decls := []
  stmts :=
    [.varDecl ⟨1, 1⟩ { name := "int", isConst := true } false false
        [.mk "MAX" (some (.intLit (-1) 100))],
      .varDecl ⟨2, 1⟩ { name := "int" } false false [.mk "n" (some (.intLit (-1) 1))],
      .expr (.assign (-1) .assign (.ident (-1) "n") (.intLit (-1) 2))]

/-- `const int MAX = 100; MAX++`. -/
def incremented : Program where
  decls := []
  stmts :=
    [.varDecl ⟨1, 1⟩ { name := "int", isConst := true } false false
        [.mk "MAX" (some (.intLit (-1) 100))],
      .expr (.unary (-1) .inc (.ident (-1) "MAX") false)]

end Dux.Sema
