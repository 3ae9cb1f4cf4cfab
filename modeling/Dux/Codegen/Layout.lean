import Dux.Sema.Hoist

/-!
# Class layouts and enum types

The first traversal of `Codegen` (`src/codegen/codegen.cpp`): it lays out the
classes and registers the enums of a program in a type registry of its own,
which starts out with the built-in types only.
-/

namespace Dux.Codegen

/-- `FieldInfo`: a field of the LLVM struct; index 0 is the vtable pointer. -/
structure FieldInfo where
  name : String
  type : TypeId
  index : Nat
  decl : FieldDecl

structure MethodInfo where
  name : String
  vtableSlot : Nat
  modifier : String

/-- `ClassLayout`: inherited fields come first, methods are the class's own. -/
structure ClassLayout where
  className : String
  parentName : String := ""
  fields : List FieldInfo := []
  methods : List MethodInfo := []

/-- The members of `Codegen` that the first traversal fills.  Newer entries of
the two maps stand in front of those they overwrite. -/
structure Layouts where
  types : TypeRegistry := .initial
  layouts : List (String × ClassLayout) := []
  enumTypes : List (String × TypeId) := []

def buildEnumType (ls : Layouts) (e : EnumDecl) : Layouts :=
  let (id, types) := ls.types.intern e.name .enum
  let types := types.modifyInfo id fun ti =>
    { ti with variants := Sema.enumVariants types 0 e.variants }
  { ls with types := types, enumTypes := (e.name, id) :: ls.enumTypes }

/-- The layout inherited from the first base that has one. -/
def inheritLayout (layouts : List (String × ClassLayout)) : List String → String × List FieldInfo
  | [] => ("", [])
  | base :: bases =>
      match layouts.lookup base with
      | none => inheritLayout layouts bases
      | some parent => (base, parent.fields)

/-- The class's own fields behind those before them; static ones are globals. -/
def ownFields (types : TypeRegistry) : List FieldInfo → List ClassMember → List FieldInfo
  | fields, [] => fields
  | fields, .func _ :: ms => ownFields types fields ms
  | fields, .field f :: ms =>
      if f.isStatic then ownFields types fields ms
      else
        ownFields types
          (fields ++ [{ name := f.name, type := types.fromTypeExpr f.type,
                        index := fields.length + 1, decl := f }]) ms

/-- The virtual methods from slot `slot` on. -/
def ownMethods : Nat → List ClassMember → List MethodInfo
  | _, [] => []
  | slot, .field _ :: ms => ownMethods slot ms
  | slot, .func f :: ms =>
      if !f.isCtor && !f.isDtor && !f.isStatic then
        { name := f.name, vtableSlot := slot, modifier := f.modifier.getD "" } ::
          ownMethods (slot + 1) ms
      else ownMethods slot ms

def buildClassLayout (ls : Layouts) (c : ClassDecl) : Layouts :=
  let (parentName, inherited) := inheritLayout ls.layouts c.bases
  let layout : ClassLayout :=
    { className := c.name
      parentName := parentName
      fields := ownFields ls.types inherited c.members
      methods := ownMethods 0 c.members }
  { ls with types := (ls.types.intern c.name .cls).2, layouts := (c.name, layout) :: ls.layouts }

mutual

def buildLayout (ls : Layouts) : Decl → Layouts
  | .cls c => buildClassLayout ls c
  | .enum e => buildEnumType ls e
  | .namespaceDecl _ decls _ => buildLayouts ls decls
  | .func _ => ls
  | .iface _ => ls
  | .importDecl _ => ls
  | .packageDecl _ => ls
  | .externDecl _ => ls

def buildLayouts (ls : Layouts) : List Decl → Layouts
  | [] => ls
  | d :: ds => buildLayouts (buildLayout ls d) ds

end

def layoutsOf (prog : Program) : Layouts := buildLayouts {} prog.decls

end Dux.Codegen
