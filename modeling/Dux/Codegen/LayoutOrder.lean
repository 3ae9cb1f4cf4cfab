import Dux.Codegen.Construct
import Dux.Codegen.Emit
import Dux.Codegen.Lowering
import Dux.Codegen.TypeIds
import Mathlib.Data.List.Induction

/-!
# Layouts and the order of declarations

`build_layouts` (`src/codegen/codegen.cpp`) goes through the declarations once,
in textual order, and copies into a layout what is known of the parent and of
the field types at that moment.  Here its results for all orders of the same
declarations are compared.
-/

namespace Dux.Codegen

open Logic (keys internAll)

/-- A declaration that `build_layouts` looks at. -/
inductive Laid
  | cls (c : ClassDecl)
  | enum (e : EnumDecl)

def Laid.name : Laid → String
  | .cls c => c.name
  | .enum e => e.name

/-- What the registry is asked for. -/
def Laid.request : Laid → String × TypeKind
  | .cls c => (c.name, .cls)
  | .enum e => (e.name, .enum)

mutual

/-- The classes and enums of a declaration, in the order of `build_layouts`. -/
def laidOfDecl : Decl → List Laid
  | .cls c => [.cls c]
  | .enum e => [.enum e]
  | .namespaceDecl _ decls _ => laidOf decls
  | .func _ => []
  | .iface _ => []
  | .importDecl _ => []
  | .packageDecl _ => []
  | .externDecl _ => []

def laidOf : List Decl → List Laid
  | [] => []
  | d :: ds => laidOfDecl d ++ laidOf ds

end

/-- One step of `build_layouts`. -/
def Layouts.lay (ls : Layouts) : Laid → Layouts
  | .cls c => buildClassLayout ls c
  | .enum e => buildEnumType ls e

def layoutsIn (units : List Laid) : Layouts := units.foldl Layouts.lay {}

mutual

theorem buildLayout_eq_foldl (ls : Layouts) :
    ∀ d : Decl, buildLayout ls d = (laidOfDecl d).foldl Layouts.lay ls
  | .cls _ => rfl
  | .enum _ => rfl
  | .namespaceDecl _ decls _ => buildLayouts_eq_foldl ls decls
  | .func _ => rfl
  | .iface _ => rfl
  | .importDecl _ => rfl
  | .packageDecl _ => rfl
  | .externDecl _ => rfl

theorem buildLayouts_eq_foldl (ls : Layouts) :
    ∀ ds : List Decl, buildLayouts ls ds = (laidOf ds).foldl Layouts.lay ls
  | [] => rfl
  | d :: ds => by
      rw [buildLayouts, buildLayouts_eq_foldl (buildLayout ls d) ds, buildLayout_eq_foldl ls d,
        laidOf, List.foldl_append]

end

/-! ## What a layout says -/

def fieldsIn (units : List Laid) (cls : String) : List FieldInfo :=
  ((layoutsIn units).layouts.lookup cls).elim [] (·.fields)

/-- The fields `build_class_layout` gives a class. -/
def builtFields (ls : Layouts) (c : ClassDecl) : List FieldInfo :=
  ownFields ls.types (inheritLayout ls.layouts c.bases).2 c.members

/-- The elements of `struct_type`: the vtable pointer, then the fields. -/
def structBody (ls : Layouts) (c : ClassDecl) : List LlvmType :=
  .ptr :: (builtFields ls c).map fun f => lowerType ls.types f.type

/-- The struct types made along the way. -/
def structsFrom : Layouts → List Laid → List (String × List LlvmType)
  | _, [] => []
  | ls, .cls c :: us => (c.name, structBody ls c) :: structsFrom (buildClassLayout ls c) us
  | ls, .enum e :: us => structsFrom (buildEnumType ls e) us

def structIn (units : List Laid) (cls : String) : List LlvmType :=
  ((structsFrom {} units).lookup cls).getD []

/-- A field as the rest of code generation sees it: an unknown type has no name,
and a field is class-typed when its type has a layout. -/
structure FieldView where
  name : String
  index : Nat
  type : Option String
  classTyped : Bool
  deriving DecidableEq, Repr

/-- The view of a field once all layouts are built. -/
def viewOf (ls : Layouts) (f : FieldInfo) : FieldView where
  name := f.name
  index := f.index
  type := if f.type < 0 then none else some (ls.types.nameOf f.type)
  classTyped := decide (0 ≤ f.type) && hasLayout ls (ls.types.nameOf f.type)

/-- The fields of a class as the rest of code generation sees them. -/
def viewsIn (units : List Laid) (cls : String) : List FieldView :=
  (fieldsIn units cls).map (viewOf (layoutsIn units))

def classesIn (units : List Laid) : List ClassDecl :=
  units.filterMap fun
    | .cls c => some c
    | .enum _ => none

/-- What the layouts of one order promise: a class begins with what its parent
has, and a field name stands for one index. -/
structure SoundOrder (units : List Laid) : Prop where
  extend : ∀ c ∈ classesIn units, ∀ p, baseOf (classesIn units) c = some p →
    fieldsIn units p <+: fieldsIn units c.name ∧ structIn units p <+: structIn units c.name
  unique : ∀ c ∈ classesIn units, ∀ f ∈ fieldsIn units c.name, ∀ g ∈ fieldsIn units c.name,
    f.name = g.name → f.index = g.index

/-- Two orders give every class the same fields. -/
def SameLayouts (units units' : List Laid) : Prop :=
  ∀ c ∈ classesIn units, viewsIn units c.name = viewsIn units' c.name ∧
    structIn units c.name = structIn units' c.name

/-- Layouts are right in every order of the declarations, and the same. -/
def OrderFree (units : List Laid) : Prop :=
  ∀ units', units'.Perm units → SoundOrder units' ∧ SameLayouts units units'

/-- Whether a type name means the same in every registry. -/
def isFixedName (name : String) : Bool :=
  name = "ptr" || (TypeRegistry.initial.types.map (·.name)).contains name

/-- A class that no other declaration has a part in: its fields are not of the
classes and enums declared, its bases have no fields, and its own field names
differ. -/
structure StandsAlone (units : List Laid) (c : ClassDecl) : Prop where
  types : ∀ f ∈ ownFieldDecls c.members, ∀ u ∈ units, u.name = f.type.name →
    u.name = c.name ∨ isFixedName f.type.name = true
  bases : ∀ p ∈ classesIn units, p.name ∈ c.bases → p.name = c.name ∨ ownFieldDecls p.members = []
  names : ((ownFieldDecls c.members).map (·.name)).Nodup

/-! ## Own fields -/

section OwnFields

variable {types types' : TypeRegistry}

def fieldsFrom (types : TypeRegistry) : Nat → List FieldDecl → List FieldInfo
  | _, [] => []
  | i, f :: fs =>
      { name := f.name, type := types.fromTypeExpr f.type, index := i, decl := f } ::
        fieldsFrom types (i + 1) fs

theorem ownFields_eq (types : TypeRegistry) (fields : List FieldInfo) (ms : List ClassMember) :
    ownFields types fields ms =
      fields ++ fieldsFrom types (fields.length + 1) (ownFieldDecls ms) := by
  induction ms generalizing fields with
  | nil => exact (List.append_nil _).symm
  | cons m ms ih =>
      cases m with
      | func f => exact ih fields
      | field f =>
          simp only [ownFields, ownFieldDecls]
          by_cases isStatic : f.isStatic = true
          · rw [if_pos isStatic, if_pos isStatic]
            exact ih fields
          · rw [if_neg isStatic, if_neg isStatic, ih, List.length_append, List.append_assoc]
            rfl

@[simp]
theorem fieldsFrom_eq_nil_iff {i : Nat} {fs : List FieldDecl} :
    fieldsFrom types i fs = [] ↔ fs = [] := by
  cases fs <;> simp [fieldsFrom]

@[simp]
theorem length_fieldsFrom (i : Nat) (fs : List FieldDecl) :
    (fieldsFrom types i fs).length = fs.length := by
  induction fs generalizing i with
  | nil => rfl
  | cons f fs ih => simp [fieldsFrom, ih]

theorem map_type_fieldsFrom {β : Type} (g : TypeId → β) (i : Nat) (fs : List FieldDecl) :
    (fieldsFrom types i fs).map (fun f => g f.type) =
      fs.map fun f => g (types.fromTypeExpr f.type) := by
  induction fs generalizing i with
  | nil => rfl
  | cons f fs ih => simp [fieldsFrom, ih]

theorem map_name_fieldsFrom (types : TypeRegistry) (i : Nat) (fs : List FieldDecl) :
    (fieldsFrom types i fs).map (·.name) = fs.map (·.name) := by
  induction fs generalizing i with
  | nil => rfl
  | cons f fs ih => simp [fieldsFrom, ih]

theorem le_index_of_mem {i : Nat} {fs : List FieldDecl} {f : FieldInfo}
    (member : f ∈ fieldsFrom types i fs) : i ≤ f.index := by
  induction fs generalizing i with
  | nil => cases member
  | cons g gs ih =>
      rcases List.mem_cons.1 member with rfl | later
      · exact Nat.le_refl i
      · exact Nat.le_of_succ_le (ih later)

theorem fieldsFrom_congr {i : Nat} {fs : List FieldDecl}
    (same : ∀ f ∈ fs, types.fromTypeExpr f.type = types'.fromTypeExpr f.type) :
    fieldsFrom types i fs = fieldsFrom types' i fs := by
  induction fs generalizing i with
  | nil => rfl
  | cons f fs ih =>
      rw [fieldsFrom, fieldsFrom, same f List.mem_cons_self,
        ih fun g member => same g (List.mem_cons_of_mem _ member)]

theorem names_nodup_iff (types : TypeRegistry) (i : Nat) {fs : List FieldDecl} :
    (fs.map (·.name)).Nodup ↔ ∀ f ∈ fieldsFrom types i fs, ∀ g ∈ fieldsFrom types i fs,
      f.name = g.name → f.index = g.index := by
  constructor
  · intro distinct f inF g inG same
    rw [← map_name_fieldsFrom types i] at distinct
    rw [List.inj_on_of_nodup_map distinct inF inG same]
  · intro unique
    induction fs generalizing i with
    | nil => exact List.nodup_nil
    | cons f fs ih =>
        rw [List.map_cons, List.nodup_cons]
        constructor
        · intro again
          rw [← map_name_fieldsFrom types (i + 1)] at again
          obtain ⟨g, later, name⟩ := List.mem_map.1 again
          have index := unique _ List.mem_cons_self g (List.mem_cons_of_mem _ later) name.symm
          have := le_index_of_mem later
          dsimp only at index
          omega
        · exact ih (i + 1) fun g inG h inH =>
            unique g (List.mem_cons_of_mem _ inG) h (List.mem_cons_of_mem _ inH)

theorem builtFields_eq (ls : Layouts) (c : ClassDecl) :
    builtFields ls c = (inheritLayout ls.layouts c.bases).2 ++
      fieldsFrom ls.types ((inheritLayout ls.layouts c.bases).2.length + 1)
        (ownFieldDecls c.members) := ownFields_eq _ _ _

end OwnFields

/-! ## Looking up a layout -/

section Lookup

variable {units before after : List Laid} {c : ClassDecl} {name : String}

theorem lookup_lay (ls : Layouts) {u : Laid} (other : u.name ≠ name) :
    (ls.lay u).layouts.lookup name = ls.layouts.lookup name := by
  cases u with
  | cls c =>
      have differs : (name == c.name) = false := beq_false_of_ne (Ne.symm other)
      simp [Layouts.lay, buildClassLayout, List.lookup_cons, differs]
  | enum e => rfl

theorem lookup_foldl_lay (ls : Layouts) (fresh : name ∉ units.map Laid.name) :
    (units.foldl Layouts.lay ls).layouts.lookup name = ls.layouts.lookup name := by
  induction units generalizing ls with
  | nil => rfl
  | cons u us ih =>
      rw [List.map_cons, List.mem_cons, not_or] at fresh
      rw [List.foldl_cons, ih _ fresh.2, lookup_lay ls (Ne.symm fresh.1)]

theorem layoutsIn_append (before after : List Laid) :
    layoutsIn (before ++ after) = after.foldl Layouts.lay (layoutsIn before) := by
  rw [layoutsIn, List.foldl_append, layoutsIn]

theorem fieldsIn_split (before : List Laid) (fresh : c.name ∉ after.map Laid.name) :
    fieldsIn (before ++ .cls c :: after) c.name = builtFields (layoutsIn before) c := by
  rw [fieldsIn, layoutsIn_append, List.foldl_cons, lookup_foldl_lay _ fresh]
  simp [Layouts.lay, buildClassLayout, builtFields]

theorem lookup_structsFrom (ls : Layouts) (fresh : name ∉ before.map Laid.name) :
    (structsFrom ls (before ++ after)).lookup name =
      (structsFrom (before.foldl Layouts.lay ls) after).lookup name := by
  induction before generalizing ls with
  | nil => rfl
  | cons u us ih =>
      rw [List.map_cons, List.mem_cons, not_or] at fresh
      cases u with
      | cls c =>
          have differs : (name == c.name) = false := beq_false_of_ne fresh.1
          simp only [List.cons_append, structsFrom, List.lookup_cons, differs]
          exact ih _ fresh.2
      | enum e => exact ih _ fresh.2

theorem structIn_split (fresh : c.name ∉ before.map Laid.name) :
    structIn (before ++ .cls c :: after) c.name = structBody (layoutsIn before) c := by
  rw [structIn, lookup_structsFrom _ fresh]
  simp [structsFrom, layoutsIn]

theorem mem_classesIn : c ∈ classesIn units ↔ .cls c ∈ units := by
  rw [classesIn, List.mem_filterMap]
  constructor
  · rintro ⟨u, member, isClass⟩
    cases u with
    | cls c' =>
        cases isClass
        exact member
    | enum e => cases isClass
  · intro member
    exact ⟨.cls c, member, rfl⟩

theorem lookup_isSome_iff :
    ((layoutsIn units).layouts.lookup name).isSome ↔ name ∈ (classesIn units).map (·.name) := by
  induction units using List.reverseRecOn with
  | nil => simp [layoutsIn, classesIn]
  | append_singleton us u ih =>
      rw [layoutsIn_append, List.foldl_cons, List.foldl_nil]
      cases u with
      | enum e => simpa [Layouts.lay, buildEnumType, classesIn] using ih
      | cls c =>
          by_cases same : name = c.name
          · simp [Layouts.lay, buildClassLayout, classesIn, same]
          · rw [lookup_lay _ (Ne.symm same), ih]
            simp [classesIn, same]

end Lookup

/-! ## Type names along the way -/

section Names

variable {units units' : List Laid} {name : String}

theorem entries_layoutsIn (units : List Laid) :
    (layoutsIn units).types.entries =
      internAll TypeRegistry.initial.entries (units.map Laid.request) := by
  induction units using List.reverseRecOn with
  | nil => rfl
  | append_singleton us u ih =>
      rw [layoutsIn_append, List.foldl_cons, List.foldl_nil, List.map_append,
        Logic.internAll_append, ← ih]
      cases u with
      | cls c => exact entries_buildClassLayout _ c
      | enum e => exact entries_buildEnumType _ e

theorem hasBuiltins_layoutsIn (units : List Laid) :
    TypeRegistry.HasBuiltins (layoutsIn units).types := by
  rw [TypeRegistry.HasBuiltins, entries_layoutsIn]
  exact Logic.prefix_internAll

theorem keys_request (units : List Laid) :
    keys (units.map Laid.request) = units.map Laid.name := by
  rw [keys, List.map_map]
  exact List.map_congr_left fun u _ => by cases u <;> rfl

theorem isFixedName_iff :
    isFixedName name = true ↔ name = "ptr" ∨ name ∈ keys TypeRegistry.initial.entries := by
  rw [isFixedName, Bool.or_eq_true, decide_eq_true_iff, List.contains_iff_mem, keys,
    TypeRegistry.entries, List.map_map]
  rfl

theorem fromName_layoutsIn (fixed : isFixedName name = true ∨ name ∉ units.map Laid.name) :
    (layoutsIn units).types.fromName name = TypeRegistry.initial.fromName name := by
  unfold TypeRegistry.fromName
  by_cases isPtr : name = "ptr"
  · rw [if_pos isPtr, if_pos isPtr]
  · rw [if_neg isPtr, if_neg isPtr]
    have same : (layoutsIn units).types.byName name = TypeRegistry.initial.byName name := by
      rw [TypeRegistry.byName_eq_findIdx?, TypeRegistry.byName_eq_findIdx?]
      by_cases builtin : name ∈ keys TypeRegistry.initial.entries
      · obtain ⟨more, appended⟩ := hasBuiltins_layoutsIn units
        rw [← appended, Logic.keys_append, List.findIdx?_append]
        have found : ((keys TypeRegistry.initial.entries).findIdx? (· = name)).isSome := by
          rw [List.findIdx?_isSome, List.any_eq_true]
          exact ⟨name, builtin, by simp⟩
        obtain ⟨i, atI⟩ := Option.isSome_iff_exists.1 found
        rw [atI]
        rfl
      · have undeclared : name ∉ units.map Laid.name :=
          fixed.resolve_left fun isFixed => (isFixedName_iff.1 isFixed).elim isPtr builtin
        have absent : ∀ table : List (String × TypeKind), name ∉ keys table →
            (keys table).findIdx? (· = name) = none := by
          intro table notIn
          rw [List.findIdx?_eq_none_iff]
          intro key member
          exact decide_eq_false fun same => notIn (same ▸ member)
        rw [absent _ builtin, absent]
        rw [entries_layoutsIn, Logic.mem_keys_internAll, keys_request]
        exact fun member => member.elim builtin undeclared
    rw [same]

theorem fromName_nonneg (member : name ∈ units.map Laid.name) :
    0 ≤ (layoutsIn units).types.fromName name := by
  unfold TypeRegistry.fromName
  split
  · decide
  · cases found : (layoutsIn units).types.byName name with
    | some i => exact Int.natCast_nonneg i
    | none =>
        rw [TypeRegistry.byName_eq_findIdx?, List.findIdx?_eq_none_iff, entries_layoutsIn] at found
        have known : name ∈ keys (internAll TypeRegistry.initial.entries
            (units.map Laid.request)) := by
          rw [Logic.mem_keys_internAll, keys_request]
          exact Or.inr member
        exact absurd (found name known) (by simp)

theorem fromName_initial (notFixed : isFixedName name = false) :
    TypeRegistry.initial.fromName name = TypeRegistry.TID_UNKNOWN := by
  have neither := mt isFixedName_iff.2 (Bool.eq_false_iff.1 notFixed)
  rw [not_or] at neither
  unfold TypeRegistry.fromName
  rw [if_neg neither.1, TypeRegistry.byName_eq_findIdx?]
  have absent : (keys TypeRegistry.initial.entries).findIdx? (· = name) = none := by
    rw [List.findIdx?_eq_none_iff]
    exact fun key member => decide_eq_false fun same => neither.2 (same ▸ member)
  rw [absent]

theorem fromName_initial_lt (name : String) :
    TypeRegistry.initial.fromName name < TypeRegistry.initial.types.length := by
  unfold TypeRegistry.fromName
  split
  · decide
  · cases found : TypeRegistry.initial.byName name with
    | none => decide
    | some i =>
        have inRange := (List.findIdx?_eq_some_iff_findIdx_eq.1 found).1
        exact Int.ofNat_lt.2 inRange

theorem nameOf_layoutsIn (units units' : List Laid) {t : TypeId} (nonneg : 0 ≤ t)
    (builtin : t < TypeRegistry.initial.types.length) :
    (layoutsIn units).types.nameOf t = (layoutsIn units').types.nameOf t := by
  refine (TypeRegistry.sameType_of_builtin (hasBuiltins_layoutsIn units)
    (hasBuiltins_layoutsIn units') nonneg ?_).2
  rw [← Int.toNat_of_nonneg nonneg] at builtin
  exact Int.ofNat_lt.1 builtin

theorem lowerType_builtin (types types' : TypeRegistry) {t : Int}
    (builtin : t < TypeRegistry.initial.types.length) : lowerType types t = lowerType types' t := by
  have below : t < 12 := builtin
  by_cases negative : t < 0
  · have other : ∀ k : Int, 0 ≤ k → t ≠ k := fun k nonneg => by omega
    simp [lowerType, lowerUserType, other, Int.not_le.2 negative]
  · have cases : t = 0 ∨ t = 1 ∨ t = 2 ∨ t = 3 ∨ t = 4 ∨ t = 5 ∨ t = 6 ∨ t = 7 ∨ t = 8 ∨ t = 9 ∨
        t = 10 ∨ t = 11 := by omega
    rcases cases with rfl | rfl | rfl | rfl | rfl | rfl | rfl | rfl | rfl | rfl | rfl | rfl <;> rfl

end Names

/-! ## Classes that stand alone -/

section Alone

variable {units : List Laid} {c : ClassDecl}

/-- The fields a class has by itself. -/
abbrev aloneFields (c : ClassDecl) : List FieldInfo :=
  fieldsFrom TypeRegistry.initial 1 (ownFieldDecls c.members)

theorem inheritLayout_cases (layouts : List (String × ClassLayout)) (bases : List String) :
    inheritLayout layouts bases = ("", []) ∨ ∃ base ∈ bases, ∃ layout,
      layouts.lookup base = some layout ∧ inheritLayout layouts bases = (base, layout.fields) := by
  induction bases with
  | nil => exact Or.inl rfl
  | cons base bases ih =>
      cases found : layouts.lookup base with
      | none =>
          rcases ih with nothing | ⟨b, member, layout, has, eq⟩
          · exact Or.inl (by rw [inheritLayout, found]; exact nothing)
          · refine Or.inr ⟨b, List.mem_cons_of_mem _ member, layout, has, ?_⟩
            rw [inheritLayout, found]
            exact eq
      | some layout =>
          exact Or.inr ⟨base, List.mem_cons_self, layout, found, by rw [inheritLayout, found]⟩

/-- The layouts so far are those the classes have by themselves. -/
def AllAlone (units : List Laid) : Prop :=
  ∀ name layout, (layoutsIn units).layouts.lookup name = some layout →
    ∃ p ∈ classesIn units, p.name = name ∧ layout.fields = aloneFields p

theorem builtFields_alone {before after : List Laid}
    (alone : StandsAlone (before ++ .cls c :: after) c) (fresh : c.name ∉ before.map Laid.name)
    (soFar : AllAlone before) : builtFields (layoutsIn before) c = aloneFields c := by
  have inherited : (inheritLayout (layoutsIn before).layouts c.bases).2 = [] := by
    rcases inheritLayout_cases (layoutsIn before).layouts c.bases with
      nothing | ⟨base, isBase, layout, found, eq⟩
    · rw [nothing]
    · obtain ⟨p, isClass, rfl, fields⟩ := soFar base layout found
      have there := mem_classesIn.1 isClass
      have differs : p.name ≠ c.name := fun same =>
        fresh (same ▸ List.mem_map_of_mem (f := Laid.name) there)
      have member := mem_classesIn.2 (List.mem_append_left (.cls c :: after) there)
      rw [eq, fields, aloneFields, (alone.bases p member isBase).resolve_left differs]
      rfl
  rw [builtFields_eq, inherited]
  refine fieldsFrom_congr fun f isField => fromName_layoutsIn ?_
  by_contra neither
  rw [not_or, not_not] at neither
  obtain ⟨u, member, name⟩ := List.mem_map.1 neither.2
  rcases alone.types f isField u (List.mem_append_left _ member) name with same | isFixed
  · exact fresh (same ▸ List.mem_map_of_mem member)
  · exact neither.1 isFixed

theorem allAlone {before : List Laid} (after : List Laid) (names : (units.map Laid.name).Nodup)
    (alone : ∀ c ∈ classesIn units, StandsAlone units c) (split : units = before ++ after) :
    AllAlone before := by
  induction before using List.reverseRecOn generalizing after with
  | nil =>
      intro name layout found
      cases found
  | append_singleton us u ih =>
      have soFar := ih (u :: after) (by simp [split])
      intro name layout found
      rw [layoutsIn_append, List.foldl_cons, List.foldl_nil] at found
      have earlier : (layoutsIn us).layouts.lookup name = some layout →
          ∃ p ∈ classesIn (us ++ [u]), p.name = name ∧ layout.fields = aloneFields p := by
        intro old
        obtain ⟨p, isClass, same⟩ := soFar name layout old
        exact ⟨p, mem_classesIn.2 (List.mem_append_left _ (mem_classesIn.1 isClass)), same⟩
      cases u with
      | enum e => exact earlier found
      | cls c =>
          by_cases here : c.name = name
          · have split' : units = us ++ .cls c :: after := by simp [split]
            have isClass : c ∈ classesIn units := mem_classesIn.2 (by simp [split'])
            have own := alone c isClass
            rw [split'] at own names
            rw [List.map_append, List.nodup_append] at names
            have fresh : c.name ∉ us.map Laid.name := fun member =>
              names.2.2 _ member _ (by simp [Laid.name]) rfl
            refine ⟨c, mem_classesIn.2 (by simp), here, ?_⟩
            rw [← builtFields_alone own fresh soFar]
            simp only [Layouts.lay, buildClassLayout, ← here, List.lookup_cons_self,
              Option.some.injEq] at found
            rw [← found]
            rfl
          · rw [lookup_lay _ (u := .cls c) here] at found
            exact earlier found

theorem fieldsIn_alone (names : (units.map Laid.name).Nodup)
    (alone : ∀ c ∈ classesIn units, StandsAlone units c) (isClass : c ∈ classesIn units) :
    fieldsIn units c.name = aloneFields c ∧
      structIn units c.name =
        .ptr :: (aloneFields c).map fun f => lowerType TypeRegistry.initial f.type := by
  have own := alone c isClass
  obtain ⟨before, after, split⟩ := List.append_of_mem (mem_classesIn.1 isClass)
  have soFar := allAlone _ names alone split
  rw [split] at own names ⊢
  rw [List.map_append, List.nodup_append, List.map_cons, List.nodup_cons] at names
  have fresh : c.name ∉ before.map Laid.name := fun member =>
    names.2.2 _ member _ List.mem_cons_self rfl
  have built := builtFields_alone own fresh soFar
  rw [fieldsIn_split before names.2.1.1, structIn_split fresh, structBody, built]
  refine ⟨rfl, congrArg _ ?_⟩
  rw [map_type_fieldsFrom, map_type_fieldsFrom]
  exact List.map_congr_left fun f _ => lowerType_builtin _ _ (fromName_initial_lt _)

theorem StandsAlone.perm {units' : List Laid} (perm : units'.Perm units)
    (alone : StandsAlone units c) : StandsAlone units' c where
  types f isField u member := alone.types f isField u (perm.mem_iff.1 member)
  bases p isClass := alone.bases p
    (mem_classesIn.2 (perm.mem_iff.1 (mem_classesIn.1 isClass)))
  names := alone.names

theorem soundOrder_of_alone (names : (units.map Laid.name).Nodup)
    (alone : ∀ c ∈ classesIn units, StandsAlone units c) : SoundOrder units := by
  constructor
  · intro c isClass p isBase
    obtain ⟨inBases, base⟩ := baseOf_spec isBase
    obtain ⟨p', isClass', rfl⟩ := List.mem_map.1 base
    rcases (alone c isClass).bases p' isClass' inBases with same | none
    · rw [same]
      exact ⟨List.prefix_rfl, List.prefix_rfl⟩
    · obtain ⟨fields, struct⟩ := fieldsIn_alone names alone isClass'
      rw [fields, struct, (fieldsIn_alone names alone isClass).2, aloneFields, none]
      exact ⟨List.nil_prefix, List.prefix_append [_] _⟩
  · intro c isClass
    rw [(fieldsIn_alone names alone isClass).1]
    exact (names_nodup_iff _ _).1 (alone c isClass).names

theorem viewOf_alone {units' : List Laid} (perm : units'.Perm units) {f : FieldInfo}
    (isField : f ∈ aloneFields c) : viewOf (layoutsIn units) f = viewOf (layoutsIn units') f := by
  have builtin : f.type < TypeRegistry.initial.types.length := by
    have types : f.type ∈ (aloneFields c).map fun f => id f.type := List.mem_map_of_mem isField
    rw [map_type_fieldsFrom] at types
    obtain ⟨g, _, same⟩ := List.mem_map.1 types
    rw [← same]
    exact fromName_initial_lt _
  unfold viewOf
  by_cases unknown : f.type < 0
  · have notNonneg : ¬0 ≤ f.type := Int.not_le.2 unknown
    simp [unknown, notNonneg]
  · have nonneg := Int.not_lt.1 unknown
    have layouts : ∀ name,
        hasLayout (layoutsIn units) name = hasLayout (layoutsIn units') name := by
      intro name
      rw [Bool.eq_iff_iff, hasLayout, hasLayout, lookup_isSome_iff, lookup_isSome_iff]
      exact ((perm.symm.filterMap _).map _).mem_iff
    rw [nameOf_layoutsIn units units' nonneg builtin, layouts]

theorem orderFree_of_alone (names : (units.map Laid.name).Nodup)
    (alone : ∀ c ∈ classesIn units, StandsAlone units c) : OrderFree units := by
  intro units' perm
  have names' : (units'.map Laid.name).Nodup := (perm.map _).nodup_iff.2 names
  have mem' : ∀ {c}, c ∈ classesIn units' ↔ c ∈ classesIn units := fun {c} => by
    rw [mem_classesIn, mem_classesIn, perm.mem_iff]
  have alone' : ∀ c ∈ classesIn units', StandsAlone units' c := fun c isClass =>
    (alone c (mem'.1 isClass)).perm perm
  refine ⟨soundOrder_of_alone names' alone', fun c isClass => ?_⟩
  obtain ⟨fields, struct⟩ := fieldsIn_alone names alone isClass
  obtain ⟨fields', struct'⟩ := fieldsIn_alone names' alone' (mem'.2 isClass)
  rw [viewsIn, viewsIn, fields, fields', struct, struct']
  exact ⟨List.map_congr_left fun f isField => viewOf_alone perm isField, rfl⟩

end Alone

/-! ## What two orders tell about a class -/

section TwoOrders

variable {units rest : List Laid} {c : ClassDecl} {u : Laid}

theorem builtFields_first (c : ClassDecl) : builtFields {} c = aloneFields c := by
  rw [builtFields_eq]
  rcases inheritLayout_cases ({} : Layouts).layouts c.bases with nothing | ⟨_, _, _, found, _⟩
  · rw [nothing]
    rfl
  · cases found

theorem inheritLayout_single {p : ClassDecl} {bases : List String} (inBases : p.name ∈ bases) :
    (inheritLayout (layoutsIn [.cls p]).layouts bases).2 = aloneFields p := by
  have laid : (layoutsIn [.cls p]).layouts.lookup p.name = some
      { className := p.name, parentName := (inheritLayout [] p.bases).1,
        fields := builtFields {} p, methods := ownMethods 0 p.members } := by
    simp [layoutsIn, Layouts.lay, buildClassLayout, builtFields]
  induction bases with
  | nil => cases inBases
  | cons base bases ih =>
      by_cases here : base = p.name
      · rw [inheritLayout, here, laid]
        exact builtFields_first p
      · have other : (layoutsIn [.cls p]).layouts.lookup base = none := by
          rw [layoutsIn, List.foldl_cons, List.foldl_nil, lookup_lay _ (Ne.symm here)]
          rfl
        rw [inheritLayout, other]
        exact ih ((List.mem_cons.1 inBases).resolve_left (Ne.symm here))

theorem fieldsIn_first (names : ((.cls c :: rest).map Laid.name).Nodup) :
    fieldsIn (.cls c :: rest) c.name = aloneFields c := by
  rw [List.map_cons, List.nodup_cons] at names
  exact (fieldsIn_split [] names.1).trans (builtFields_first c)

theorem fieldsIn_second (names : ((u :: .cls c :: rest).map Laid.name).Nodup) :
    fieldsIn (u :: .cls c :: rest) c.name = builtFields (layoutsIn [u]) c := by
  rw [List.map_cons, List.map_cons, List.nodup_cons, List.nodup_cons] at names
  exact fieldsIn_split [u] names.2.1

theorem agree_second {units₁ units₂ : List Laid}
    (same : (aloneFields c).map (viewOf (layoutsIn units₁)) =
      (builtFields (layoutsIn [u]) c).map (viewOf (layoutsIn units₂))) :
    (inheritLayout (layoutsIn [u]).layouts c.bases).2 = [] ∧
      ∀ f ∈ ownFieldDecls c.members, TypeRegistry.initial.fromTypeExpr f.type < 0 ↔
        (layoutsIn [u]).types.fromTypeExpr f.type < 0 := by
  have nothing : (inheritLayout (layoutsIn [u]).layouts c.bases).2 = [] := by
    have lengths := congrArg List.length same
    rw [builtFields_eq, List.length_map, List.length_map, List.length_append, length_fieldsFrom,
      length_fieldsFrom] at lengths
    exact List.eq_nil_of_length_eq_zero (by omega)
  refine ⟨nothing, fun f isField => ?_⟩
  have unknown : ∀ (ls : Layouts) (f : FieldInfo),
      (viewOf ls f).type.isNone = decide (f.type < 0) := by
    intro ls f
    by_cases negative : f.type < 0 <;> simp [viewOf, negative]
  have types := congrArg (List.map fun v => v.type.isNone) same
  rw [List.map_map, List.map_map, builtFields_eq, nothing, List.nil_append] at types
  simp only [Function.comp_def, unknown] at types
  rw [map_type_fieldsFrom (fun t => decide (t < 0)), map_type_fieldsFrom (fun t => decide (t < 0)),
    List.map_inj_left] at types
  exact decide_eq_decide.1 (types f isField)

theorem standsAlone_of_orderFree (names : (units.map Laid.name).Nodup) (free : OrderFree units)
    (isClass : c ∈ classesIn units) : StandsAlone units c := by
  obtain ⟨before, after, rfl⟩ := List.append_of_mem (mem_classesIn.1 isClass)
  -- the class in front of all others
  have front : (Laid.cls c :: (before ++ after)).Perm (before ++ .cls c :: after) :=
    List.perm_middle.symm
  have fields₁ := fieldsIn_first ((front.map _).nodup_iff.2 names)
  obtain ⟨sound₁, same₁⟩ := free _ front
  -- the class behind one other declaration
  have second : ∀ u ∈ before ++ .cls c :: after, u.name ≠ c.name →
      (inheritLayout (layoutsIn [u]).layouts c.bases).2 = [] ∧
        ∀ f ∈ ownFieldDecls c.members, TypeRegistry.initial.fromTypeExpr f.type < 0 ↔
          (layoutsIn [u]).types.fromTypeExpr f.type < 0 := by
    intro u member differs
    have inRest : u ∈ before ++ after := by
      rcases List.mem_append.1 member with inBefore | later
      · exact List.mem_append_left _ inBefore
      · rcases List.mem_cons.1 later with rfl | inAfter
        · exact absurd rfl differs
        · exact List.mem_append_right _ inAfter
    obtain ⟨left, right, split⟩ := List.append_of_mem inRest
    have perm : (u :: .cls c :: (left ++ right)).Perm (before ++ .cls c :: after) := by
      refine (List.Perm.swap _ _ _).trans (List.Perm.trans ?_ front)
      rw [split]
      exact (List.perm_middle.symm).cons _
    have fields₂ := fieldsIn_second ((perm.map _).nodup_iff.2 names)
    obtain ⟨_, same₂⟩ := free _ perm
    have views := (same₁ c isClass).1.symm.trans (same₂ c isClass).1
    rw [viewsIn, viewsIn, fields₁, fields₂] at views
    exact agree_second views
  constructor
  · intro f isField u member name
    by_contra neither
    rw [not_or] at neither
    have unknown := (second u member neither.1).2 f isField
    have notFixed := Bool.eq_false_iff.2 neither.2
    have declared : f.type.name ∈ [u].map Laid.name := by simp [name]
    have known := fromName_nonneg declared
    exact absurd (unknown.1 (by
      rw [TypeRegistry.fromTypeExpr, fromName_initial notFixed]
      decide)) (Int.not_lt.2 known)
  · intro p isClass' inBases
    refine or_iff_not_imp_left.2 fun differs => ?_
    have nothing := (second (.cls p) (mem_classesIn.1 isClass') differs).1
    rw [inheritLayout_single inBases] at nothing
    exact fieldsFrom_eq_nil_iff.1 nothing
  · apply (names_nodup_iff TypeRegistry.initial 1).2
    have unique := sound₁.unique c (mem_classesIn.2 List.mem_cons_self)
    rwa [fields₁] at unique

/-- A class with a field, and a class that extends it. -/
def derivedFirst : List Laid :=
  [.cls {
     name := "B", bases := ["A"], members := [.field { type := { name := "int" }, name := "y" }] },
   .cls { name := "A", members := [.field { type := { name := "int" }, name := "x" }] }]

end TwoOrders

/-! ## One order -/

section OneOrder

variable {units before after : List Laid} {c : ClassDecl} {p : String}

theorem inheritLayout_of_find? {classes : List ClassDecl} {layouts : List (String × ClassLayout)}
    {bases : List String} {layout : ClassLayout}
    (known : ∀ name layout, layouts.lookup name = some layout → name ∈ classes.map (·.name))
    (isBase : bases.find? (fun base => classes.any (·.name = base)) = some p)
    (found : layouts.lookup p = some layout) :
    inheritLayout layouts bases = (p, layout.fields) := by
  induction bases with
  | nil => cases isBase
  | cons base bases ih =>
      by_cases isClass : classes.any (·.name = base) = true
      · simp only [List.find?_cons, isClass, Option.some.injEq] at isBase
        rw [← isBase] at found ⊢
        rw [inheritLayout, found]
      · simp only [List.find?_cons, Bool.eq_false_iff.2 isClass] at isBase
        have unknown : layouts.lookup base = none := by
          cases other : layouts.lookup base with
          | none => rfl
          | some layout' =>
              refine absurd (List.any_eq_true.2 ?_) isClass
              obtain ⟨q, isClass', name⟩ := List.mem_map.1 (known base layout' other)
              exact ⟨q, isClass', by simpa using name⟩
        rw [inheritLayout, unknown]
        exact ih isBase

end OneOrder

end Dux.Codegen
