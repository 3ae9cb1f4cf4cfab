import Dux.Generics.Expand
import Dux.Logic.Joined

/-!
# Names of instances

`mangle_generic` writes the identifiers of an instance one behind the other, each behind two
underscores.  The name does not say how the arguments are nested, nor does it mention
namespaces, `const` or the signatures of function types, and identifiers may contain
underscores themselves.
-/

namespace Dux.Generics

open Dux.Joined

mutual

def identifiers : TypeExpr → List String
  | ⟨name, _, _, _, typeArgs⟩ => name :: identifiersOf typeArgs

def identifiersOf : List TypeExpr → List String
  | [] => []
  | te :: tes => identifiers te ++ identifiersOf tes

end

def words (name : String) : List (List Char) := name.toList.splitOn '_'

/-- No two adjacent underscores, and none at the end. -/
def RegularName (name : String) : Prop := Regular '_' name.toList

/-- A template, by its name and the namespaces around it, and its arguments. -/
structure Instantiation where
  path : List String
  template : String
  typeArgs : List TypeExpr

mutual

/-- What the name of an instance can still show of an argument. -/
def eraseTe : TypeExpr → TypeExpr
  | ⟨name, _, _, _, typeArgs⟩ => ⟨name, false, [], "", eraseTes typeArgs⟩

def eraseTes : List TypeExpr → List TypeExpr
  | [] => []
  | te :: tes => eraseTe te :: eraseTes tes

end

mutual

/-- Every name has its number of arguments. -/
def Sized (arity : String → Nat) : TypeExpr → Prop
  | ⟨name, _, _, _, typeArgs⟩ => arity name = typeArgs.length ∧ SizedAll arity typeArgs

def SizedAll (arity : String → Nat) : List TypeExpr → Prop
  | [] => True
  | te :: tes => Sized arity te ∧ SizedAll arity tes

end

namespace Instantiation

/-- The name that `fix_te` puts for an instance. -/
def mangled (i : Instantiation) : String :=
  (fixTe ⟨i.template, false, [], "", i.typeArgs⟩).1.name

/-- The words of the identifiers, with an empty word between neighbours. -/
def words (i : Instantiation) : List (List Char) :=
  Generics.words i.template ++
    (identifiersOf i.typeArgs).flatMap fun name => [] :: Generics.words name

/-- An instance without namespaces, `const` and signatures. -/
def erase (i : Instantiation) : String × List TypeExpr := (i.template, eraseTes i.typeArgs)

/-- The instance has arguments, in number as its template asks, and only regular names. -/
structure WellFormed (arity : String → Nat) (i : Instantiation) : Prop where
  args : i.typeArgs ≠ []
  sized : arity i.template = i.typeArgs.length ∧ SizedAll arity i.typeArgs
  template : RegularName i.template
  regular : ∀ name ∈ identifiersOf i.typeArgs, RegularName name

/-- Two different instances have different names, and no declaration has the name of the
first. -/
structure Distinct (p q : Instantiation) (declared : String) : Prop where
  injective : p ≠ q → p.mangled ≠ q.mangled
  fresh : p.mangled ≠ declared

end Instantiation

/-! ## What the walk makes of nested instances -/

mutual

theorem fixTe_name : ∀ te, (fixTe te).1.name = mangleArg te ∧ (fixTe te).1.typeArgs = []
  | ⟨name, _, _, _, typeArgs⟩ => by
      have args := mangleArgs_fixTes typeArgs
      cases typeArgs with
      | nil => simp [fixTe, fixTes, mangleArg]
      | cons a as => simp [fixTe, mangleArg, mangleGeneric, args]

theorem mangleArgs_fixTes : ∀ tes, mangleArgs (fixTes tes).1 = mangleArgs tes
  | [] => rfl
  | te :: tes => by
      have head := fixTe_name te
      have tail := mangleArgs_fixTes tes
      cases fixed : (fixTe te).1 with
      | mk name isConst fnParams fnRet typeArgs =>
        rw [fixed] at head
        obtain ⟨rfl, rfl⟩ := head
        simp [fixTes, mangleArgs, fixed, mangleArg, tail]

end

/-! ## Names as joined identifiers -/

mutual

theorem mangleArg_toList : ∀ te, (mangleArg te).toList =
    te.name.toList ++ joined '_' ((identifiersOf te.typeArgs).map String.toList)
  | ⟨name, _, _, _, typeArgs⟩ => by
      have args := mangleArgs_toList typeArgs
      cases typeArgs with
      | nil => simp [mangleArg, identifiersOf]
      | cons a as => simp [mangleArg, args]

theorem mangleArgs_toList : ∀ tes, (mangleArgs tes).toList =
    joined '_' ((identifiersOf tes).map String.toList)
  | [] => rfl
  | te :: tes => by
      have head := mangleArg_toList te
      have tail := mangleArgs_toList tes
      cases te with
      | mk name isConst fnParams fnRet typeArgs =>
        simp [mangleArgs, identifiersOf, identifiers, joined_append, head, tail]

end

namespace Instantiation

theorem mangled_eq (i : Instantiation) : i.mangled = mangleGeneric i.template i.typeArgs := by
  rw [mangled, (fixTe_name _).1, mangleArg, mangleGeneric]
  cases i.typeArgs with
  | nil => simp [mangleArgs]
  | cons a as => simp

theorem mangled_toList (i : Instantiation) : i.mangled.toList =
    i.template.toList ++ joined '_' ((identifiersOf i.typeArgs).map String.toList) := by
  rw [mangled_eq, mangleGeneric, String.toList_append, mangleArgs_toList]

theorem words_mangled (i : Instantiation) : Generics.words i.mangled = i.words := by
  rw [Generics.words, mangled_toList, splitOn_append_joined, words, List.flatMap_map]
  rfl

end Instantiation

theorem words_inj {name name' : String} : words name = words name' ↔ name = name' := by
  constructor
  · intro eq
    have joins := congrArg (List.intercalate ['_']) eq
    rw [words, words, List.intercalate_splitOn, List.intercalate_splitOn] at joins
    exact String.toList_inj.1 joins
  · exact congrArg _

/-! ## Reading the identifiers back -/

mutual

theorem identifiers_eraseTe : ∀ te, identifiers (eraseTe te) = identifiers te
  | ⟨_, _, _, _, typeArgs⟩ => by rw [eraseTe, identifiers, identifiers, identifiersOf_eraseTes]

theorem identifiersOf_eraseTes : ∀ tes, identifiersOf (eraseTes tes) = identifiersOf tes
  | [] => rfl
  | te :: tes => by
      rw [eraseTes, identifiersOf, identifiersOf, identifiers_eraseTe, identifiersOf_eraseTes]

end

section Reading

variable {arity : String → Nat}

mutual

theorem identifiers_append_inj : ∀ {te te' : TypeExpr} {rest rest' : List String},
    Sized arity te → Sized arity te' → identifiers te ++ rest = identifiers te' ++ rest' →
      eraseTe te = eraseTe te' ∧ rest = rest'
  | ⟨name, _, _, _, typeArgs⟩, ⟨name', _, _, _, typeArgs'⟩, rest, rest', sized, sized', eq => by
      rw [Sized] at sized sized'
      rw [identifiers, identifiers, List.cons_append, List.cons_append, List.cons.injEq] at eq
      obtain ⟨rfl, eq⟩ := eq
      have args := identifiersOf_append_inj sized.2 sized'.2 (sized.1.symm.trans sized'.1) eq
      rw [eraseTe, eraseTe, args.1]
      exact ⟨rfl, args.2⟩

theorem identifiersOf_append_inj : ∀ {tes tes' : List TypeExpr} {rest rest' : List String},
    SizedAll arity tes → SizedAll arity tes' → tes.length = tes'.length →
      identifiersOf tes ++ rest = identifiersOf tes' ++ rest' →
        eraseTes tes = eraseTes tes' ∧ rest = rest'
  | [], [], _, _, _, _, _, eq => ⟨rfl, eq⟩
  | [], _ :: _, _, _, _, _, length, _ => by cases length
  | _ :: _, [], _, _, _, _, length, _ => by cases length
  | te :: tes, te' :: tes', rest, rest', sized, sized', length, eq => by
      rw [SizedAll] at sized sized'
      rw [identifiersOf, identifiersOf, List.append_assoc, List.append_assoc] at eq
      have head := identifiers_append_inj sized.1 sized'.1 eq
      have tail := identifiersOf_append_inj sized.2 sized'.2 (Nat.succ.inj length) head.2
      rw [eraseTes, eraseTes, head.1, tail.1]
      exact ⟨rfl, tail.2⟩

end

end Reading

namespace Instantiation

variable {arity : String → Nat} {p q : Instantiation} {declared : String}

/-- Well-formed instances have one name exactly if they differ at most in what is erased. -/
theorem mangled_inj (wf : p.WellFormed arity) (wf' : q.WellFormed arity) :
    p.mangled = q.mangled ↔ p.erase = q.erase := by
  have regular {i : Instantiation} (wf : i.WellFormed arity) :
      ∀ word ∈ (identifiersOf i.typeArgs).map String.toList, Regular '_' word := by
    intro word isIn
    obtain ⟨name, isName, rfl⟩ := List.mem_map.1 isIn
    exact wf.regular name isName
  have letters : Function.Injective String.toList := fun _ _ => String.toList_inj.1
  constructor
  · intro eq
    have chars := congrArg String.toList eq
    rw [mangled_toList, mangled_toList] at chars
    obtain ⟨template, args⟩ := append_joined_inj wf.template wf'.template chars
    have template : p.template = q.template := String.toList_inj.1 template
    have args : identifiersOf p.typeArgs = identifiersOf q.typeArgs :=
      letters.list_map ((joined_inj (regular wf) (regular wf')).1 args)
    have length : p.typeArgs.length = q.typeArgs.length := by
      rw [← wf.sized.1, ← wf'.sized.1, template]
    have erased := identifiersOf_append_inj wf.sized.2 wf'.sized.2 length
      (congrArg (· ++ ([] : List String)) args)
    rw [erase, erase, template, erased.1]
  · intro eq
    obtain ⟨template, args⟩ := Prod.mk.inj eq
    refine String.toList_inj.1 ?_
    rw [mangled_toList, mangled_toList, template, ← identifiersOf_eraseTes p.typeArgs, args,
      identifiersOf_eraseTes]

theorem fresh_of_regular (args : p.typeArgs ≠ []) (regular : RegularName declared) :
    p.mangled ≠ declared := by
  rintro rfl
  rw [RegularName, mangled_toList] at regular
  refine not_regular_append_joined _ ?_ regular
  cases typeArgs : p.typeArgs with
  | nil => exact absurd typeArgs args
  | cons te tes =>
    cases te
    simp [identifiersOf, identifiers]

/-- Names are distinct exactly if the words are.  For regular names and templates that keep
their number of arguments this means that the instances differ in more than what is erased. -/
theorem distinct_iff (p q : Instantiation) (declared : String) :
    (p.Distinct q declared ↔ (p = q ∨ p.words ≠ q.words) ∧ p.words ≠ Generics.words declared) ∧
      ∀ arity, p.WellFormed arity → q.WellFormed arity → RegularName declared →
        (p.Distinct q declared ↔ p = q ∨ p.erase ≠ q.erase) := by
  constructor
  · rw [← words_mangled p, ← words_mangled q, ne_eq, ne_eq, words_inj, words_inj]
    constructor
    · intro distinct
      exact ⟨or_iff_not_imp_left.2 distinct.injective, distinct.fresh⟩
    · rintro ⟨injective, fresh⟩
      exact ⟨or_iff_not_imp_left.1 injective, fresh⟩
  · intro arity wf wf' regular
    rw [ne_eq, ← mangled_inj wf wf']
    constructor
    · exact fun distinct => or_iff_not_imp_left.2 distinct.injective
    · exact fun injective =>
        ⟨or_iff_not_imp_left.1 injective, fresh_of_regular wf.args regular⟩

def pairOf (name : String) : Instantiation :=
  ⟨[], "Pair", [{ name := "int" }, { name := "Box", typeArgs := [{ name := name }] }]⟩

/-- The numbers of parameters of `Pair` and `Box`. -/
def pairArity : String → Nat
  | "Pair" => 2
  | "Box" => 1
  | _ => 0

/-- `Pair<int, Box<str>>` and `Pair<int, Box<bool>>` beside a function `main`. -/
theorem distinct_pair : (pairOf "str").Distinct (pairOf "bool") "main" := by
  have wf (name : String) (plain : pairArity name = 0) (regular : RegularName name) :
      (pairOf name).WellFormed pairArity :=
    { args := List.cons_ne_nil _ _
      sized := ⟨rfl, ⟨rfl, trivial⟩, ⟨rfl, ⟨plain, trivial⟩, trivial⟩, trivial⟩
      template := show RegularName "Pair" from ⟨by decide, by decide⟩
      regular := by
        simp only [pairOf, identifiersOf, identifiers, List.append_nil, List.cons_append,
          List.nil_append, List.mem_cons, List.not_mem_nil, or_false]
        rintro _ (rfl | rfl | rfl)
        · exact ⟨by decide, by decide⟩
        · exact ⟨by decide, by decide⟩
        · exact regular }
  have regular : RegularName "main" := ⟨by decide, by decide⟩
  refine ((distinct_iff (pairOf "str") (pairOf "bool") "main").2 pairArity
    (wf "str" rfl ⟨by decide, by decide⟩) (wf "bool" rfl ⟨by decide, by decide⟩) regular).2
    (.inr ?_)
  simp [pairOf, erase, eraseTes, eraseTe]

/-- `class Box<T>` at `fn(int) -> int` and at `fn(str) -> str`: both are `Box____fn`. -/
theorem not_distinct : ¬∀ (p q : Instantiation) (declared : String),
    p.typeArgs ≠ [] → q.typeArgs ≠ [] → RegularName declared → p.Distinct q declared := by
  intro always
  have distinct := always
    ⟨[], "Box", [{ name := "__fn", fnParams := [{ name := "int" }], fnRet := "int" }]⟩
    ⟨[], "Box", [{ name := "__fn", fnParams := [{ name := "str" }], fnRet := "str" }]⟩ "main"
    (List.cons_ne_nil _ _) (List.cons_ne_nil _ _) ⟨by decide, by decide⟩
  exact distinct.injective (by simp) rfl

end Instantiation

end Dux.Generics
