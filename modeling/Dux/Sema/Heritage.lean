import Dux.Logic.Climb
import Dux.Sema.Events
import Mathlib.Data.Int.Interval
import Mathlib.Logic.Relation

/-!
# Declared bases and the parent slot

A type has one slot for a parent.  Hoisting a class fills it with the first of
its bases; checking the class (`check_class` of `src/sema/sema.cpp`) fills it with
every base that is known, one after the other, so that the last one stays.
Subtyping and the lookup of members follow this slot alone.
-/

namespace Dux

open TypeRegistry
open Logic (keys Moves)

namespace TypeRegistry

/-- The parent slot of a type; a type that is interned later starts below `object`. -/
def parentOf (r : TypeRegistry) (t : TypeId) : TypeId :=
  if t < 0 then TID_UNKNOWN else (r.types[t.toNat]?).elim TID_OBJECT (·.parent)

/-- A type that is in the table. -/
def Has (r : TypeRegistry) (t : TypeId) : Prop := 0 ≤ t ∧ t < r.types.length

/-- Parents are in the table, where there are any. -/
structure Sound (r : TypeRegistry) : Prop where
  builtin : builtins.length ≤ r.types.length
  parents : ∀ t, r.Has t → r.parentOf t = TID_UNKNOWN ∨ r.Has (r.parentOf t)

variable {r r' : TypeRegistry}

theorem Has.mono {t : TypeId} (has : r.Has t) (more : r.types.length ≤ r'.types.length) :
    r'.Has t := ⟨has.1, has.2.trans_le (by exact_mod_cast more)⟩

theorem Sound.has_object (sound : r.Sound) : r.Has TID_OBJECT :=
  ⟨by decide, lt_of_lt_of_le (by decide : (TID_OBJECT : Int) < builtins.length)
    (by exact_mod_cast sound.builtin)⟩

theorem parentOf_of_not_has {t : TypeId} (nonneg : 0 ≤ t) (not : ¬r.Has t) :
    r.parentOf t = TID_OBJECT := by
  have beyond : r.types.length ≤ t.toNat := by
    apply Nat.le_of_not_lt
    exact fun inside => not ⟨nonneg, (Int.toNat_lt nonneg).1 inside⟩
  rw [parentOf, if_neg (Int.not_lt.2 nonneg), List.getElem?_eq_none beyond]
  rfl

theorem parentOf_eq_of_table {added : List TypeId}
    (table : r'.types.map (·.parent) = r.types.map (·.parent) ++ added)
    (below : ∀ p ∈ added, p = TID_OBJECT) (t : TypeId) : r'.parentOf t = r.parentOf t := by
  unfold parentOf
  by_cases negative : t < 0
  · rw [if_pos negative, if_pos negative]
  · rw [if_neg negative, if_neg negative]
    have at' : (r'.types[t.toNat]?).map (·.parent) =
        (r.types.map (·.parent) ++ added)[t.toNat]? := by
      rw [← table, List.getElem?_map]
    by_cases inside : t.toNat < r.types.length
    · rw [List.getElem?_append_left (by simpa using inside), List.getElem?_map] at at'
      rw [List.getElem?_eq_getElem inside, Option.map_some] at at'
      obtain ⟨ti, found, same⟩ := Option.map_eq_some_iff.1 at'
      rw [found, List.getElem?_eq_getElem inside]
      exact same
    · rw [List.getElem?_eq_none (Nat.le_of_not_lt inside)]
      rw [List.getElem?_append_right (by simpa using inside)] at at'
      cases found : r'.types[t.toNat]? with
      | none => rfl
      | some ti =>
        rw [found] at at'
        exact below _ (List.mem_of_getElem? at'.symm)

theorem parentOf_intern (r : TypeRegistry) (name : String) (kind : TypeKind) (t : TypeId) :
    (r.intern name kind).2.parentOf t = r.parentOf t := by
  unfold TypeRegistry.intern
  split
  · rfl
  · have table : (r.types ++ [({ kind := kind, name := name, parent := TID_OBJECT } :
        TypeInfo)]).map (·.parent) = r.types.map (·.parent) ++ [TID_OBJECT] := List.map_append
    apply parentOf_eq_of_table table
    intro p member
    exact List.mem_singleton.1 member

theorem parentOf_modify {types : List TypeInfo} (i : Nat) {f : TypeInfo → TypeInfo}
    (keeps : ∀ ti, (f ti).parent = ti.parent) (t : TypeId) :
    (⟨types.modify i f⟩ : TypeRegistry).parentOf t = (⟨types⟩ : TypeRegistry).parentOf t := by
  have table : (types.modify i f).map (·.parent) = types.map (·.parent) ++ [] := by
    rw [List.append_nil, map_modify types i keeps]
  apply parentOf_eq_of_table table
  intro p member
  cases member

theorem parentOf_modifyInfo (r : TypeRegistry) (id : TypeId) {f : TypeInfo → TypeInfo}
    (keeps : ∀ ti, (f ti).parent = ti.parent) (t : TypeId) :
    (r.modifyInfo id f).parentOf t = r.parentOf t := by
  unfold modifyInfo
  split <;> exact parentOf_modify _ keeps t

theorem parentOf_addInterface (r : TypeRegistry) (cls iface t : TypeId) :
    (r.addInterface cls iface).parentOf t = r.parentOf t := by
  unfold addInterface
  split
  · apply parentOf_modify
    exact fun _ => rfl
  · rfl

theorem parentOf_extends (more : Extends r r') (t : TypeId) : r'.parentOf t = r.parentOf t := by
  obtain ⟨names, table⟩ := more
  have parents := congrArg (List.map TypeInfo.parent) table
  rw [List.map_append, List.map_map, List.map_map, List.map_map] at parents
  apply parentOf_eq_of_table parents
  intro p member
  obtain ⟨name, -, rfl⟩ := List.mem_map.1 member
  rfl

theorem parentOf_setParent {child : TypeId} (has : r.Has child) (parent t : TypeId) :
    (r.setParent child parent).parentOf t = if t = child then parent else r.parentOf t := by
  rw [setParent, if_pos has.1]
  unfold parentOf
  by_cases negative : t < 0
  · have other : t ≠ child := by
      rintro rfl
      exact absurd has.1 (Int.not_le.2 negative)
    rw [if_pos negative, if_neg other, if_pos negative]
  · have nonneg := Int.not_lt.1 negative
    rw [if_neg negative, if_neg negative, List.getElem?_modify]
    by_cases same : t = child
    · subst same
      have inside : t.toNat < r.types.length := (Int.toNat_lt nonneg).2 has.2
      rw [List.getElem?_eq_getElem inside, if_pos rfl]
      simp
    · have other : child.toNat ≠ t.toNat := by
        intro equal
        apply same
        rw [← Int.toNat_of_nonneg nonneg, ← equal, Int.toNat_of_nonneg has.1]
      rw [if_neg same]
      simp [other]

theorem setParent_of_neg {child : TypeId} (negative : child < 0) (parent : TypeId) :
    r.setParent child parent = r := by
  rw [setParent, if_neg (Int.not_le.2 negative)]

theorem Sound.of_same (sound : r.Sound)
    (more : r.types.length ≤ r'.types.length) (same : ∀ t, r'.parentOf t = r.parentOf t) :
    r'.Sound where
  builtin := sound.builtin.trans more
  parents t has := by
    rw [same]
    by_cases has' : r.Has t
    · exact (sound.parents t has').imp_right fun inTable => inTable.mono more
    · rw [parentOf_of_not_has has.1 has']
      exact .inr (sound.has_object.mono more)

theorem length_entries (r : TypeRegistry) : r.entries.length = r.types.length := List.length_map ..

theorem parentOf_setParent_of_has_or_neg {r : TypeRegistry} {child : TypeId}
    (has : r.Has child ∨ child = TID_UNKNOWN) (parent t : TypeId) :
    (r.setParent child parent).parentOf t =
      if 0 ≤ t ∧ t = child then parent else r.parentOf t := by
  rcases has with has | rfl
  · rw [parentOf_setParent has]
    by_cases same : t = child
    · rw [if_pos same, if_pos ⟨same ▸ has.1, same⟩]
    · rw [if_neg same, if_neg fun both => same both.2]
  · rw [setParent_of_neg (by decide), if_neg]
    rintro ⟨nonneg, rfl⟩
    exact absurd nonneg (by decide)

theorem Sound.setParent {r : TypeRegistry} (sound : r.Sound) {child parent : TypeId}
    (has : r.Has child ∨ child = TID_UNKNOWN) (hasParent : r.Has parent) :
    (r.setParent child parent).Sound := by
  have length : (r.setParent child parent).types.length = r.types.length := by
    rw [← length_entries, ← length_entries, r.entries_setParent]
  constructor
  · exact sound.builtin.trans length.ge
  · intro t has'
    rw [parentOf_setParent_of_has_or_neg has]
    split
    · exact .inr (hasParent.mono length.ge)
    · exact (sound.parents t (has'.mono length.le)).imp_right fun inTable =>
        inTable.mono length.ge

end TypeRegistry

namespace Sema

/-! ## The writes to parent slots -/

/-- The symbols of classes, interfaces and enums. -/
def IsType (sym : Symbol) : Prop := sym.kind = .cls ∨ sym.kind = .interface

instance (sym : Symbol) : Decidable (IsType sym) := inferInstanceAs (Decidable (_ ∨ _))

/-- The type that a base of a class is known as. -/
def knownBase (s : State) (base : String) : Option TypeId :=
  (lookupScopes s.scopes base).bind fun sym => if IsType sym then some sym.type else none

/-- The write of `hoist_class`, or the last one of `check_class`: a type and its
parent. -/
def Event.link : Event → Option (TypeId × TypeId)
  | .hoist c s =>
      let (id, types) := s.types.intern c.name .cls
      c.bases.head?.map fun base =>
        (id, if types.fromName base = TID_UNKNOWN then TID_OBJECT else types.fromName base)
  | .check c s =>
      (c.bases.filterMap (knownBase s)).getLast?.map fun parent => (s.types.fromName c.name, parent)

def Event.child : Event → TypeId
  | .hoist c s => (s.types.intern c.name .cls).1
  | .check c s => s.types.fromName c.name

def Event.apply (parent : TypeId → TypeId) (e : Event) (t : TypeId) : TypeId :=
  match e.link with
  | some (child, base) => if 0 ≤ t ∧ t = child then base else parent t
  | none => parent t

/-- The parents after these events. -/
def linked (events : List Event) (parent : TypeId → TypeId) : TypeId → TypeId :=
  events.foldl Event.apply parent

/-- The parent that the declarations of a program leave a type with. -/
def declaredParent (prog : Program) : TypeId → TypeId :=
  linked (eventsOf prog) TypeRegistry.initial.parentOf

/-! ## Runs -/

/-- Parents and the types of symbols are in the table. -/
structure SoundState (s : State) : Prop where
  types : s.types.Sound
  scopes : s.scopes ≠ []
  symbols : ∀ sc ∈ s.scopes, ∀ entry ∈ sc, IsType entry.2 → s.types.Has entry.2.type

/-- Between two states, the parents change by these events, and types are only added. -/
def Follows (events : List Event) (s s' : State) : Prop :=
  SoundState s → SoundState s' ∧ s.types.entries <+: s'.types.entries ∧
    (∀ t, s'.types.parentOf t = linked events s.types.parentOf t) ∧
      ∀ e ∈ events, e.child = TID_UNKNOWN ∨ s'.types.Has e.child

theorem follows_nil {s s' : State} (step : SoundState s → SoundState s' ∧
    s.types.entries <+: s'.types.entries ∧ ∀ t, s'.types.parentOf t = s.types.parentOf t) :
    Follows [] s s' := by
  intro sound
  obtain ⟨sound', entries, parents⟩ := step sound
  exact ⟨sound', entries, parents, fun e member => by cases member⟩

theorem has_of_isPrefix {r r' : TypeRegistry} (entries : r.entries <+: r'.entries) {t : TypeId}
    (has : r.Has t) : r'.Has t := by
  apply has.mono
  rw [← length_entries, ← length_entries]
  exact entries.length_le

theorem linked_append (left right : List Event) (parent : TypeId → TypeId) :
    linked (left ++ right) parent = linked right (linked left parent) := List.foldl_append

theorem Follows.trans {left right : List Event} (s₁ s₂ s₃ : State) (first : Follows left s₁ s₂)
    (second : Follows right s₂ s₃) : Follows (left ++ right) s₁ s₃ := by
  intro sound
  obtain ⟨sound', entries, parents, children⟩ := first sound
  obtain ⟨sound'', entries', parents', children'⟩ := second sound'
  refine ⟨sound'', entries.trans entries', fun t => ?_, fun e member => ?_⟩
  · rw [parents', linked_append, funext parents]
  · rcases List.mem_append.1 member with inLeft | inRight
    · exact (children e inLeft).imp_right (has_of_isPrefix entries')
    · exact children' e inRight

instance : IsPreorder State (Follows []) where
  refl _ := follows_nil fun sound => ⟨sound, List.prefix_rfl, fun _ => rfl⟩
  trans _ _ _ := .trans _ _ _

theorem follows_types {s : State} {types : TypeRegistry} {events : List Event}
    (entries : s.types.entries <+: types.entries)
    (sound : SoundState s → types.Sound)
    (parents : ∀ t, types.parentOf t = linked events s.types.parentOf t)
    (children : ∀ e ∈ events, e.child = TID_UNKNOWN ∨ types.Has e.child) :
    Follows events s { s with types := types } := by
  intro isSound
  exact ⟨⟨sound isSound, isSound.scopes, fun sc member entry inScope isType =>
    has_of_isPrefix entries (isSound.symbols sc member entry inScope isType)⟩, entries, parents,
      children⟩

theorem follows_same {s : State} {types : TypeRegistry}
    (entries : s.types.entries <+: types.entries)
    (parents : ∀ t, types.parentOf t = s.types.parentOf t) :
    Follows [] s { s with types := types } := by
  have unlinked : ∀ t, types.parentOf t = linked [] s.types.parentOf t := parents
  apply follows_types entries _ unlinked (fun e member => by cases member)
  intro isSound
  apply isSound.types.of_same _ parents
  rw [← length_entries, ← length_entries]
  exact entries.length_le

theorem entries_prefix_of_extends {r r' : TypeRegistry} (more : Extends r r') :
    r.entries <+: r'.entries := by
  obtain ⟨names, table⟩ := more
  have entries := congrArg (List.map fun ti : TypeInfo => (ti.name, ti.kind)) table
  rw [List.map_append, List.map_map, List.map_map] at entries
  exact ⟨_, entries.symm⟩

theorem follows_define {s : State} {sc : Scope} {rest : List Scope}
    (isStack : s.scopes = sc :: rest) (name : String) (sym : Symbol)
    (known : IsType sym → s.types.Has sym.type) :
    Follows [] s { s with scopes := (sc.define name sym).1 :: rest } := by
  apply follows_nil
  intro sound
  refine ⟨⟨sound.types, by simp, ?_⟩, List.prefix_rfl, fun _ => rfl⟩
  intro sc' member entry inScope isType
  rcases List.mem_cons.1 member with rfl | inRest
  · unfold Scope.define at inScope
    split at inScope
    · exact sound.symbols sc (by simp [isStack]) entry inScope isType
    · rcases List.mem_append.1 inScope with old | new
      · exact sound.symbols sc (by simp [isStack]) entry old isType
      · rw [List.mem_singleton.1 new] at isType ⊢
        exact known isType
  · exact sound.symbols sc' (by simp [isStack, inRest]) entry inScope isType

instance : Mild (Follows []) where
  err _ _ := follows_nil fun sound =>
    ⟨⟨sound.types, sound.scopes, sound.symbols⟩, List.prefix_rfl, fun _ => rfl⟩
  warn _ _ := follows_nil fun sound =>
    ⟨⟨sound.types, sound.scopes, sound.symbols⟩, List.prefix_rfl, fun _ => rfl⟩
  define _ _ _ name sym isStack notClass notInterface := follows_define isStack name sym
    fun isType => (isType.elim notClass notInterface).elim
  types _ _ more := follows_same (entries_prefix_of_extends more) (parentOf_extends more)

theorem follows_push : Moves (Follows []) push := by
  apply Moves.modify
  intro s
  apply follows_nil
  intro sound
  refine ⟨⟨sound.types, by simp, ?_⟩, List.prefix_rfl, fun _ => rfl⟩
  intro sc member entry inScope
  rcases List.mem_cons.1 member with rfl | member
  · cases inScope
  · exact sound.symbols sc member entry inScope

theorem follows_pop : Moves (Follows []) pop := by
  refine .modify (R := Follows []) fun s => follows_nil fun sound => ?_
  split
  · next sc sc' rest isStack =>
    refine ⟨⟨sound.types, by simp, fun sc'' member => ?_⟩, List.prefix_rfl, fun _ => rfl⟩
    apply sound.symbols sc''
    rw [isStack]
    exact List.mem_cons_of_mem _ member
  · exact ⟨sound, List.prefix_rfl, fun _ => rfl⟩

instance : Nested (Follows []) where
  inScope nested := .bind follows_push fun _ => .bind nested fun _ =>
    .bind follows_pop fun _ => .pure _
  flags s s' flagged := follows_nil fun sound => by
    obtain ⟨types, scopes, -⟩ := flagged
    refine ⟨⟨types ▸ sound.types, scopes ▸ sound.scopes, ?_⟩, ?_, fun _ => ?_⟩
    · rw [types, scopes]
      exact sound.symbols
    · rw [types]
    · rw [types]

/-! ## Hoisting -/

theorem Follows.has {events : List Event} {s s' : State} (follows : Follows events s s')
    (sound : SoundState s) {t : TypeId} (has : s.types.Has t) : s'.types.Has t := by
  exact has_of_isPrefix (follows sound).2.1 has

theorem follows_run_define {name : String} {sym : Symbol} {s s' : State} {isNew : Bool}
    (run : (define name sym).run s = some (isNew, s'))
    (known : IsType sym → s.types.Has sym.type) : Follows [] s s' := by
  rcases run_define_cases run with rfl | ⟨sc, rest, isStack, rfl⟩
  · exact IsPreorder.toRefl.refl _
  · exact follows_define isStack name sym known

theorem follows_run_defineGlobal {name : String} {sym : Symbol} {s s' : State} {a : Unit}
    (run : (defineGlobal name sym).run s = some (a, s'))
    (known : IsType sym → s.types.Has sym.type) : Follows [] s s' ∧ s'.types = s.types := by
  cases run
  refine ⟨follows_nil fun sound => ⟨⟨sound.types, ?_, ?_⟩, List.prefix_rfl, fun _ => rfl⟩, rfl⟩
  · simp [List.getLast?_eq_some_getLast sound.scopes]
  · intro sc member entry inScope isType
    rcases List.mem_append.1 member with before | last
    · exact sound.symbols sc (List.mem_of_mem_dropLast before) entry inScope isType
    · obtain ⟨sc', isLast, rfl⟩ := List.mem_map.1 last
      have member' := List.mem_of_getLast? (Option.mem_toList.1 isLast)
      unfold Scope.define at inScope
      split at inScope
      · exact sound.symbols sc' member' entry inScope isType
      · rcases List.mem_append.1 inScope with old | new
        · exact sound.symbols sc' member' entry old isType
        · rw [List.mem_singleton.1 new] at isType ⊢
          exact known isType

theorem follows_defineVariants (enumName : String) (id : TypeId) (variants : List EnumVariant) :
    Moves (Follows []) (defineVariants enumName id variants) := by
  induction variants with
  | nil => exact .pure _
  | cons v vs ih =>
    refine .bind (fun s a s' run => ?_) fun _ => ih
    apply (follows_run_defineGlobal run _).1
    rintro (isClass | isInterface)
    · cases isClass
    · cases isInterface

theorem follows_run_promote (ns : String) {sc : Scope} {s s' : State} {a : Unit}
    (run : (promote ns sc).run s = some (a, s'))
    (known : ∀ entry ∈ sc, IsType entry.2 → s.types.Has entry.2.type) : Follows [] s s' := by
  induction sc generalizing s with
  | nil =>
    rw [(Logic.run_pure_eq_some_iff.1 run).2]
    exact IsPreorder.toRefl.refl _
  | cons entry rest ih =>
    obtain ⟨name, sym⟩ := entry
    obtain ⟨_, s₁, first, run⟩ := Logic.run_bind_eq_some_iff.1 run
    obtain ⟨_, s₂, second, run⟩ := Logic.run_bind_eq_some_iff.1 run
    have isType := known (name, sym) List.mem_cons_self
    obtain ⟨qualified, types⟩ := follows_run_defineGlobal first isType
    obtain ⟨bare, types'⟩ := follows_run_defineGlobal second (types ▸ isType)
    refine .trans _ _ _ qualified (.trans _ _ _ bare (ih run ?_))
    rw [types', types]
    exact fun entry member => known entry (List.mem_cons_of_mem _ member)

theorem entries_prefix_intern (r : TypeRegistry) (name : String) (kind : TypeKind) :
    r.entries <+: (r.intern name kind).2.entries := by
  unfold TypeRegistry.intern
  split
  · exact List.prefix_rfl
  · exact ⟨_, List.map_append.symm⟩

theorem has_intern (r : TypeRegistry) (name : String) (kind : TypeKind) :
    (r.intern name kind).2.Has (r.intern name kind).1 := by
  unfold TypeRegistry.intern
  split
  · next i found =>
    obtain ⟨inside, -⟩ := List.findIdx?_eq_some_iff_getElem.1 found
    exact ⟨Int.natCast_nonneg i, Int.ofNat_lt.2 inside⟩
  · refine ⟨Int.natCast_nonneg _, ?_⟩
    simp

theorem follows_run_intern {name : String} {kind : TypeKind} {s s' : State} {id : TypeId}
    (run : (Sema.intern name kind).run s = some (id, s')) :
    Follows [] s s' ∧ s'.types.Has id := by
  cases run
  exact ⟨follows_same (entries_prefix_intern _ _ _) (parentOf_intern _ _ _), has_intern _ _ _⟩

theorem follows_hoistInterface (i : InterfaceDecl) : Moves (Follows []) (hoistInterface i) := by
  intro s a s' run
  obtain ⟨id, s₁, interned, run⟩ := Logic.run_bind_eq_some_iff.1 run
  obtain ⟨isNew, s₂, defined, run⟩ := Logic.run_bind_eq_some_iff.1 run
  obtain ⟨first, has⟩ := follows_run_intern interned
  have rest : Moves (Follows []) (if !isNew then err ("interface '" ++ i.name ++
      "' already declared") else pure ()) := (checks_when (.err _)).moves
  exact .trans _ _ _ first (.trans _ _ _
    (follows_run_define defined fun _ => has) (rest _ _ _ run))

theorem follows_modifyInfo (id : TypeId) {f : TypeInfo → TypeInfo}
    (keeps : ∀ ti, (f ti).name = ti.name ∧ (f ti).kind = ti.kind ∧ (f ti).parent = ti.parent) :
    Moves (Follows []) (modifyInfo id f) := by
  intro s a s' run
  cases run
  apply follows_same _ (parentOf_modifyInfo _ _ fun ti => (keeps ti).2.2)
  rw [s.types.entries_modifyInfo id fun ti => ⟨(keeps ti).1, (keeps ti).2.1⟩]

theorem follows_hoistEnum (e : EnumDecl) : Moves (Follows []) (hoistEnum e) := by
  intro s a s' run sound
  obtain ⟨id, s₁, interned, run⟩ := Logic.run_bind_eq_some_iff.1 run
  obtain ⟨_, _, got, run⟩ := Logic.run_bind_eq_some_iff.1 run
  obtain ⟨rfl, rfl⟩ := Logic.run_get_eq_some_iff.1 got
  obtain ⟨_, s₂, modified, run⟩ := Logic.run_bind_eq_some_iff.1 run
  obtain ⟨_, s₃, variants, run⟩ := Logic.run_bind_eq_some_iff.1 run
  obtain ⟨isNew, s₄, defined, run⟩ := Logic.run_bind_eq_some_iff.1 run
  obtain ⟨first, has⟩ := follows_run_intern interned
  have second : Follows [] s₁ s₂ := by
    refine follows_modifyInfo id ?_ _ _ _ modified
    exact fun _ => ⟨rfl, rfl, rfl⟩
  have third := follows_defineVariants _ _ _ _ _ _ variants
  have upTo := Follows.trans _ _ _ second third
  have known := upTo.has (first sound).1 has
  have rest : Moves (Follows []) (if !isNew then err ("enum '" ++ e.name ++ "' already declared")
      else pure ()) := (checks_when (.err _)).moves
  exact Follows.trans _ _ _ first (Follows.trans _ _ _ upTo (Follows.trans _ _ _
    (follows_run_define defined fun _ => known) (rest _ _ _ run))) sound

theorem follows_addInterfaces (id : TypeId) (bases : List String) :
    Moves (Follows []) (addInterfaces id bases) := by
  induction bases with
  | nil => exact .pure _
  | cons base rest ih =>
    have add (baseId : TypeId) : Moves (Follows []) (addInterface id baseId) := by
      intro s a s' run
      cases run
      apply follows_same _ (parentOf_addInterface _ _ _)
      rw [s.types.entries_addInterface]
    refine .bind .get fun _ => ?_
    exact .ite (fun _ => .bind (add _) fun _ => ih) fun _ => ih

theorem has_fromName {r : TypeRegistry} (sound : r.Sound) {name : String}
    (known : r.fromName name ≠ TID_UNKNOWN) : r.Has (r.fromName name) := by
  unfold fromName at known ⊢
  split at known
  · next isPtr =>
    rw [if_pos isPtr]
    exact sound.has_object
  · next notPtr =>
    rw [if_neg notPtr]
    cases found : r.byName name with
    | none => simp [found] at known
    | some i =>
      obtain ⟨inside, -⟩ := List.findIdx?_eq_some_iff_getElem.1 found
      exact ⟨Int.natCast_nonneg i, Int.ofNat_lt.2 inside⟩

theorem follows_setParent {s s' : State} {e : Event} {child parent : TypeId} {a : Unit}
    (run : (setParent child parent).run s = some (a, s')) (has : s.types.Has child)
    (hasParent : s.types.Has parent) (link : e.link = some (child, parent))
    (isChild : e.child = child) : Follows [e] s s' := by
  cases run
  have entries := s.types.entries_setParent child parent
  apply follows_types
  · rw [entries]
  · exact fun sound => sound.types.setParent (.inl has) hasParent
  · intro t
    rw [parentOf_setParent_of_has_or_neg (.inl has)]
    show _ = Event.apply _ e t
    rw [Event.apply, link]
  · intro e' member
    rw [List.mem_singleton.1 member, isChild]
    exact .inr (has_of_isPrefix (by rw [entries]) has)

theorem follows_defineClass (c : ClassDecl) {id : TypeId} {s s' : State} {a : Unit}
    (run : (do
      let isNew ← define c.name { name := c.name, kind := .cls, type := id, decl := .cls c }
      if !isNew then err ("class '" ++ c.name ++ "' already declared") : M Unit).run s =
        some (a, s')) (has : s.types.Has id) : Follows [] s s' := by
  obtain ⟨isNew, s₁, defined, run⟩ := Logic.run_bind_eq_some_iff.1 run
  have rest : Moves (Follows []) (if !isNew then err ("class '" ++ c.name ++
      "' already declared") else pure ()) := (checks_when (.err _)).moves
  exact .trans _ _ _ (follows_run_define defined fun _ => has) (rest _ _ _ run)

theorem follows_hoistClass (c : ClassDecl) {s s' : State} {a : Unit}
    (run : (hoistClass c).run s = some (a, s')) : Follows [.hoist c s] s s' := by
  intro sound
  obtain ⟨id, s₁, interned, run⟩ := Logic.run_bind_eq_some_iff.1 run
  obtain ⟨first, has⟩ := follows_run_intern interned
  obtain ⟨sound₁, -, -⟩ := first sound
  have result : s.types.intern c.name .cls = (id, s₁.types) := by
    cases interned
    rfl
  have isChild : (Event.hoist c s).child = id := congrArg Prod.fst result
  cases bases : c.bases with
  | nil =>
    rw [bases] at run
    have unlinked : (Event.hoist c s).link = none := by simp [Event.link, bases]
    have upTo := Follows.trans _ _ _ first (follows_defineClass c run has)
    obtain ⟨sound', entries, parents, -⟩ := upTo sound
    refine ⟨sound', entries, fun t => ?_, fun e member => ?_⟩
    · rw [parents]
      show _ = Event.apply _ _ t
      rw [Event.apply, unlinked]
      rfl
    · rw [List.mem_singleton.1 member, isChild]
      exact .inr ((follows_defineClass c run has).has sound₁ has)
  | cons base rest =>
    rw [bases] at run
    obtain ⟨_, _, got, run⟩ := Logic.run_bind_eq_some_iff.1 run
    obtain ⟨rfl, rfl⟩ := Logic.run_get_eq_some_iff.1 got
    obtain ⟨_, s₂, linked, run⟩ := Logic.run_bind_eq_some_iff.1 run
    obtain ⟨_, s₃, added, run⟩ := Logic.run_bind_eq_some_iff.1 run
    have link : (Event.hoist c s).link = some (id, if s₁.types.fromName base = TID_UNKNOWN then
        TID_OBJECT else s₁.types.fromName base) := by simp [Event.link, bases, result]
    have hasParent : s₁.types.Has (if s₁.types.fromName base = TID_UNKNOWN then TID_OBJECT
        else s₁.types.fromName base) := by
      split
      · exact sound₁.types.has_object
      · next known => exact has_fromName sound₁.types known
    have second := follows_setParent linked has hasParent link isChild
    have third := follows_addInterfaces _ _ _ _ _ added
    have upTo := Follows.trans _ _ _ second third
    exact Follows.trans _ _ _ first (Follows.trans _ _ _ upTo
      (follows_defineClass c run (upTo.has sound₁ has))) sound

/-! ## Checking -/

theorem mem_of_lookupScopes {scopes : List Scope} {name : String} {sym : Symbol}
    (found : lookupScopes scopes name = some sym) : ∃ sc ∈ scopes, (name, sym) ∈ sc := by
  induction scopes with
  | nil => cases found
  | cons sc rest ih =>
    rw [lookupScopes] at found
    cases here : sc.lookupLocal name with
    | none =>
      rw [here] at found
      obtain ⟨sc', member, entry⟩ := ih found
      exact ⟨sc', List.mem_cons_of_mem _ member, entry⟩
    | some sym' =>
      rw [here] at found
      cases found
      obtain ⟨before, after, isScope, -⟩ := List.lookup_eq_some_iff.1 here
      exact ⟨sc, List.mem_cons_self, by simp [isScope]⟩

theorem has_knownBase {s : State} (sound : SoundState s) {base : String} {t : TypeId}
    (known : knownBase s base = some t) : s.types.Has t := by
  obtain ⟨sym, found, same⟩ := Option.bind_eq_some_iff.1 known
  split at same
  · next isType =>
    cases same
    obtain ⟨sc, member, entry⟩ := mem_of_lookupScopes found
    exact sound.symbols sc member _ entry isType
  · cases same

theorem run_checkBases_cons {type : TypeId} {base : String} {rest : List String} {s s' : State}
    {a : Unit} (run : (checkBases type (base :: rest)).run s = some (a, s')) : ∃ s₁ : State,
      (checkBases type rest).run s₁ = some (a, s') ∧ s₁.scopes = s.scopes ∧
        s₁.types = (knownBase s base).elim s.types (s.types.setParent type) := by
  obtain ⟨found, _, looked, run⟩ := Logic.run_bind_eq_some_iff.1 run
  cases looked
  unfold knownBase
  cases isSymbol : lookupScopes s.scopes base with
  | none =>
    rw [isSymbol] at run
    obtain ⟨_, s₁, warned, run⟩ := Logic.run_bind_eq_some_iff.1 run
    cases warned
    exact ⟨_, run, rfl, rfl⟩
  | some sym =>
    rw [isSymbol] at run
    rw [Option.bind_some]
    by_cases isType : IsType sym
    · have typed : ¬(sym.kind ≠ .cls ∧ sym.kind ≠ .interface) := fun neither =>
        isType.elim neither.1 neither.2
      simp only [if_neg typed] at run
      obtain ⟨_, s₁, written, run⟩ := Logic.run_bind_eq_some_iff.1 run
      cases written
      rw [if_pos isType]
      exact ⟨_, run, rfl, rfl⟩
    · have untyped : sym.kind ≠ .cls ∧ sym.kind ≠ .interface := not_or.1 isType
      simp only [if_pos untyped] at run
      obtain ⟨_, s₁, warned, run⟩ := Logic.run_bind_eq_some_iff.1 run
      cases warned
      rw [if_neg isType]
      exact ⟨_, run, rfl, rfl⟩

theorem run_checkBases {type : TypeId} {bases : List String} {s s' : State} {a : Unit}
    (run : (checkBases type bases).run s = some (a, s')) (sound : SoundState s)
    (has : s.types.Has type ∨ type = TID_UNKNOWN) :
    SoundState s' ∧ s'.types.entries = s.types.entries ∧ ∀ t, s'.types.parentOf t =
      ((bases.filterMap (knownBase s)).getLast?).elim (s.types.parentOf t) fun parent =>
        if 0 ≤ t ∧ t = type then parent else s.types.parentOf t := by
  induction bases generalizing s with
  | nil =>
    cases run
    exact ⟨sound, rfl, fun _ => rfl⟩
  | cons base rest ih =>
    obtain ⟨s₁, run, scopes, types⟩ := run_checkBases_cons run
    have sameBases : knownBase s₁ = knownBase s := by
      funext other
      rw [knownBase, knownBase, scopes]
    cases known : knownBase s base with
    | none =>
      rw [known, Option.elim_none] at types
      have sound₁ : SoundState s₁ := ⟨types ▸ sound.types, scopes ▸ sound.scopes, by
        rw [types, scopes]
        exact sound.symbols⟩
      obtain ⟨sound', entries, parents⟩ := ih run sound₁ (types ▸ has)
      rw [List.filterMap_cons_none known, ← types, ← sameBases]
      exact ⟨sound', entries, parents⟩
    | some parent =>
      rw [known, Option.elim_some] at types
      have hasParent := has_knownBase sound known
      have length : s₁.types.types.length = s.types.types.length := by
        rw [types, ← length_entries, ← length_entries, s.types.entries_setParent]
      have sound₁ : SoundState s₁ := by
        constructor
        · rw [types]
          exact sound.types.setParent has hasParent
        · exact scopes ▸ sound.scopes
        · rw [scopes]
          exact fun sc member entry inScope isType =>
            (sound.symbols sc member entry inScope isType).mono length.ge
      obtain ⟨sound', entries, parents⟩ := ih run sound₁
        (has.imp_left fun inTable => inTable.mono length.ge)
      refine ⟨sound', ?_, fun t => ?_⟩
      · rw [entries, types, s.types.entries_setParent]
      · rw [parents, sameBases, List.filterMap_cons_some known, types,
          parentOf_setParent_of_has_or_neg has, List.getLast?_cons]
        cases (rest.filterMap (knownBase s)).getLast? with
        | none => rfl
        | some last =>
          show (if 0 ≤ t ∧ t = type then last else _) = if 0 ≤ t ∧ t = type then last else _
          by_cases isType : 0 ≤ t ∧ t = type
          · rw [if_pos isType, if_pos isType]
          · rw [if_neg isType, if_neg isType, if_neg isType]

theorem follows_checkBases {type : TypeId} {bases : List String} {s s' : State} {a : Unit}
    {e : Event} (run : (checkBases type bases).run s = some (a, s'))
    (has : s.types.Has type ∨ type = TID_UNKNOWN)
    (link : e.link = ((bases.filterMap (knownBase s)).getLast?.map fun parent => (type, parent)))
    (isChild : e.child = type) : Follows [e] s s' := by
  intro sound
  obtain ⟨sound', entries, parents⟩ := run_checkBases run sound has
  refine ⟨sound', by rw [entries], fun t => ?_, fun e' member => ?_⟩
  · rw [parents]
    show _ = Event.apply _ e t
    rw [Event.apply, link]
    cases (bases.filterMap (knownBase s)).getLast? with
    | none => rfl
    | some parent => rfl
  · rw [List.mem_singleton.1 member, isChild]
    exact has.symm.imp_right (has_of_isPrefix (by rw [entries]))

theorem follows_basesOf (c : ClassDecl) {s s' : State} {a : Unit}
    (run : (checkBases (s.types.fromName c.name) c.bases).run s = some (a, s')) :
    Follows [.check c s] s s' := by
  intro sound
  have has : s.types.Has (s.types.fromName c.name) ∨ s.types.fromName c.name = TID_UNKNOWN := by
    by_cases unknown : s.types.fromName c.name = TID_UNKNOWN
    · exact .inr unknown
    · exact .inl (has_fromName sound.types unknown)
  exact follows_checkBases run has rfl rfl sound

theorem follows_checkClass (c : ClassDecl) {s s' : State} {c' : ClassDecl}
    (run : (checkClass c).run s = some (c', s')) : Follows [.check c s] s s' := by
  obtain ⟨_, _, _, _, bases, -, second, third⟩ := run_checkClass_cases (R := Follows []) run
  exact .trans _ _ _ (follows_basesOf c bases) (.trans _ _ _ second third)

theorem follows_promote (name : String) :
    Moves (Follows []) (do promote name (← currentScope)) := by
  intro s a s' run sound
  obtain ⟨sc, s₁, current, promoted⟩ := Logic.run_bind_eq_some_iff.1 run
  cases current
  have known : ∀ entry ∈ s.scopes.headD [], IsType entry.2 → s.types.Has entry.2.type := by
    cases isStack : s.scopes with
    | nil => exact fun entry member => by cases member
    | cons sc rest => exact sound.symbols sc (by simp [isStack])
  exact follows_run_promote name promoted known sound

instance : Traces Follows where
  nested := inferInstance
  append := .trans
  push := follows_push
  pop := follows_pop
  hoistInterface := follows_hoistInterface
  hoistEnum := follows_hoistEnum
  promote := follows_promote
  hoistClass c _ _ _ run := follows_hoistClass c run
  checkClass c _ _ _ run := follows_checkClass c run

/-! ## Whole programs -/

theorem soundState_initial : SoundState .initial := by
  have parents : ∀ n : Nat, n < 12 → State.initial.types.parentOf (n : Int) = TID_UNKNOWN ∨
      State.initial.types.parentOf (n : Int) = TID_OBJECT := by decide
  constructor
  · constructor
    · exact Nat.le_refl _
    · intro t has
      obtain ⟨n, rfl⟩ := Int.eq_ofNat_of_zero_le has.1
      rcases parents n (by exact_mod_cast has.2) with unknown | object
      · exact .inl unknown
      · rw [object]
        exact .inr ⟨by decide, by decide⟩
  · exact List.cons_ne_nil _ _
  · intro sc member entry inScope isType
    cases List.mem_singleton.1 member
    have valid : ∀ entry ∈ builtinSymbols, IsType entry.2 → entry.2.type = TID_OBJECT := by decide
    rw [valid entry inScope isType]
    exact ⟨by decide, by decide⟩

/-- The parents after the analysis are those that the declarations leave. -/
theorem parentOf_of_run {prog prog' : Program} {s : State}
    (returns : (run prog).run .initial = some (prog', s)) :
    SoundState s ∧ s.types.parentOf = declaredParent prog ∧
      ∀ e ∈ eventsOf prog, e.child = TID_UNKNOWN ∨ s.types.Has e.child := by
  have all : Follows (eventsOf prog) .initial s := traces_of_run returns
  obtain ⟨sound, -, parents, children⟩ := all soundState_initial
  exact ⟨sound, funext parents, children⟩

/-! ## The two walks -/

open Logic (climb Climbs)

/-- The test of `is_subtype` at a type. -/
def subtypeTest (ancestor cur : TypeId) : Option Bool :=
  if cur = TID_UNKNOWN ∨ cur < 0 then some false
  else if cur = ancestor then some true
  else none

/-- The class that a symbol of the global scope stands for. -/
def globalClass (globals : Scope) (name : String) : Option ClassDecl :=
  match globals.lookupLocal name with
  | some { kind := .cls, decl := .cls c, .. } => some c
  | _ => none

/-- The test of `check_member` at a type. -/
def memberTest (types : TypeRegistry) (globals : Scope) (member : String) (cur : TypeId) :
    Option Bool :=
  if cur = TID_UNKNOWN ∨ cur < 0 ∨ cur = TID_OBJECT then some false
  else match globalClass globals (types.info cur).name with
    | some c => if classHasMember c member then some true else none
    | none => some false

theorem parent_info {r : TypeRegistry} {t : TypeId} (has : r.Has t) :
    (r.info t).parent = r.parentOf t := by
  have nonneg := Int.not_lt.2 has.1
  have inside : t.toNat < r.types.length := (Int.toNat_lt has.1).2 has.2
  rw [info, if_neg nonneg, parentOf, if_neg nonneg, List.getD_eq_getElem?_getD,
    List.getElem?_eq_getElem inside]
  rfl

theorem walkParents_eq_climb {r : TypeRegistry} (sound : r.Sound) (ancestor : TypeId) (n : Nat)
    {t : TypeId} (known : t = TID_UNKNOWN ∨ r.Has t) :
    r.walkParents ancestor n t = climb (subtypeTest ancestor) r.parentOf n t := by
  induction n generalizing t with
  | zero => rfl
  | succ n ih =>
    rw [walkParents, climb, subtypeTest]
    by_cases negative : t = TID_UNKNOWN ∨ t < 0
    · rw [if_pos negative, if_pos negative]
    · have has := known.resolve_left (not_or.1 negative).1
      rw [if_neg negative, if_neg negative, parent_info has]
      by_cases found : t = ancestor
      · rw [if_pos found, if_pos found]
      · rw [if_neg found, if_neg found, ih (sound.parents t has)]

theorem memberFound_eq_climb {r : TypeRegistry} (sound : r.Sound) (globals : Scope)
    (member : String) (n : Nat) {t : TypeId} (known : t = TID_UNKNOWN ∨ r.Has t) :
    memberFound r globals member n t = climb (memberTest r globals member) r.parentOf n t := by
  induction n generalizing t with
  | zero => rfl
  | succ n ih =>
    rw [memberFound, climb, memberTest]
    by_cases negative : t = TID_UNKNOWN ∨ t < 0 ∨ t = TID_OBJECT
    · rw [if_pos negative, if_pos negative]
    · have has := known.resolve_left (not_or.1 negative).1
      rw [if_neg negative, if_neg negative, parent_info has]
      split
      · next c _ _ found =>
        have isClass : globalClass globals (r.info t).name = some c := by
          rw [globalClass, found]
        rw [isClass]
        by_cases here : classHasMember c member = true
        · simp [here]
        · simp [here, ih (sound.parents t has)]
      · next unknown =>
        have notClass : globalClass globals (r.info t).name = none := by
          unfold globalClass
          split
          · next found => exact absurd found (unknown _ _ _ _ _ _ _)
          · rfl
        rw [notClass]

theorem climb_iff_climbs {r : TypeRegistry} (sound : r.Sound) {stop : TypeId → Option Bool}
    (stops : stop TID_UNKNOWN = some false) {t : TypeId} (known : t = TID_UNKNOWN ∨ r.Has t) :
    climb stop r.parentOf (r.types.length + 1) t = some true ↔ Climbs stop r.parentOf t := by
  have within (t : TypeId) : t ∈ Finset.Ico (-1 : Int) r.types.length ↔
      t = TID_UNKNOWN ∨ r.Has t := by
    rw [Finset.mem_Ico]
    constructor
    · rintro ⟨least, below⟩
      rcases least.eq_or_lt with unknown | positive
      · exact .inl unknown.symm
      · exact .inr ⟨positive, below⟩
    · rintro (rfl | has)
      · exact ⟨Int.le_refl _, (by decide : (-1 : Int) < 0).trans_le (Int.natCast_nonneg _)⟩
      · exact ⟨(by decide : (-1 : Int) ≤ 0).trans has.1, has.2⟩
  apply Logic.climb_eq_some_true_iff (Finset.Ico (-1 : Int) r.types.length) ((within t).2 known)
  · intro b inside going
    rcases (within b).1 inside with rfl | has
    · rw [stops] at going
      cases going
    · exact (within _).2 (sound.parents b has)
  · rw [Int.card_Ico]
    omega

/-! ## What inheritance asks for -/

/-- The pairs of a class and a base that it declares, by their types. -/
def Event.bases : Event → List (TypeId × TypeId)
  | .hoist _ _ => []
  | .check c s => (c.bases.filterMap (knownBase s)).map fun base => (s.types.fromName c.name, base)

/-- The pairs of a class and a class that it declares as a base. -/
def Event.superclasses : Event → List (TypeId × TypeId × ClassDecl)
  | .hoist _ _ => []
  | .check c s => c.bases.filterMap fun base => do
      let sym ← lookupScopes s.scopes base
      match sym.kind, sym.decl with
      | .cls, .cls d => some (s.types.fromName c.name, sym.type, d)
      | _, _ => none

/-- `base` is declared as a base of `t`. -/
def Declares (prog : Program) (t base : TypeId) : Prop :=
  (t, base) ∈ (eventsOf prog).flatMap Event.bases

/-- The class `d` is a superclass of `t`, or one of a superclass. -/
inductive HasAncestor (prog : Program) : TypeId → ClassDecl → Prop
  | parent {t base : TypeId} {d : ClassDecl}
      (declared : (t, base, d) ∈ (eventsOf prog).flatMap Event.superclasses) : HasAncestor prog t d
  | above {t base : TypeId} {c d : ClassDecl}
      (declared : (t, base, c) ∈ (eventsOf prog).flatMap Event.superclasses)
      (ancestor : HasAncestor prog base d) : HasAncestor prog t d

/-- Every class can be assigned to its bases and to theirs, and has the members of its
ancestors. -/
def Inherits (prog : Program) (s : State) : Prop :=
  (∀ t base, Relation.TransGen (Declares prog) t base → s.types.assignable t base = some true) ∧
    ∀ t d, HasAncestor prog t d → ∀ member, classHasMember d member = true →
      memberFound s.types (s.scopes.getLastD []) member (s.types.types.length + 1) t = some true

/-- The rules of `assignable` before the one on subtypes. -/
def assignableByRule (r : TypeRegistry) (src dst : TypeId) : Bool :=
  let heapKind := (r.info dst).kind = .cls ∨ (r.info dst).kind = .interface
  if src = TID_UNKNOWN ∨ dst = TID_UNKNOWN then true
  else if src = dst then true
  else if dst = TID_OBJECT then true
  else if src = TID_OBJECT ∧
      (dst = TID_STR ∨ dst = TID_LIST ∨ dst = TID_DICT ∨ heapKind) then true
  else if src = TID_NULL then heapKind ∨ dst = TID_LIST ∨ dst = TID_DICT ∨ dst = TID_STR
  else if isNumeric src ∧ isNumeric dst then true
  else if src = TID_LIST ∧ dst = TID_TUPLE then true
  else if 0 ≤ src ∧ (r.info src).kind = .enum ∧ (dst = TID_INT ∨ dst = TID_LONG) then true
  else 0 ≤ dst ∧ (r.info dst).kind = .enum ∧ (src = TID_INT ∨ src = TID_LONG)

/-- Going on from a type to the base that is declared last, one comes to every base of
it, unless the two are assignable anyway; and one comes to a class with the member
before a name that stands for no class. -/
def Chained (prog : Program) (s : State) : Prop :=
  (∀ t base, Relation.TransGen (Declares prog) t base → assignableByRule s.types t base = true ∨
    t ≠ TID_NULL ∧ Climbs (subtypeTest base) (declaredParent prog) t) ∧
    ∀ t d, HasAncestor prog t d → ∀ member, classHasMember d member = true →
      Climbs (memberTest s.types (s.scopes.getLastD []) member) (declaredParent prog) t

theorem isSubtype_eq_walkParents {r : TypeRegistry} {src dst : TypeId} (differ : src ≠ dst)
    (notObject : dst ≠ TID_OBJECT) (notNull : src ≠ TID_NULL) (known : src ≠ TID_UNKNOWN)
    (known' : dst ≠ TID_UNKNOWN) :
    r.isSubtype src dst = r.walkParents dst (r.types.length + 1) src := by
  rw [isSubtype, if_neg differ, if_neg notObject, if_neg notNull, if_neg (not_or.2 ⟨known, known'⟩)]

theorem ruled_iff {c way : Prop} [Decidable c] {answer : Option Bool} {byRule : Bool}
    (rest : ¬c → (answer = some true ↔ byRule = true ∨ way)) :
    (if c then some true else answer) = some true ↔ (if c then true else byRule) = true ∨ way := by
  by_cases holds : c
  · rw [if_pos holds, if_pos holds]
    exact iff_of_true rfl (.inl rfl)
  · rw [if_neg holds, if_neg holds]
    exact rest holds

theorem assignable_iff {r : TypeRegistry} {src dst : TypeId} :
    r.assignable src dst = some true ↔ assignableByRule r src dst = true ∨
      src ≠ TID_NULL ∧ r.walkParents dst (r.types.length + 1) src = some true := by
  refine ruled_iff fun unknown => ruled_iff fun same => ruled_iff fun object =>
    ruled_iff fun _ => ?_
  by_cases null : src = TID_NULL
  · rw [if_pos null, if_pos null]
    constructor
    · exact fun ruled => .inl (Option.some.inj ruled)
    · exact fun way => congrArg some (way.resolve_right fun walk => walk.1 null)
  rw [if_neg null, if_neg null]
  refine ruled_iff fun _ => ruled_iff fun _ => ruled_iff fun _ => ?_
  obtain ⟨known, known'⟩ := not_or.1 unknown
  rw [isSubtype_eq_walkParents same object null known known']
  by_cases enum : 0 ≤ dst ∧ (r.info dst).kind = .enum ∧ (src = TID_INT ∨ src = TID_LONG)
  · rw [if_pos enum]
    exact iff_of_true rfl (.inl (decide_eq_true enum))
  · rw [if_neg enum]
    constructor
    · exact fun walk => .inr ⟨null, walk⟩
    · exact fun way => (way.resolve_left fun ruled => enum (of_decide_eq_true ruled)).2

theorem child_of_declares {prog : Program} {t base : TypeId} (declares : Declares prog t base) :
    ∃ e ∈ eventsOf prog, e.child = t := by
  obtain ⟨e, member, isBase⟩ := List.mem_flatMap.1 declares
  refine ⟨e, member, ?_⟩
  cases e with
  | hoist c s => cases isBase
  | check c s =>
    obtain ⟨b, -, same⟩ := List.mem_map.1 isBase
    exact congrArg Prod.fst same

theorem child_of_superclass {prog : Program} {t base : TypeId} {d : ClassDecl}
    (declared : (t, base, d) ∈ (eventsOf prog).flatMap Event.superclasses) :
    ∃ e ∈ eventsOf prog, e.child = t := by
  obtain ⟨e, member, isBase⟩ := List.mem_flatMap.1 declared
  refine ⟨e, member, ?_⟩
  cases e with
  | hoist c s => cases isBase
  | check c s =>
    obtain ⟨b, -, same⟩ := List.mem_filterMap.1 isBase
    obtain ⟨sym, -, same⟩ := Option.bind_eq_some_iff.1 same
    split at same
    · cases same
      rfl
    · cases same

/-- After the analysis of a program, inheritance is respected exactly if the last bases
chain all of them. -/
theorem inherits_iff {prog prog' : Program} {s : State}
    (returns : (run prog).run .initial = some (prog', s)) :
    Inherits prog s ↔ Chained prog s := by
  obtain ⟨⟨sound, -, -⟩, parents, children⟩ := parentOf_of_run returns
  have known {t : TypeId} (isChild : ∃ e ∈ eventsOf prog, e.child = t) :
      t = TID_UNKNOWN ∨ s.types.Has t := by
    obtain ⟨e, member, rfl⟩ := isChild
    exact children e member
  have subtype {t base : TypeId} (path : Relation.TransGen (Declares prog) t base) :
      s.types.walkParents base (s.types.types.length + 1) t = some true ↔
        Climbs (subtypeTest base) (declaredParent prog) t := by
    have isKnown : t = TID_UNKNOWN ∨ s.types.Has t := by
      obtain ⟨b, declares, -⟩ := Relation.TransGen.head'_iff.1 path
      exact known (child_of_declares declares)
    rw [walkParents_eq_climb sound base _ isKnown, climb_iff_climbs sound rfl isKnown, parents]
  have lookup {t : TypeId} {d : ClassDecl} (ancestor : HasAncestor prog t d) (member : String) :
      memberFound s.types (s.scopes.getLastD []) member (s.types.types.length + 1) t =
          some true ↔
        Climbs (memberTest s.types (s.scopes.getLastD []) member) (declaredParent prog) t := by
    have isKnown : t = TID_UNKNOWN ∨ s.types.Has t := by
      cases ancestor with
      | parent declared => exact known (child_of_superclass declared)
      | above declared _ => exact known (child_of_superclass declared)
    rw [memberFound_eq_climb sound _ member _ isKnown, climb_iff_climbs sound rfl isKnown, parents]
  constructor
  · rintro ⟨assigns, finds⟩
    constructor
    · intro t base path
      exact (assignable_iff.1 (assigns t base path)).imp_right fun ⟨notNull, walk⟩ =>
        ⟨notNull, (subtype path).1 walk⟩
    · intro t d ancestor member has
      exact (lookup ancestor member).1 (finds t d ancestor member has)
  · rintro ⟨chained, met⟩
    constructor
    · intro t base path
      exact assignable_iff.2 ((chained t base path).imp_right fun ⟨notNull, climbs⟩ =>
        ⟨notNull, (subtype path).2 climbs⟩)
    · intro t d ancestor member has
      exact (lookup ancestor member).2 (met t d ancestor member has)

/-- `class A { }  class B : A { }`. -/
def derived : Program where
  decls :=
    [.cls { name := "A", members := [] }, .cls { name := "B", bases := ["A"], members := [] }]
  stmts := []

theorem inherits_derived : ∃ prog' s, Accepts derived prog' s ∧ Inherits derived s := by
  obtain ⟨prog', s, accepts, -⟩ := exists_accepts derived (fun _ _ => true) (by decide +kernel)
  refine ⟨prog', s, accepts, (inherits_iff accepts.1).2 ⟨?_, ?_⟩⟩
  · have declares {t base : TypeId} (declared : Declares derived t base) : t = 13 ∧ base = 12 := by
      have bases : (eventsOf derived).flatMap Event.bases = [(13, 12)] := by decide +kernel
      rw [Declares, bases, List.mem_singleton] at declared
      cases declared
      exact ⟨rfl, rfl⟩
    have parent : declaredParent derived 13 = 12 := by decide +kernel
    intro t base path
    right
    induction path with
    | single declared =>
      obtain ⟨rfl, rfl⟩ := declares declared
      refine ⟨by decide, .up (by decide) ?_⟩
      rw [parent]
      exact .here (by decide)
    | tail path declared _ =>
      obtain ⟨rfl, rfl⟩ := declares declared
      obtain ⟨_, -, last⟩ := Relation.TransGen.tail'_iff.1 path
      exact absurd (declares last).2 (by decide)
  · have memberless : ∀ p ∈ (eventsOf derived).flatMap Event.superclasses, p.2.2.members = [] := by
      have all : ((eventsOf derived).flatMap Event.superclasses).all
          (fun p => p.2.2.members.isEmpty) = true := by decide +kernel
      exact fun p member => List.isEmpty_iff.1 (List.all_eq_true.1 all p member)
    intro t d ancestor member has
    have none : d.members = [] := by
      induction ancestor with
      | parent declared => exact memberless _ declared
      | above _ _ ih => exact ih has
    rw [classHasMember, none] at has
    cases has

/-- `class A { int x }  interface I { }  class B : A, I { }`. -/
def implementing : Program where
  decls :=
    [.cls { name := "A", members := [.field { type := { name := "int" }, name := "x" }] },
      .iface { name := "I", members := [] },
      .cls { name := "B", bases := ["A", "I"], members := [] }]
  stmts := []

/-- An interface behind the parent class cuts it off. -/
theorem not_inherits : ¬∀ prog prog' s, Accepts prog prog' s → Inherits prog s := by
  intro always
  obtain ⟨prog', s, accepts, lost⟩ := exists_accepts implementing
    (fun _ s => s.types.assignable 14 12 = some false) (by decide +kernel)
  have declared : Declares implementing 14 12 := by
    have bases : (eventsOf implementing).flatMap Event.bases = [(14, 12), (14, 13)] := by
      decide +kernel
    rw [Declares, bases]
    exact List.mem_cons_self
  have assigns := (always _ _ _ accepts).1 14 12 (.single declared)
  rw [of_decide_eq_true lost] at assigns
  cases assigns

end Sema

end Dux
