import Dux.Logic.Interning
import Dux.Logic.Moves
import Dux.Sema.Check

/-!
# What hoisting interns

Hoisting interns the types that the declarations request, in order.  The proofs
read this off the text of the pass with the rules for `Moves`.
-/

namespace Dux

open Logic (keys internAll Moves)

/-- The table of a registry: names with their kinds. -/
def TypeRegistry.entries (r : TypeRegistry) : List (String × TypeKind) :=
  r.types.map fun ti => (ti.name, ti.kind)

namespace TypeRegistry

/-- A change to a description that leaves name and kind alone. -/
def KeepsName (f : TypeInfo → TypeInfo) : Prop :=
  ∀ ti, (f ti).name = ti.name ∧ (f ti).kind = ti.kind

theorem map_modify {β : Type} (types : List TypeInfo) (i : Nat) {f : TypeInfo → TypeInfo}
    {g : TypeInfo → β} (keeps : ∀ ti, g (f ti) = g ti) :
    (types.modify i f).map g = types.map g := by
  apply List.ext_getElem?
  intro j
  rw [List.getElem?_map, List.getElem?_map, List.getElem?_modify]
  cases types[j]? with
  | none => rfl
  | some ti =>
      by_cases here : i = j
      · simp [here, keeps ti]
      · simp [here]

theorem entries_modify (types : List TypeInfo) (i : Nat) {f : TypeInfo → TypeInfo}
    (keeps : KeepsName f) :
    (types.modify i f).map (fun ti => (ti.name, ti.kind)) =
      types.map fun ti => (ti.name, ti.kind) :=
  map_modify types i fun ti => Prod.ext (keeps ti).1 (keeps ti).2

theorem entries_modifyInfo (r : TypeRegistry) (id : TypeId) {f : TypeInfo → TypeInfo}
    (keeps : KeepsName f) : (r.modifyInfo id f).entries = r.entries := by
  unfold modifyInfo
  split <;> exact entries_modify _ _ keeps

theorem entries_setParent (r : TypeRegistry) (child parent : TypeId) :
    (r.setParent child parent).entries = r.entries := by
  unfold setParent
  split
  · exact entries_modify _ _ fun _ => ⟨rfl, rfl⟩
  · rfl

theorem entries_addInterface (r : TypeRegistry) (cls iface : TypeId) :
    (r.addInterface cls iface).entries = r.entries := by
  unfold addInterface
  split
  · exact entries_modify _ _ fun _ => ⟨rfl, rfl⟩
  · rfl

theorem byName_eq_none_iff {r : TypeRegistry} {name : String} :
    r.byName name = none ↔ name ∉ keys r.entries := by
  rw [byName, List.findIdx?_eq_none_iff, keys, entries, List.map_map, List.mem_map]
  simp

theorem entries_intern (r : TypeRegistry) (name : String) (kind : TypeKind) :
    (r.intern name kind).2.entries = Logic.intern r.entries (name, kind) := by
  unfold TypeRegistry.intern
  cases found : r.byName name with
  | none =>
      rw [Logic.intern_of_notMem (byName_eq_none_iff.1 found)]
      exact List.map_append
  | some i =>
      rw [Logic.intern_of_mem]
      by_contra fresh
      rw [byName_eq_none_iff.2 fresh] at found
      cases found

end TypeRegistry

namespace Sema

/-- The registry goes through the interning of these requests. -/
def Interns (requests : List (String × TypeKind)) (s s' : State) : Prop :=
  s'.types.entries = internAll s.types.entries requests

/-- The registry gains function types only. -/
def Grows (s s' : State) : Prop :=
  ∃ added, s'.types.entries = s.types.entries ++ added ∧ ∀ entry ∈ added, entry.2 = .function

theorem Interns.trans {left right : List (String × TypeKind)} (s₁ s₂ s₃ : State)
    (first : Interns left s₁ s₂) (second : Interns right s₂ s₃) :
    Interns (left ++ right) s₁ s₃ := by
  rw [Interns, Logic.internAll_append, ← first]
  exact second

instance : IsPreorder State (Interns []) where
  refl _ := rfl
  trans _ _ _ := Interns.trans _ _ _

instance : IsPreorder State Grows where
  refl _ := ⟨[], (List.append_nil _).symm, fun _ member => by cases member⟩
  trans s₁ s₂ s₃ := by
    rintro ⟨added, first, functions⟩ ⟨added', second, functions'⟩
    refine ⟨added ++ added', by rw [second, first, List.append_assoc], fun entry member => ?_⟩
    rcases List.mem_append.1 member with member | member
    · exact functions entry member
    · exact functions' entry member

theorem Grows.keys_subset {s s' : State} (grows : Grows s s') :
    keys s.types.entries ⊆ keys s'.types.entries := by
  obtain ⟨added, appended, _⟩ := grows
  rw [appended, Logic.keys_append]
  exact List.subset_append_left _ _

theorem Interns.grows {requests : List (String × TypeKind)} {s s' : State}
    (interns : Interns requests s s')
    (harmless : ∀ entry ∈ requests,
      entry.2 = .function ∨ entry.1 ∈ keys s.types.entries) : Grows s s' := by
  unfold Interns at interns
  rw [Grows, interns]
  clear interns
  generalize s.types.entries = table at harmless ⊢
  induction requests generalizing table with
  | nil => exact ⟨[], (List.append_nil _).symm, fun _ member => by cases member⟩
  | cons entry rest ih =>
      rw [Logic.internAll_cons]
      by_cases known : entry.1 ∈ keys table
      · rw [Logic.intern_of_mem known]
        exact ih table fun other member => harmless other (List.mem_cons_of_mem _ member)
      · rw [Logic.intern_of_notMem known]
        obtain ⟨added, appended, functions⟩ := ih (table ++ [entry]) fun other member => by
          rw [Logic.keys_append]
          exact (harmless other (List.mem_cons_of_mem _ member)).imp_right
            fun inTable => List.mem_append_left _ inTable
        refine ⟨entry :: added, by rw [appended, List.append_assoc]; rfl, fun other member => ?_⟩
        rcases List.mem_cons.1 member with rfl | member
        · exact (harmless _ List.mem_cons_self).resolve_right known
        · exact functions other member

section Requests

/-- The function type a type expression interns. -/
def signatureRequest (te : TypeExpr) : List (String × TypeKind) :=
  if te.name = "ptr" then []
  else if te.name = "__fn" then [(fnSignature te.fnParams te.fnRet, .function)]
  else []

/-- The function types of a signature. -/
def signatureRequests (ret : TypeExpr) (params : List Param) : List (String × TypeKind) :=
  signatureRequest ret ++ params.flatMap fun p => signatureRequest p.type

mutual

/-- The types a declaration asks the registry for when it is hoisted. -/
def typeRequests : Decl → List (String × TypeKind)
  | .func f => signatureRequests f.returnType f.params
  | .cls c => [(c.name, .cls)]
  | .iface i => [(i.name, .interface)]
  | .enum e => [(e.name, .enum)]
  | .namespaceDecl _ decls _ => typeRequestsAll decls
  | .externDecl e => signatureRequests e.ret e.params
  | .importDecl _ => []
  | .packageDecl _ => []

/-- The types the declarations of a program ask for, in order. -/
def typeRequestsAll : List Decl → List (String × TypeKind)
  | [] => []
  | d :: ds => typeRequests d ++ typeRequestsAll ds

end

end Requests

/-! ## Computations that leave the table alone -/

section Steady

theorem moves_modify {f : State → State} (same : ∀ s, (f s).types = s.types) :
    Moves (Interns []) (modify f : M PUnit) :=
  .modify fun s => by rw [Interns, same]; rfl

theorem moves_pure {α : Type} (a : α) : Moves (Interns []) (pure a : M α) := .pure a

theorem moves_err (msg : String) : Moves (Interns []) (err msg) := moves_modify fun _ => rfl

theorem moves_push : Moves (Interns []) push := moves_modify fun _ => rfl

theorem moves_pop : Moves (Interns []) pop :=
  moves_modify fun s => by
    split <;> rfl

theorem moves_define (name : String) (sym : Symbol) : Moves (Interns []) (define name sym) := by
  intro s isNew s' run
  unfold define at run
  rw [Logic.run_bind_eq_some_iff] at run
  obtain ⟨_, _, got, run⟩ := run
  obtain ⟨rfl, rfl⟩ := Logic.run_get_eq_some_iff.1 got
  split at run
  · rw [(Logic.run_pure_eq_some_iff.1 run).2]
    rfl
  · cases run
    rfl

theorem moves_defineGlobal (name : String) (sym : Symbol) :
    Moves (Interns []) (defineGlobal name sym) := moves_modify fun _ => rfl

theorem moves_currentScope : Moves (Interns []) currentScope :=
  .bind .get fun _ => .pure _

end Steady

/-! ## Hoisting -/

section Hoisting

theorem moves_withTypes {α : Type} {f : TypeRegistry → α × TypeRegistry}
    {requests : List (String × TypeKind)}
    (step : ∀ r, (f r).2.entries = internAll r.entries requests) :
    Moves (Interns requests) (withTypes f) := by
  intro s a s' run
  cases run
  exact step s.types

theorem moves_intern (name : String) (kind : TypeKind) :
    Moves (Interns [(name, kind)]) (Sema.intern name kind) :=
  moves_withTypes fun r => r.entries_intern name kind

theorem moves_modifyInfo (id : TypeId) {f : TypeInfo → TypeInfo}
    (keeps : TypeRegistry.KeepsName f) : Moves (Interns []) (modifyInfo id f) :=
  moves_withTypes fun r => r.entries_modifyInfo id keeps

theorem moves_setParent (child parent : TypeId) : Moves (Interns []) (setParent child parent) :=
  moves_withTypes fun r => r.entries_setParent child parent

theorem moves_addInterface (cls iface : TypeId) : Moves (Interns []) (addInterface cls iface) :=
  moves_withTypes fun r => r.entries_addInterface cls iface

variable {α β : Type} {left right : List (String × TypeKind)}

theorem moves_seq {m : M α} {f : α → M β} (first : Moves (Interns left) m)
    (second : ∀ a, Moves (Interns right) (f a)) : Moves (Interns (left ++ right)) (m >>= f) :=
  .comp Interns.trans first second

theorem moves_after {m : M α} {f : α → M β} (first : Moves (Interns []) m)
    (second : ∀ a, Moves (Interns right) (f a)) : Moves (Interns right) (m >>= f) :=
  moves_seq first second

theorem moves_before {m : M α} {f : α → M β} (first : Moves (Interns left) m)
    (second : ∀ a, Moves (Interns []) (f a)) : Moves (Interns left) (m >>= f) := by
  have both := moves_seq first second
  rwa [List.append_nil] at both

theorem moves_typeFromTe (te : TypeExpr) :
    Moves (Interns (signatureRequest te)) (typeFromTe te) := by
  unfold typeFromTe signatureRequest
  refine .ite (fun isPtr => ?_) fun notPtr => ?_
  · rw [if_pos isPtr]
    exact .pure _
  · rw [if_neg notPtr]
    refine .ite (fun isFn => ?_) fun notFn => ?_
    · rw [if_pos isFn]
      refine moves_before (moves_intern _ _) fun id => .bind .get fun s => ?_
      refine .ite (fun _ => ?_) fun _ => .pure _
      exact .bind (moves_modifyInfo _ fun _ => ⟨rfl, rfl⟩) fun _ => .pure _
    · rw [if_neg notFn]
      exact .bind .get fun _ => .pure _

theorem moves_typesOfParams (params : List Param) :
    Moves (Interns (params.flatMap fun p => signatureRequest p.type)) (typesOfParams params) := by
  induction params with
  | nil => exact moves_pure _
  | cons p ps ih =>
      exact moves_seq (moves_typeFromTe p.type) fun _ => moves_before ih fun _ => .pure _

theorem moves_hoistFunction (f : FunctionDecl) :
    Moves (Interns (signatureRequests f.returnType f.params)) (hoistFunction f) := by
  unfold hoistFunction signatureRequests
  refine moves_seq (moves_typeFromTe _) fun ret => ?_
  refine moves_before (moves_typesOfParams _) fun params => ?_
  refine .bind (moves_define _ _) fun isNew => ?_
  exact .ite (fun _ => moves_err _) fun _ => .pure _

theorem moves_defineVariants (enumName : String) (id : TypeId) (variants : List EnumVariant) :
    Moves (Interns []) (defineVariants enumName id variants) := by
  induction variants with
  | nil => exact .pure _
  | cons v vs ih => exact .bind (moves_defineGlobal _ _) fun _ => ih

theorem moves_hoistEnum (e : EnumDecl) : Moves (Interns [(e.name, .enum)]) (hoistEnum e) := by
  unfold hoistEnum
  refine moves_before (moves_intern _ _) fun id => .bind .get fun s => ?_
  refine .bind (moves_modifyInfo _ fun _ => ⟨rfl, rfl⟩) fun _ => ?_
  refine .bind (moves_defineVariants _ _ _) fun _ => ?_
  refine .bind (moves_define _ _) fun isNew => ?_
  exact .ite (fun _ => moves_err _) fun _ => .pure _

theorem moves_hoistExtern (e : ExternDecl) :
    Moves (Interns (signatureRequests e.ret e.params)) (hoistExtern e) := by
  unfold hoistExtern signatureRequests
  refine moves_seq (moves_typeFromTe _) fun ret => ?_
  refine moves_before (moves_typesOfParams _) fun params => ?_
  exact .bind (moves_define _ _) fun _ => .pure _

theorem moves_addInterfaces (id : TypeId) (bases : List String) :
    Moves (Interns []) (addInterfaces id bases) := by
  induction bases with
  | nil => exact .pure _
  | cons base rest ih =>
      refine .bind .get fun s => ?_
      dsimp only
      exact .ite (fun _ => .bind (moves_addInterface _ _) fun _ => ih) fun _ => ih

theorem moves_hoistClass (c : ClassDecl) : Moves (Interns [(c.name, .cls)]) (hoistClass c) := by
  unfold hoistClass
  refine moves_before (moves_intern _ _) fun id => ?_
  have register : Moves (Interns []) (do
      let isNew ← define c.name { name := c.name, kind := .cls, type := id, decl := .cls c }
      if !isNew then err ("class '" ++ c.name ++ "' already declared")) :=
    .bind (moves_define _ _) fun _ => .ite (fun _ => moves_err _) fun _ => .pure _
  dsimp only
  cases c.bases with
  | nil => exact register
  | cons base rest =>
      refine .bind .get fun s => ?_
      refine .bind (moves_setParent _ _) fun _ => ?_
      exact .bind (moves_addInterfaces _ _) fun _ => register

theorem moves_hoistInterface (i : InterfaceDecl) :
    Moves (Interns [(i.name, .interface)]) (hoistInterface i) := by
  unfold hoistInterface
  refine moves_before (moves_intern _ _) fun id => .bind (moves_define _ _) fun _ => ?_
  exact .ite (fun _ => moves_err _) fun _ => .pure _

theorem moves_promote (ns : String) (sc : Scope) : Moves (Interns []) (promote ns sc) := by
  induction sc with
  | nil => exact .pure _
  | cons entry rest ih =>
      exact .bind (moves_defineGlobal _ _) fun _ =>
        .bind (moves_defineGlobal _ _) fun _ => ih

mutual

theorem moves_hoistDecl : ∀ d : Decl, Moves (Interns (typeRequests d)) (hoistDecl d)
  | .cls c => moves_hoistClass c
  | .iface i => moves_hoistInterface i
  | .enum e => moves_hoistEnum e
  | .func f => moves_hoistFunction f
  | .externDecl e => moves_hoistExtern e
  | .importDecl _ => moves_pure _
  | .packageDecl _ => moves_pure _
  | .namespaceDecl _ decls _ =>
      moves_after (moves_define _ _) fun _ => moves_after moves_push fun _ =>
        moves_before (moves_hoistTop decls) fun _ =>
          .bind moves_currentScope fun _ => .bind (moves_promote _ _) fun _ => moves_pop

theorem moves_hoistTop : ∀ ds : List Decl, Moves (Interns (typeRequestsAll ds)) (hoistTop ds)
  | [] => moves_pure _
  | d :: ds => moves_seq (moves_hoistDecl d) fun _ => moves_hoistTop ds

end

end Hoisting

end Sema

end Dux
