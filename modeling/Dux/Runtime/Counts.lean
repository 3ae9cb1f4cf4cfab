import Dux.Runtime.Handles
import Mathlib.Tactic.Abel

/-!
# What a call of the runtime does to the counts

Making and retaining take a reference, and no exported function gives one up
that it has not taken.  A call hands its caller a reference of its own exactly
if it does not lend a string that a handle keeps.
-/

namespace Dux.Runtime

open Logic

namespace Heap

/-- The count of every object is what the ledger says. -/
structure Tallied (h : Heap) : Prop where
  count : ∀ a, h.refcount a + h.ledger.released.count a = h.ledger.acquired.count a
  bounded : ∀ a ∈ h.ledger.acquired, a < h.objects.length

/-- A pointer to an object, or to none. -/
def Valid (h : Heap) (p : Ref) : Prop := ∀ a ∈ p.counted, a < h.objects.length

theorem valid_iff {h : Heap} {p : Ref} : h.valid p = true ↔ h.Valid p := by
  cases p with
  | none => simp [valid, Valid, Ref.counted]
  | some addr => cases addr <;> simp [valid, Valid, Ref.counted]

/-- Another heap with more objects and more references taken. -/
structure Extends (h h' : Heap) : Prop where
  length : h.objects.length ≤ h'.objects.length
  released : h'.ledger.released = h.ledger.released
  acquired : h.ledger.acquired ≤ h'.ledger.acquired
  tallied : h.Tallied → h'.Tallied

variable {h h' h'' : Heap} {p : Ref} {a : Nat}

theorem Extends.refl (h : Heap) : h.Extends h := ⟨le_rfl, rfl, le_rfl, id⟩

theorem Extends.trans (first : h.Extends h') (second : h'.Extends h'') : h.Extends h'' where
  length := first.length.trans second.length
  released := second.released.trans first.released
  acquired := first.acquired.trans second.acquired
  tallied := second.tallied ∘ first.tallied

theorem Extends.valid (larger : h.Extends h') (valid : h.Valid p) : h'.Valid p :=
  fun a mem => (valid a mem).trans_le larger.length

@[simp]
theorem valid_none : h.Valid none := by simp [Valid, Ref.counted]

@[simp]
theorem valid_literal (i : Nat) : h.Valid (some (.literal i)) := by simp [Valid, Ref.counted]

@[simp]
theorem valid_heap : h.Valid (some (.heap a)) ↔ a < h.objects.length := by
  simp [Valid, Ref.counted]

theorem Tallied.notMem (tallied : h.Tallied) (beyond : h.objects.length ≤ a) :
    h.ledger.acquired.count a = 0 := by
  rw [Multiset.count_eq_zero]
  intro mem
  exact absurd (tallied.bounded a mem) beyond.not_gt

/-! ## The operations on one object -/

theorem refcount_new (content : Content) :
    (h.new content).2.refcount a = if a = h.objects.length then 1 else h.refcount a := by
  unfold refcount new
  by_cases last : a = h.objects.length
  · simp [last]
  · rw [if_neg last]
    by_cases inside : a < h.objects.length
    · rw [List.getElem?_append_left inside]
    · rw [List.getElem?_eq_none (by simp; omega), List.getElem?_eq_none (by omega)]

theorem refcount_count (change : Nat → Nat) (b : Nat) (inside : a < h.objects.length) :
    (h.count a change).refcount b = if b = a then change (h.refcount a) else h.refcount b := by
  unfold refcount count
  rw [List.getElem?_modify]
  by_cases same : b = a
  · subst same
    simp [List.getElem?_eq_getElem inside]
  · have other : a ≠ b := Ne.symm same
    simp [same, other]

@[simp]
theorem length_new (content : Content) :
    (h.new content).2.objects.length = h.objects.length + 1 := by
  simp [new]

@[simp]
theorem length_count (change : Nat → Nat) : (h.count a change).objects.length = h.objects.length :=
  List.length_modify ..

@[simp]
theorem ledger_count (change : Nat → Nat) : (h.count a change).ledger = h.ledger := rfl

@[simp]
theorem retain_fst : (h.retain p).1 = p := by
  unfold retain
  split <;> rfl

@[simp]
theorem acquired_retain :
    (h.retain p).2.ledger.acquired = p.counted + h.ledger.acquired := by
  cases p with
  | none => simp [retain, Ref.counted]
  | some addr => cases addr <;> simp [retain, Ref.counted, Ledger.acquire]

@[simp]
theorem acquired_new (content : Content) :
    (h.new content).2.ledger.acquired = (h.new content).1.counted + h.ledger.acquired := rfl

theorem extends_new (content : Content) : h.Extends (h.new content).2 where
  length := by simp
  released := rfl
  acquired := Multiset.le_add_left _ _
  tallied tallied := by
    constructor
    · intro a
      rw [refcount_new, acquired_new]
      change _ + h.ledger.released.count a = _
      rw [Multiset.count_add]
      by_cases last : a = h.objects.length
      · have none := tallied.notMem (ge_of_eq last)
        have sum := tallied.count a
        have single : Multiset.count a (Ref.counted (h.new content).1) = 1 := by
          simp [new, Ref.counted, last]
        rw [if_pos last]
        omega
      · have single : Multiset.count a (Ref.counted (h.new content).1) = 0 := by
          simp [new, Ref.counted, last]
        rw [if_neg last, single, Nat.zero_add]
        exact tallied.count a
    · intro a mem
      rw [length_new]
      rw [acquired_new, Multiset.mem_add] at mem
      rcases mem with isNew | old
      · simp only [new, Ref.counted, Multiset.mem_singleton] at isNew
        omega
      · exact (tallied.bounded a old).trans (Nat.lt_succ_self _)

theorem extends_retain (valid : h.Valid p) : h.Extends (h.retain p).2 := by
  cases p with
  | none => exact .refl h
  | some addr =>
    cases addr with
    | literal i => exact .refl h
    | heap b =>
      rw [valid_heap] at valid
      constructor
      · simp [retain]
      · rfl
      · exact Multiset.le_add_left _ _
      · intro tallied
        constructor
        · intro a
          have sum := tallied.count a
          change (h.count b (· + 1)).refcount a + h.ledger.released.count a =
            ({b} + h.ledger.acquired).count a
          rw [refcount_count _ _ valid, Multiset.count_add, Multiset.count_singleton]
          by_cases same : a = b
          · subst same
            simp only [if_true]
            omega
          · simpa only [same, if_false, Nat.zero_add] using sum
        · intro a mem
          simp only [retain, length_count]
          rw [acquired_retain, Multiset.mem_add] at mem
          rcases mem with isNew | old
          · simp only [Ref.counted, Multiset.mem_singleton] at isNew
            exact isNew ▸ valid
          · exact tallied.bounded a old

@[simp]
theorem ledger_release : (h.release p).ledger = h.ledger.release p.counted := by
  cases p with
  | none => simp [release, Ref.counted, Ledger.release]
  | some addr => cases addr <;> simp [release, Ref.counted, Ledger.release]

@[simp]
theorem length_release : (h.release p).objects.length = h.objects.length := by
  unfold release
  split <;> simp

theorem Tallied.release (tallied : h.Tallied) {owed : Multiset Nat}
    (covers : h.ledger.Covers (p.counted + owed)) : (h.release p).Tallied := by
  cases p with
  | none => exact tallied
  | some addr =>
    cases addr with
    | literal i => exact tallied
    | heap b =>
      have positive : h.ledger.released.count b < h.ledger.acquired.count b := by
        have le := Multiset.count_le_of_le b covers
        simp only [Ref.counted, Multiset.count_add, Multiset.count_singleton_self] at le
        omega
      have valid : b < h.objects.length :=
        tallied.bounded b (Multiset.count_pos.mp (by omega))
      constructor
      · intro a
        have sum := tallied.count a
        change (h.count b (· - 1)).refcount a + ({b} + h.ledger.released).count a =
          h.ledger.acquired.count a
        rw [refcount_count _ _ valid, Multiset.count_add, Multiset.count_singleton]
        by_cases same : a = b
        · subst same
          simp only [if_true]
          omega
        · simpa only [same, if_false, Nat.zero_add] using sum
      · intro a mem
        rw [length_release]
        exact tallied.bounded a mem

/-! ## Results -/

/-- The caller gets a reference of its own: to a new object, to one that was
retained for it, or to an immortal one. -/
def HandsOver (h : Heap) (result : Ref × Heap) : Prop :=
  result.1.counted + h.ledger.acquired ≤ result.2.ledger.acquired

/-- A result that is handed over, with nothing else given up. -/
structure Gives (h : Heap) (result : Ref × Heap) : Prop where
  larger : h.Extends result.2
  taken : h.HandsOver result
  valid : result.2.Valid result.1

theorem Gives.after {result : Ref × Heap} (first : h.Extends h') (gives : h'.Gives result) :
    h.Gives result where
  larger := first.trans gives.larger
  taken := (add_le_add_right first.acquired _).trans gives.taken
  valid := gives.valid

theorem gives_new (content : Content) : h.Gives (h.new content) where
  larger := extends_new content
  taken := le_of_eq (acquired_new content).symm
  valid := by simp [new]

theorem gives_retain (valid : h.Valid p) : h.Gives (h.retain p) where
  larger := extends_retain valid
  taken := by
    unfold HandsOver
    rw [retain_fst, acquired_retain]
  valid := by
    rw [retain_fst]
    exact (extends_retain valid).valid valid

end Heap

section Functions

variable {h : Heap}

theorem gives_duxrtStrNew (src : Bytes) : h.Gives (duxrtStrNew h src) := h.gives_new (.str src)

theorem extends_newStrs (items : List Bytes) : h.Extends (newStrs h items).2 := by
  induction items generalizing h with
  | nil => exact .refl h
  | cons src rest ih => exact (gives_duxrtStrNew src).larger.trans ih

theorem gives_newStrList (items : List Bytes) : h.Gives (newStrList h items) :=
  .after (extends_newStrs items) (Heap.gives_new _)

theorem gives_duxrtStrReplace {s : Ref} (valid : h.Valid s) (pat repl : Ref) :
    h.Gives (duxrtStrReplace h s pat repl) := by
  unfold duxrtStrReplace
  split
  · exact gives_duxrtStrNew _
  · exact Heap.gives_retain valid
  · dsimp only
    split
    · exact Heap.gives_retain valid
    · split
      · exact Heap.gives_retain valid
      · exact gives_duxrtStrNew _

theorem gives_duxrtStrReplaceAll {s : Ref} (valid : h.Valid s) (pat repl : Ref) :
    h.Gives (duxrtStrReplaceAll h s pat repl) := by
  unfold duxrtStrReplaceAll
  split
  · exact gives_duxrtStrNew _
  · exact Heap.gives_retain valid
  · dsimp only
    split
    · exact Heap.gives_retain valid
    · exact gives_duxrtStrNew _

theorem gives_regexReplace {text : Ref} (valid : h.Valid text) (ok : Bool)
    (made : Option Bytes) (repl : Ref) : h.Gives (regexReplace h ok made text repl) := by
  unfold regexReplace
  split
  · exact gives_duxrtStrNew _
  · exact Heap.gives_retain valid
  · split
    · exact gives_duxrtStrNew _
    · exact Heap.gives_retain valid

theorem gives_duxrtRegexSplit {text : Ref} (valid : h.Valid text) (ok : Bool)
    (pieces : List Bytes) : h.Gives (duxrtRegexSplit h ok pieces text) := by
  unfold duxrtRegexSplit
  split
  · exact gives_newStrList pieces
  · exact Heap.gives_new _
  · exact .after (Heap.extends_retain valid) (Heap.gives_new _)

/-! ## Accessors -/

theorem not_handsOver_lent (a : Nat) : ¬ h.HandsOver (some (.heap a), h) := by
  intro taken
  have fits := Multiset.card_le_card taken
  simp only [Ref.counted, Multiset.card_add, Multiset.card_singleton] at fits
  omega

theorem handsOver_fieldOf {α : Type} {field : α → Nat} {handle : Option α} :
    h.HandsOver (fieldOf h field handle) ↔ ¬ handle.isSome := by
  cases handle with
  | none => simp [fieldOf, (gives_duxrtStrNew []).taken]
  | some r => simp [fieldOf, not_handsOver_lent]

theorem handsOver_keptOr {kept : Option Nat} :
    h.HandsOver (keptOr h kept) ↔ ¬ kept.isSome := by
  cases kept with
  | none => simp [keptOr, (gives_duxrtStrNew []).taken]
  | some a => simp [keptOr, not_handsOver_lent]

theorem isSome_entryOf {α : Type} {dict : α → StrDict} {handle : Option α} {name : Ref} :
    (entryOf h dict handle name).isSome ↔
      ∃ r, handle = some r ∧ ∃ n, name = some n ∧ h.bytes n ∈ (dict r).map (·.1) := by
  cases handle with
  | none => simp [entryOf]
  | some r =>
    cases name with
    | none => simp [entryOf]
    | some n => simp [entryOf, List.lookup_isSome_iff]

theorem extends_fieldOf {α : Type} {field : α → Nat} {handle : Option α} :
    h.Extends (fieldOf h field handle).2 := by
  cases handle with
  | none => exact (gives_duxrtStrNew []).larger
  | some r => exact .refl h

theorem extends_keptOr {kept : Option Nat} : h.Extends (keptOr h kept).2 := by
  cases kept with
  | none => exact (gives_duxrtStrNew []).larger
  | some a => exact .refl h

theorem valid_fieldOf {α : Type} {field : α → Nat} {handle : Option α}
    (known : ∀ r, handle = some r → field r < h.objects.length) :
    (fieldOf h field handle).2.Valid (fieldOf h field handle).1 := by
  cases handle with
  | none => exact (gives_duxrtStrNew []).valid
  | some r => exact Heap.valid_heap.mpr (known r rfl)

theorem valid_keptOr {kept : Option Nat} (known : ∀ a, kept = some a → a < h.objects.length) :
    (keptOr h kept).2.Valid (keptOr h kept).1 := by
  cases kept with
  | none => exact (gives_duxrtStrNew []).valid
  | some a => exact Heap.valid_heap.mpr (known a rfl)

theorem mem_of_entryOf {α : Type} {dict : α → StrDict} {handle : Option α} {name : Ref} {a : Nat}
    (found : entryOf h dict handle name = some a) :
    ∃ r, handle = some r ∧ a ∈ (dict r).map (·.2) := by
  simp only [entryOf, Option.bind_eq_bind, Option.bind_eq_some_iff] at found
  rcases found with ⟨r, isHandle, n, -, entry⟩
  rcases List.lookup_eq_some_iff.mp entry with ⟨before, after, parts, -⟩
  exact ⟨r, isHandle, by simp [parts]⟩

theorem gives_duxrtJsonGetStr {handle : Option StrDict} {key : Ref}
    (known : ∀ fields, handle = some fields → ∀ a ∈ fields.map (·.2), a < h.objects.length) :
    h.Gives (duxrtJsonGetStr h handle key) := by
  unfold duxrtJsonGetStr
  split
  · exact gives_duxrtStrNew _
  · next a found =>
      rcases mem_of_entryOf found with ⟨fields, isHandle, mem⟩
      exact Heap.gives_retain (Heap.valid_heap.mpr (known fields isHandle a mem))

end Functions

/-! ## Calls -/

/-- Every handle points to objects. -/
def Handles.Valid (hs : Handles) (h : Heap) : Prop :=
  ∀ handle, some handle ∈ hs → ∀ a ∈ handle.strings, a < h.objects.length

theorem Handles.Valid.mono {hs : Handles} {h h' : Heap} (valid : hs.Valid h)
    (longer : h.objects.length ≤ h'.objects.length) : hs.Valid h' :=
  fun handle mem a isString => (valid handle mem a isString).trans_le longer

theorem Handles.Valid.of_find {hs : Handles} {h : Heap} {α : Type} {kind : Handle → Option α}
    {place : Option Nat} {r : α} (valid : hs.Valid h) (found : hs.find kind place = some (some r)) :
    ∃ handle, kind handle = some r ∧ ∀ a ∈ handle.strings, a < h.objects.length := by
  cases place with
  | none => simp [Handles.find] at found
  | some i =>
    simp only [Handles.find, Option.bind_eq_bind, Option.bind_eq_some_iff, Option.pure_def,
      Option.some.injEq] at found
    rcases found with ⟨_, place, handle, rfl, r', isKind, rfl⟩
    exact ⟨handle, isKind, valid handle (List.mem_of_getElem? place)⟩

theorem Handles.isSome_of_find {hs : Handles} {α : Type} {kind : Handle → Option α}
    {place : Option Nat} {r : Option α} (found : hs.find kind place = some r) :
    r.isSome = place.isSome := by
  cases place with
  | none => simp only [Handles.find, Option.some.injEq] at found; rw [← found]; rfl
  | some i =>
    simp only [Handles.find, Option.bind_eq_bind, Option.bind_eq_some_iff, Option.pure_def,
      Option.some.injEq] at found
    rcases found with ⟨_, -, _, -, _, -, rfl⟩
    rfl

/-- What a call does: it gives nothing up, returns an object that is there, and
hands it over unless it lends it. -/
structure Call.Done (c : Call) (hs : Handles) (h : Heap) (result : Ref × Heap) : Prop where
  larger : h.Extends result.2
  valid : result.2.Valid result.1
  handsOver : h.HandsOver result ↔ ¬ c.Lends hs h

section Calls

variable {hs : Handles} {h : Heap} {c : Call} {result : Ref × Heap}

theorem Call.Done.of_gives (gives : h.Gives result) (keeps : ¬ c.Lends hs h) :
    c.Done hs h result where
  larger := gives.larger
  valid := gives.valid
  handsOver := iff_of_true gives.taken keeps

theorem handle_of_resp {handle : Handle} {r : HttpResp} (isResp : handle.resp? = some r) :
    handle = .resp r := by
  cases handle <;> simp_all [Handle.resp?]

theorem handle_of_req {handle : Handle} {r : HttpServerReq} (isReq : handle.req? = some r) :
    handle = .req r := by
  cases handle <;> simp_all [Handle.req?]

theorem handle_of_json {handle : Handle} {fields : StrDict}
    (isJson : handle.json? = some fields) : handle = .json fields := by
  cases handle <;> simp_all [Handle.json?]

theorem handle_of_proc {handle : Handle} {p : Proc} (isProc : handle.proc? = some p) :
    handle = .proc p := by
  cases handle <;> simp_all [Handle.proc?]

theorem Call.Done.of_fieldOf {α : Type} {kind : Handle → Option α} {field : α → Nat}
    {place : Option Nat} {handle : Option α} (found : hs.find kind place = some handle)
    (known : ∀ r, handle = some r → field r < h.objects.length)
    (lends : c.Lends hs h ↔ place.isSome) : c.Done hs h (fieldOf h field handle) where
  larger := extends_fieldOf
  valid := valid_fieldOf known
  handsOver := by rw [handsOver_fieldOf, lends, Handles.isSome_of_find found]

theorem Call.Done.of_keptOr {kept : Option Nat}
    (known : ∀ a, kept = some a → a < h.objects.length) (lends : c.Lends hs h ↔ kept.isSome) :
    c.Done hs h (keptOr h kept) where
  larger := extends_keptOr
  valid := valid_keptOr known
  handsOver := by rw [handsOver_keptOr, lends]

theorem Call.Done.of_entryOf {α : Type} {kind : Handle → Option α} {headers : α → StrDict}
    {place : Option Nat} {handle : Option α} {name : Ref}
    (found : hs.find kind place = some handle)
    (known : ∀ r, handle = some r → ∀ a ∈ (headers r).map (·.2), a < h.objects.length)
    (lends : c.Lends hs h ↔ ∃ r, hs.find kind place = some (some r) ∧
      ∃ n, name = some n ∧ h.bytes n ∈ (headers r).map (·.1)) :
    c.Done hs h (keptOr h (entryOf h headers handle name)) := by
  apply Call.Done.of_keptOr
  · intro a entry
    rcases mem_of_entryOf entry with ⟨r, isHandle, mem⟩
    exact known r isHandle a mem
  · rw [lends, isSome_entryOf]
    simp only [found, Option.some.injEq]

theorem Call.done (handles : hs.Valid h) (args : ∀ p ∈ c.args, h.Valid p)
    (run : c.exec hs h = some result) : c.Done hs h result := by
  have resp {place : Option Nat} {r : HttpResp}
      (found : hs.find Handle.resp? place = some (some r)) :
      ∀ a ∈ (Handle.resp r).strings, a < h.objects.length := by
    rcases handles.of_find found with ⟨handle, isResp, known⟩
    exact handle_of_resp isResp ▸ known
  have req {place : Option Nat} {r : HttpServerReq}
      (found : hs.find Handle.req? place = some (some r)) :
      ∀ a ∈ (Handle.req r).strings, a < h.objects.length := by
    rcases handles.of_find found with ⟨handle, isReq, known⟩
    exact handle_of_req isReq ▸ known
  have proc {place : Option Nat} {p : Proc}
      (found : hs.find Handle.proc? place = some (some p)) :
      ∀ a ∈ (Handle.proc p).strings, a < h.objects.length := by
    rcases handles.of_find found with ⟨handle, isProc, known⟩
    exact handle_of_proc isProc ▸ known
  cases c <;> simp only [Call.exec, Option.some.injEq, Option.bind_eq_bind,
    Option.bind_eq_some_iff, Option.pure_def] at run
  case makeStr => subst run; exact .of_gives (gives_duxrtStrNew _) (by simp [Call.Lends])
  case makeList => subst run; exact .of_gives (gives_newStrList _) (by simp [Call.Lends])
  case strReplace s pat repl =>
    subst run
    exact .of_gives (gives_duxrtStrReplace (args s (by simp [Call.args])) _ _)
      (by simp [Call.Lends])
  case strReplaceAll s pat repl =>
    subst run
    exact .of_gives (gives_duxrtStrReplaceAll (args s (by simp [Call.args])) _ _)
      (by simp [Call.Lends])
  case regexReplace text repl =>
    subst run
    exact .of_gives (gives_regexReplace (args text (by simp [Call.args])) _ _ _)
      (by simp [Call.Lends])
  case regexReplaceAll text repl =>
    subst run
    exact .of_gives (gives_regexReplace (args text (by simp [Call.args])) _ _ _)
      (by simp [Call.Lends])
  case regexSplit text =>
    subst run
    exact .of_gives (gives_duxrtRegexSplit (args text (by simp [Call.args])) _ _)
      (by simp [Call.Lends])
  case jsonGetStr =>
    rcases run with ⟨handle, found, rfl⟩
    apply Call.Done.of_gives _ (by simp [Call.Lends])
    apply gives_duxrtJsonGetStr
    rintro fields rfl
    rcases handles.of_find found with ⟨handle, isJson, known⟩
    rw [handle_of_json isJson] at known
    exact known
  case httpRespStatusText =>
    rcases run with ⟨handle, found, rfl⟩
    apply Call.Done.of_fieldOf found _ Iff.rfl
    rintro r rfl
    exact resp found _ (by simp [Handle.strings])
  case httpRespHeader =>
    rcases run with ⟨handle, found, rfl⟩
    apply Call.Done.of_entryOf found _ Iff.rfl
    rintro r rfl a mem
    exact resp found a (by simp only [Handle.strings, List.mem_cons]; exact .inr (.inr mem))
  case httpRespBody =>
    rcases run with ⟨handle, found, rfl⟩
    apply Call.Done.of_fieldOf found _ Iff.rfl
    rintro r rfl
    exact resp found _ (by simp [Handle.strings])
  case httpReqHeader =>
    rcases run with ⟨handle, found, rfl⟩
    apply Call.Done.of_entryOf found _ Iff.rfl
    rintro r rfl a mem
    exact req found a (by simp only [Handle.strings, List.mem_cons]; tauto)
  case httpReqMethod | httpReqPath | httpReqQuery | httpReqBody =>
    rcases run with ⟨handle, found, rfl⟩
    apply Call.Done.of_fieldOf found _ Iff.rfl
    rintro r rfl
    exact req found _ (by simp [Handle.strings])
  case procStdout | procStderr =>
    rcases run with ⟨handle, found, rfl⟩
    apply Call.Done.of_keptOr
    · intro a kept
      rcases Option.bind_eq_some_iff.mp kept with ⟨p, rfl, isBuf⟩
      exact proc found a (by simp [Handle.strings, isBuf])
    · simp only [Call.Lends, found, Option.some.injEq]
      cases handle <;> simp

end Calls

/-! ## Owing references -/

/-- Counts and ledger agree, and the references owed can be given up. -/
structure Heap.Safe (h : Heap) (owed : Multiset Nat) : Prop where
  tallied : h.Tallied
  covers : h.ledger.Covers owed

section Owing

variable {h h' : Heap} {owed owed' : Multiset Nat} {p : Ref} {result : Ref × Heap}

namespace Heap

theorem Safe.mono (safe : h.Safe owed) (fewer : owed' ≤ owed) : h.Safe owed' :=
  ⟨safe.tallied, safe.covers.mono fewer⟩

theorem Safe.take {refs : Multiset Nat} (safe : h.Safe owed) (larger : h.Extends h')
    (taken : refs + h.ledger.acquired ≤ h'.ledger.acquired) : h'.Safe (refs + owed) where
  tallied := larger.tallied safe.tallied
  covers := by
    unfold Ledger.Covers
    rw [larger.released]
    calc
      h.ledger.released + (refs + owed) = refs + (h.ledger.released + owed) :=
        add_left_comm _ _ _
      _ ≤ refs + h.ledger.acquired := add_le_add_right safe.covers refs
      _ ≤ h'.ledger.acquired := taken

theorem Safe.release (safe : h.Safe (p.counted + owed)) : (h.release p).Safe owed where
  tallied := safe.tallied.release safe.covers
  covers := by
    rw [ledger_release]
    exact safe.covers.release

end Heap

/-! ## Handles -/

theorem owned_resp (r : HttpResp) :
    ((Handle.resp r).owned : Multiset Nat) = {r.statusText} + {r.body} := rfl

theorem owned_req (r : HttpServerReq) :
    ((Handle.req r).owned : Multiset Nat) = {r.method} + ({r.path} + ({r.query} + {r.body})) := rfl

theorem owned_json (fields : StrDict) : ((Handle.json fields).owned : Multiset Nat) = 0 := rfl

theorem owned_proc (p : Proc) : ((Handle.proc p).owned : Multiset Nat) = 0 := rfl

/-- A new handle: it points to objects, and what it will release is its own. -/
structure Handle.Made (h : Heap) (result : Handle × Heap) : Prop where
  larger : h.Extends result.2
  taken : (result.1.owned : Multiset Nat) + h.ledger.acquired ≤ result.2.ledger.acquired
  known : ∀ a ∈ result.1.strings, a < result.2.objects.length

theorem extends_keepNew (src : Bytes) : h.Extends (keepNew h src).2 :=
  (gives_duxrtStrNew src).larger

@[simp]
theorem acquired_keepNew (src : Bytes) :
    (keepNew h src).2.ledger.acquired = {(keepNew h src).1} + h.ledger.acquired := rfl

theorem keepNew_lt (src : Bytes) : (keepNew h src).1 < (keepNew h src).2.objects.length := by
  simp [keepNew, duxrtStrNew]

theorem extends_setAll (dict : StrDict) (entries : List (Bytes × Bytes)) :
    h.Extends (setAll h dict entries).2 := by
  induction entries generalizing h dict with
  | nil => exact .refl h
  | cons entry rest ih => exact (extends_keepNew entry.2).trans (ih _)

theorem setAll_lt (dict : StrDict) (known : ∀ a ∈ dict.map (·.2), a < h.objects.length)
    (entries : List (Bytes × Bytes)) :
    ∀ a ∈ (setAll h dict entries).1.map (·.2), a < (setAll h dict entries).2.objects.length := by
  induction entries generalizing h dict with
  | nil => exact known
  | cons entry rest ih =>
    apply ih
    intro a mem
    rw [List.map_cons, List.mem_cons] at mem
    rcases mem with rfl | old
    · exact keepNew_lt entry.2
    · exact (known a old).trans_le (extends_keepNew entry.2).length

/-- References taken on the way to a later heap. -/
structure Takes (h : Heap) (refs : Multiset Nat) (h' : Heap) : Prop where
  larger : h.Extends h'
  taken : refs + h.ledger.acquired ≤ h'.ledger.acquired

theorem takes_nothing (h : Heap) : Takes h 0 h := ⟨.refl h, by simp⟩

theorem Takes.keepNew {refs : Multiset Nat} (takes : Takes h refs h') (src : Bytes) :
    Takes h ({(keepNew h' src).1} + refs) (keepNew h' src).2 where
  larger := takes.larger.trans (extends_keepNew src)
  taken := by
    rw [acquired_keepNew, add_assoc]
    exact add_le_add_right takes.taken _

theorem Takes.setAll {refs : Multiset Nat} (takes : Takes h refs h') (dict : StrDict)
    (entries : List (Bytes × Bytes)) : Takes h refs (setAll h' dict entries).2 where
  larger := takes.larger.trans (extends_setAll dict entries)
  taken := takes.taken.trans (extends_setAll dict entries).acquired

theorem made_parseResponse (statusText : Bytes) (headers : List (Bytes × Bytes)) (body : Bytes) :
    Handle.Made h (parseResponse h statusText headers body) := by
  have takes := (((takes_nothing h).setAll [] headers).keepNew body).keepNew statusText
  have dict := setAll_lt (h := h) [] (by simp) headers
  have toBody := extends_keepNew (h := (setAll h [] headers).2) body
  have toStatus := extends_keepNew (h := (keepNew (setAll h [] headers).2 body).2) statusText
  constructor
  · exact takes.larger
  · simpa only [parseResponse, owned_resp, add_zero] using takes.taken
  · intro a mem
    simp only [parseResponse, Handle.strings, List.mem_cons] at mem
    rcases mem with rfl | rfl | old
    · exact keepNew_lt _
    · exact (keepNew_lt body).trans_le toStatus.length
    · exact (dict a old).trans_le (toBody.trans toStatus).length

theorem made_duxrtHttpParseRequest (method path query : Bytes) (headers : List (Bytes × Bytes))
    (body : Bytes) : Handle.Made h (duxrtHttpParseRequest h method path query headers body) := by
  have takes := (((((takes_nothing h).keepNew query).keepNew method).keepNew path).setAll []
    headers).keepNew body
  let h₁ := (keepNew h query).2
  let h₂ := (keepNew h₁ method).2
  let h₃ := (keepNew h₂ path).2
  let h₄ := (setAll h₃ [] headers).2
  have toMethod : h₁.Extends h₂ := extends_keepNew method
  have toPath : h₂.Extends h₃ := extends_keepNew path
  have toHeaders : h₃.Extends h₄ := extends_setAll [] headers
  have toBody : h₄.Extends (keepNew h₄ body).2 := extends_keepNew body
  have dict := setAll_lt (h := h₃) [] (by simp) headers
  constructor
  · exact takes.larger
  · refine le_trans (le_of_eq ?_) takes.taken
    simp only [duxrtHttpParseRequest, owned_req]
    abel
  · intro a mem
    simp only [duxrtHttpParseRequest, Handle.strings, List.mem_cons] at mem
    rcases mem with rfl | rfl | rfl | rfl | old
    · exact (keepNew_lt method).trans_le (toPath.trans (toHeaders.trans toBody)).length
    · exact (keepNew_lt path).trans_le (toHeaders.trans toBody).length
    · exact (keepNew_lt query).trans_le
        (toMethod.trans (toPath.trans (toHeaders.trans toBody))).length
    · exact keepNew_lt body
    · exact (dict a old).trans_le toBody.length

theorem made_duxrtJsonParse (fields : List (Bytes × Bytes)) :
    Handle.Made h (duxrtJsonParse h fields) where
  larger := extends_setAll [] fields
  taken := by
    change ((Handle.json _).owned : Multiset Nat) + _ ≤ _
    rw [owned_json, zero_add]
    exact (extends_setAll [] fields).acquired
  known := setAll_lt _ (by simp) fields

theorem extends_readFdToStr (out : Option Bytes) : h.Extends (readFdToStr h out).2 := by
  cases out with
  | none => exact .refl h
  | some out => exact extends_keepNew out

theorem readFdToStr_lt (out : Option Bytes) :
    ∀ a ∈ (readFdToStr h out).1.toList, a < (readFdToStr h out).2.objects.length := by
  cases out with
  | none => simp [readFdToStr]
  | some out => simpa [readFdToStr] using keepNew_lt out

theorem made_duxrtProcWait {p : Proc} (known : ∀ a ∈ (Handle.proc p).strings, a < h.objects.length)
    (out err : Option Bytes) : Handle.Made h (duxrtProcWait h p out err) := by
  unfold duxrtProcWait
  split
  · exact ⟨.refl h, by simp [owned_proc], known⟩
  · have first := extends_readFdToStr (h := h) out
    have second := extends_readFdToStr (h := (readFdToStr h out).2) err
    constructor
    · exact first.trans second
    · simpa only [owned_proc, zero_add] using (first.trans second).acquired
    · intro a mem
      simp only [Handle.strings, List.mem_append] at mem
      rcases mem with inOut | inErr
      · exact (readFdToStr_lt out a inOut).trans_le second.length
      · exact readFdToStr_lt err a inErr

theorem Handle.free_safe {handle : Handle} (free : handle.free h = some h')
    (safe : h.Safe ((handle.owned : Multiset Nat) + owed)) :
    h'.Safe owed ∧ h'.objects.length = h.objects.length := by
  cases handle with
  | resp r =>
      obtain rfl := Option.some.inj free
      rw [owned_resp, add_assoc] at safe
      constructor
      · unfold duxrtHttpRespFree
        apply Heap.Safe.release (p := some (.heap r.body))
        exact Heap.Safe.release (p := some (.heap r.statusText)) safe
      · simp [duxrtHttpRespFree]
  | req r =>
      obtain rfl := Option.some.inj free
      simp only [owned_req, add_assoc] at safe
      constructor
      · unfold duxrtHttpReqFree
        apply Heap.Safe.release (p := some (.heap r.body))
        apply Heap.Safe.release (p := some (.heap r.query))
        apply Heap.Safe.release (p := some (.heap r.path))
        exact Heap.Safe.release (p := some (.heap r.method)) safe
      · simp [duxrtHttpReqFree]
  | proc p =>
      obtain rfl := Option.some.inj free
      exact ⟨by simpa only [owned_proc, zero_add] using safe, rfl⟩
  | json fields => simp [Handle.free] at free

end Owing

end Dux.Runtime
