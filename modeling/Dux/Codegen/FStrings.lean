import Dux.Codegen.Strings

/-!
# F-strings

The parser turns an f-string into a sum of its literal chunks and of conversions
of its interpolations (`src/parser/dux.y`), and the emitter turns the conversions
into code.  Only an f-string that is one conversion and nothing else can be a
frame buffer.
-/

namespace Dux.Codegen.Str

def makeStrLit (text : String) : Expr := .stringLit TypeRegistry.TID_UNKNOWN text

def makeFstrToStr (e : Expr) : Expr :=
  .call TypeRegistry.TID_UNKNOWN (.ident TypeRegistry.TID_UNKNOWN "__fstr_to_str") [e]

def makeStrConcat (left : Option Expr) (right : Expr) : Expr :=
  match left with
  | none => right
  | some left => .binary TypeRegistry.TID_UNKNOWN .add left right

/-- A chunk behind the tree, unless it is empty. -/
def addChunk (tree : Option Expr) (chunk : String) : Option Expr :=
  if chunk = "" then tree else some (makeStrConcat tree (makeStrLit chunk))

/-- `fstr_parts`: every interpolation with the chunk before it. -/
def fstrParts (parts : List (String × Expr)) : Option Expr :=
  parts.foldl (fun tree part => some (makeStrConcat (addChunk tree part.1) (makeFstrToStr part.2)))
    none

/-- `fstring_expr`: the parts and the last chunk. -/
def fstringExpr (parts : List (String × Expr)) (tail : String) : Expr :=
  (addChunk (fstrParts parts) tail).getD (makeStrLit "")

/-- What the run is told about expressions: what evaluating one does to strings,
and the number, the truth value or the formatted number that it yields. -/
structure Reading where
  acts : Expr → List Act
  int : Expr → Int
  bool : Expr → Bool
  real : Expr → String

/-- `gen_call` for `__fstr_to_str`, with frame buffers numbered from `site` on. -/
def genFstrToStr (reading : Reading) (e : Expr) (site : Nat) : List Act × Nat :=
  if e.tid = TypeRegistry.TID_BOOL then
    (reading.acts e ++ [.literal (if reading.bool e then "true" else "false")], site)
  else if e.tid = TypeRegistry.TID_INT ∨ e.tid = TypeRegistry.TID_LONG then
    (reading.acts e ++ [.format site (reading.int e)], site + 1)
  else if e.tid = TypeRegistry.TID_DOUBLE ∨ e.tid = TypeRegistry.TID_REAL then
    (reading.acts e ++ [.fresh (reading.real e)], site)
  else (reading.acts e, site)

/-- `gen_expr` for the expressions that an f-string is made of. -/
def genStr (reading : Reading) : Expr → Nat → List Act × Nat
  | .stringLit _ text, site => ([.literal text], site)
  | .binary _ .add left right, site =>
      let (l, site) := genStr reading left site
      let (r, site) := genStr reading right site
      (l ++ r ++ [.concat], site)
  | .call _ (.ident _ "__fstr_to_str") [e], site => genFstrToStr reading e site
  | e, site => (reading.acts e, site)

theorem fstrParts_append (parts : List (String × Expr)) (chunk : String) (e : Expr) :
    fstrParts (parts ++ [(chunk, e)]) =
      some (makeStrConcat (addChunk (fstrParts parts) chunk) (makeFstrToStr e)) := by
  simp [fstrParts, List.foldl_append]

theorem fstrParts_eq_none {parts : List (String × Expr)} (isNone : fstrParts parts = none) :
    parts = [] := by
  rcases parts.eq_nil_or_concat with rfl | ⟨before, ⟨chunk, e⟩, rfl⟩
  · rfl
  · simp [fstrParts_append] at isNone

theorem addChunk_eq_none {tree : Option Expr} {chunk : String}
    (isNone : addChunk tree chunk = none) : tree = none ∧ chunk = "" := by
  unfold addChunk at isNone
  split at isNone
  · next empty => exact ⟨isNone, empty⟩
  · contradiction

theorem fstringExpr_cases (parts : List (String × Expr)) (tail : String) :
    (∃ text, fstringExpr parts tail = makeStrLit text) ∨
      (∃ e, parts = [("", e)] ∧ tail = "" ∧ fstringExpr parts tail = makeFstrToStr e) ∨
      ∃ tid left right, fstringExpr parts tail = .binary tid .add left right := by
  unfold fstringExpr
  rcases parts.eq_nil_or_concat with rfl | ⟨before, ⟨chunk, e⟩, rfl⟩
  · left
    by_cases empty : tail = ""
    · exact ⟨"", by simp [fstrParts, addChunk, empty]⟩
    · exact ⟨tail, by simp [fstrParts, addChunk, empty, makeStrConcat]⟩
  · right
    rw [List.concat_eq_append, fstrParts_append]
    by_cases empty : tail = ""
    · cases tree : addChunk (fstrParts before) chunk with
      | none =>
          left
          rcases addChunk_eq_none tree with ⟨isNone, rfl⟩
          obtain rfl := fstrParts_eq_none isNone
          exact ⟨e, rfl, empty, by simp [addChunk, empty, makeStrConcat]⟩
      | some left =>
          right
          exact ⟨TypeRegistry.TID_UNKNOWN, left, makeFstrToStr e,
            by simp [addChunk, empty, makeStrConcat]⟩
    · right
      exact ⟨TypeRegistry.TID_UNKNOWN,
        makeStrConcat (addChunk (fstrParts before) chunk) (makeFstrToStr e), makeStrLit tail,
        by rw [addChunk, if_neg empty]; rfl⟩

section Runs

variable {invoke : String → Nat → Bool → Store → Answer × Store}

theorem runActs_append (first second : List Act) (s : Store) :
    runActs invoke (first ++ second) s =
      match runActs invoke first s with
      | (.ok, s') => runActs invoke second s'
      | r => r := by
  induction first generalizing s with
  | nil => simp [runActs]
  | cons act first ih =>
    simp only [List.cons_append, runActs]
    split
    · exact ih _
    · next notOk =>
        split
        · next ok => exact absurd ok (notOk _)
        · rfl

theorem pop_push {s s' : Store} {v w : Operand} (popped : (s.push v).pop = some (w, s')) :
    w = v := by
  unfold Store.pop at popped
  cases isCalls : s.calls with
  | nil => simp [Store.push, Store.onCall, isCalls] at popped
  | cons c cs =>
    simp only [Store.push, Store.onCall, isCalls, List.modify_zero_cons, Option.some.injEq,
      Prod.mk.injEq] at popped
    exact popped.1.symm

/-- An f-string whose value is a frame buffer is one interpolation and nothing
else. -/
theorem alone_of_buffer {reading : Reading} {parts : List (String × Expr)} {tail : String}
    {site call k : Nat} {s s' s'' : Store} {v : Operand}
    (run : runActs invoke (genStr reading (fstringExpr parts tail) site).1 s = (.ok, s'))
    (popped : s'.pop = some (v, s'')) (isBuffer : v.holding.ref = .buffer call k) :
    ∃ e, parts = [("", e)] ∧ tail = "" := by
  rcases fstringExpr_cases parts tail with ⟨text, isLit⟩ | ⟨e, alone, empty, -⟩ |
    ⟨tid, left, right, isSum⟩
  · rw [isLit] at run
    simp only [makeStrLit, genStr, runActs, Act.run, Prod.mk.injEq, true_and] at run
    subst run
    simp [pop_push popped, Holding.literal] at isBuffer
  · exact ⟨e, alone, empty⟩
  · rw [isSum] at run
    simp only [genStr] at run
    rw [runActs_append] at run
    split at run
    · next s₁ _ =>
        simp only [runActs, Act.run, Prod.mk.injEq, true_and] at run
        subst run
        simp [pop_push popped, Holding.fresh] at isBuffer
    · next notOk => exact absurd run (notOk s')

end Runs

end Dux.Codegen.Str
