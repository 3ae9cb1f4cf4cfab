import Dux.Logic.Ledger

/-!
# Counted objects of the runtime

`DuxStr` and `DuxList` (`src/runtime/str.c`, `src/runtime/list.c`).  A literal
of the program has the count −1 and is never freed; here it has an address of
its own kind.  An object is freed when its count reaches zero, and keeps its
place on the heap.

Beside the objects the heap keeps a ledger of the references taken and given
up, which no function reads.
-/

namespace Dux.Runtime

open Logic

abbrev Bytes := List UInt8

/-- Where an object lives: in the constants of the program, or on the heap. -/
inductive Addr
  | literal (i : Nat)
  | heap (a : Nat)
  deriving DecidableEq

/-- A `DuxStr*` or `DuxList*`; `none` is null. -/
abbrev Ref := Option Addr

/-- What an object holds. -/
inductive Content
  | str (data : Bytes)
  | list (elems : List Ref)

/-- An object and its `refcount`. -/
structure Object where
  refcount : Nat
  content : Content

/-- The literals of the program and everything allocated so far. -/
structure Heap where
  literals : List Bytes
  objects : List Object := []
  ledger : Ledger Nat := {}

/-- The references that are counted: one for a pointer to the heap. -/
def Ref.counted : Ref → Multiset Nat
  | some (.heap a) => {a}
  | some (.literal _) => 0
  | none => 0

namespace Heap

def refcount (h : Heap) (a : Nat) : Nat := (h.objects[a]?.map (·.refcount)).getD 0

def bytes (h : Heap) : Addr → Bytes
  | .literal i => h.literals.getD i []
  | .heap a =>
      match h.objects[a]? with
      | some ⟨_, .str data⟩ => data
      | _ => []

/-- Whether a pointer points to an object, or to none. -/
def valid (h : Heap) : Ref → Bool
  | some (.heap a) => a < h.objects.length
  | some (.literal _) => true
  | none => true

/-- `malloc` of a counted object. -/
def new (h : Heap) (content : Content) : Ref × Heap :=
  (some (.heap h.objects.length),
    { h with
      objects := h.objects ++ [⟨1, content⟩]
      ledger := h.ledger.acquire {h.objects.length} })

/-- Change the count of an object. -/
def count (h : Heap) (a : Nat) (change : Nat → Nat) : Heap :=
  { h with objects := h.objects.modify a fun o => { o with refcount := change o.refcount } }

/-- `duxrt_str_retain`, `duxrt_list_retain`. -/
def retain (h : Heap) : Ref → Ref × Heap
  | some (.heap a) =>
      (some (.heap a), { h.count a (· + 1) with ledger := h.ledger.acquire {a} })
  | p => (p, h)

/-- `duxrt_str_release`, `duxrt_list_release`. -/
def release (h : Heap) : Ref → Heap
  | some (.heap a) => { h.count a (· - 1) with ledger := h.ledger.release {a} }
  | _ => h

end Heap

def duxrtStrNew (h : Heap) (src : Bytes) : Ref × Heap := h.new (.str src)

/-- New strings, one after the other. -/
def newStrs (h : Heap) : List Bytes → List Ref × Heap
  | [] => ([], h)
  | src :: rest =>
      let (p, h) := duxrtStrNew h src
      let (ps, h) := newStrs h rest
      (p :: ps, h)

/-- A list of new strings, as `duxrt_list_new` and `duxrt_list_push` make it. -/
def newStrList (h : Heap) (items : List Bytes) : Ref × Heap :=
  let (elems, h) := newStrs h items
  h.new (.list elems)

/-! ## Functions that may return their argument -/

/-- `mem_find`: the first place at which one string occurs in another. -/
def memFind (haystack needle : Bytes) : Option Nat :=
  if needle = [] then some 0
  else (List.range (haystack.length + 1 - needle.length)).find? fun i =>
    needle.isPrefixOf (haystack.drop i)

def duxrtStrReplace (h : Heap) : Ref → Ref → Ref → Ref × Heap
  | none, _, _ => duxrtStrNew h []
  | some s, none, _ => h.retain (some s)
  | some s, some pat, repl =>
      let text := h.bytes s
      let needle := h.bytes pat
      if needle = [] then h.retain (some s)
      else
        match memFind text needle with
        | none => h.retain (some s)
        | some idx =>
            duxrtStrNew h (text.take idx ++ repl.elim [] h.bytes ++
              text.drop (idx + needle.length))

/-- The loop of `duxrt_str_replace_all` from a position on, with fuel for every
character that is left. -/
def replaceLoop (needle repl : Bytes) : Nat → Bytes → Bytes
  | 0, text => text
  | _, [] => []
  | fuel + 1, c :: text =>
      if needle.isPrefixOf (c :: text) then
        repl ++ replaceLoop needle repl fuel ((c :: text).drop needle.length)
      else c :: replaceLoop needle repl fuel text

def duxrtStrReplaceAll (h : Heap) : Ref → Ref → Ref → Ref × Heap
  | none, _, _ => duxrtStrNew h []
  | some s, none, _ => h.retain (some s)
  | some s, some pat, repl =>
      let text := h.bytes s
      let needle := h.bytes pat
      if needle = [] then h.retain (some s)
      else duxrtStrNew h (replaceLoop needle (repl.elim [] h.bytes) text.length text)

/-- What `duxrt_regex_replace` and `duxrt_regex_replace_all` share: the text
itself unless the expression is valid, the arguments are there and a new text
is made. -/
def regexReplace (h : Heap) (valid : Bool) (made : Option Bytes) : Ref → Ref → Ref × Heap
  | none, _ => duxrtStrNew h []
  | some text, none => h.retain (some text)
  | some text, some _ =>
      match valid, made with
      | true, some data => duxrtStrNew h data
      | _, _ => h.retain (some text)

/-- `duxrt_regex_replace`; nothing is made if there is no match. -/
abbrev duxrtRegexReplace := regexReplace

abbrev duxrtRegexReplaceAll := regexReplace

/-- `duxrt_regex_split`: the text itself where the expression is not valid. -/
def duxrtRegexSplit (h : Heap) (valid : Bool) (pieces : List Bytes) (text : Ref) : Ref × Heap :=
  match valid, text with
  | true, some _ => newStrList h pieces
  | _, none => h.new (.list [])
  | false, some s =>
      let (p, h) := h.retain (some s)
      h.new (.list [p])

end Dux.Runtime
