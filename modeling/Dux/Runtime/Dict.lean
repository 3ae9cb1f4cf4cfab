import Mathlib.Data.List.Basic

/-!
# The dictionary of the runtime

`DuxDict` (`src/runtime/dict.c`): a hash table with open addressing, linear
probing and tombstones.  Counters are natural numbers; a table for which the
`int64_t` of the source is too small does not fit into memory.  `refcount` and
the ownership of the key copies are left out.

A probe loop goes around the table and changes nothing, so one that passes all
`cap` places never ends.  That is what `none` stands for.
-/

namespace Dux.Runtime

/-- A pointer word. -/
abbrev Ptr := UInt64

abbrev Ptr.null : Ptr := 0

/-- A C string: the bytes before its terminator. -/
structure CString where
  bytes : List UInt8
  noNul : 0 ∉ bytes
  deriving DecidableEq

/-- What the `key` of an entry can be. -/
inductive EntryKey
  | null
  | tombstone
  | str (s : CString)
  deriving DecidableEq

structure DuxDictEntry where
  key : EntryKey := .null
  hash : UInt64 := 0
  val : Ptr := .null

structure DuxDict where
  len : Nat
  cap : Nat
  tomb : Nat
  entries : List DuxDictEntry

abbrev DICT_INIT_CAP : Nat := 16
abbrev DICT_LOAD_NUM : Nat := 3
abbrev DICT_LOAD_DEN : Nat := 4

/-- `hash_str`: FNV-1a. -/
def hashStr (s : CString) : UInt64 :=
  s.bytes.foldl (fun h b => (h ^^^ b.toUInt64) * 1099511628211) 14695981039346656037

def DuxDict.entryAt (d : DuxDict) (idx : Nat) : DuxDictEntry := d.entries.getD idx {}

def DuxDict.start (d : DuxDict) (h : UInt64) : Nat := h.toNat &&& (d.cap - 1)

def DuxDict.next (d : DuxDict) (idx : Nat) : Nat := (idx + 1) &&& (d.cap - 1)

def DuxDict.setEntry (d : DuxDict) (idx : Nat) (e : DuxDictEntry) : DuxDict :=
  { d with entries := d.entries.set idx e }

def duxrtDictNew : DuxDict :=
  { len := 0, cap := DICT_INIT_CAP, tomb := 0, entries := List.replicate DICT_INIT_CAP {} }

/-- The loop of `dict_insert_raw`: the index at which the key is written, and
whether it stands there already. -/
def insertLoop (d : DuxDict) (key : CString) (h : UInt64) :
    Nat → Nat → Option Nat → Option (Nat × Bool)
  | 0, _, _ => none
  | fuel + 1, idx, tombstoneIdx =>
      match (d.entryAt idx).key with
      | .null => some (tombstoneIdx.getD idx, false)
      | .tombstone => insertLoop d key h fuel (d.next idx) (some (tombstoneIdx.getD idx))
      | .str s =>
          if (d.entryAt idx).hash = h ∧ s = key then some (idx, true)
          else insertLoop d key h fuel (d.next idx) tombstoneIdx

def dictInsertRaw (d : DuxDict) (key : CString) (h : UInt64) (val : Ptr) : Option DuxDict := do
  let (idx, known) ← insertLoop d key h d.cap (d.start h) none
  if known then return d.setEntry idx { d.entryAt idx with val := val }
  else return { d.setEntry idx { key := .str key, hash := h, val := val } with len := d.len + 1 }

/-- The loop of `dict_grow` over the old entries. -/
def rehash : List DuxDictEntry → DuxDict → Option DuxDict
  | [], d => some d
  | e :: es, d =>
      match e.key with
      | .str s => do rehash es (← dictInsertRaw d s e.hash e.val)
      | .null => rehash es d
      | .tombstone => rehash es d

def dictGrow (d : DuxDict) : Option DuxDict :=
  rehash d.entries
    { len := 0, cap := d.cap * 2, tomb := 0, entries := List.replicate (d.cap * 2) {} }

/-- `duxrt_dict_set`; a null key is ignored. -/
def duxrtDictSet (d : DuxDict) (key : Option CString) (val : Ptr) : Option DuxDict :=
  match key with
  | none => some d
  | some k => do
      let d ← if d.cap * DICT_LOAD_NUM ≤ (d.len + d.tomb) * DICT_LOAD_DEN then dictGrow d
        else some d
      dictInsertRaw d k (hashStr k) val

/-- The loop that `duxrt_dict_get`, `duxrt_dict_has` and `duxrt_dict_del` share:
the index of a key, if it is found. -/
def findLoop (d : DuxDict) (key : CString) (h : UInt64) : Nat → Nat → Option (Option Nat)
  | 0, _ => none
  | fuel + 1, idx =>
      match (d.entryAt idx).key with
      | .null => some none
      | .tombstone => findLoop d key h fuel (d.next idx)
      | .str s =>
          if (d.entryAt idx).hash = h ∧ s = key then some (some idx)
          else findLoop d key h fuel (d.next idx)

/-- The search for a key from the start of its probe sequence. -/
def findKey (d : DuxDict) (key : CString) : Option (Option Nat) :=
  findLoop d key (hashStr key) d.cap (d.start (hashStr key))

def duxrtDictGet (d : DuxDict) (key : Option CString) : Option Ptr :=
  match key with
  | none => some .null
  | some k => do
      match ← findKey d k with
      | some idx => return (d.entryAt idx).val
      | none => return .null

def duxrtDictHas (d : DuxDict) (key : Option CString) : Option Nat :=
  match key with
  | none => some 0
  | some k => do
      match ← findKey d k with
      | some _ => return 1
      | none => return 0

def duxrtDictDel (d : DuxDict) (key : Option CString) : Option DuxDict :=
  match key with
  | none => some d
  | some k => do
      match ← findKey d k with
      | some idx =>
          return { d.setEntry idx { key := .tombstone, hash := 0, val := .null } with
            len := d.len - 1, tomb := d.tomb + 1 }
      | none => return d

def duxrtDictLen (d : DuxDict) : Nat := d.len

/-! ## Sequences of calls -/

inductive DictCall
  | set (key : CString) (val : Ptr)
  | get (key : CString)
  | has (key : CString)
  | del (key : CString)
  | len

/-- What a call returns. -/
inductive DictReply
  | done
  | ptr (p : Ptr)
  | int (n : Nat)
  deriving DecidableEq

def DictCall.exec (d : DuxDict) : DictCall → Option (DuxDict × DictReply)
  | .set key val => do return (← duxrtDictSet d (some key) val, .done)
  | .get key => do return (d, .ptr (← duxrtDictGet d (some key)))
  | .has key => do return (d, .int (← duxrtDictHas d (some key)))
  | .del key => do return (← duxrtDictDel d (some key), .done)
  | .len => return (d, .int (duxrtDictLen d))

def execCalls (d : DuxDict) : List DictCall → Option (DuxDict × List DictReply)
  | [] => some (d, [])
  | c :: cs => do
      let (d, r) ← c.exec d
      let (d, rs) ← execCalls d cs
      return (d, r :: rs)

end Dux.Runtime
