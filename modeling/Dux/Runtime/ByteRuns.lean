import Dux.Runtime.ByteReads

/-!
# Runs over byte buffers

Any sequence of calls that make buffers and fill them.  Seen from outside a buffer is the
sequence of its bytes, and what has been written into it is read back at the offset at which
the buffer ended.
-/

namespace Dux.Runtime.ByteBuffer

open Logic
open Text (DuxStr Built strOf)

/-- The buffers of a program; a handle is an index. -/
abbrev Store := List DuxBytes

/-- A call that makes a buffer or fills one. -/
inductive Call
  | new (cap : Int)
  | fromStr (s : Option DuxStr)
  | slice (h : Nat) (start endPos : Int)
  | push (h : Nat) (val : Int)
  | append (dst src : Nat)
  | write (k : Kind) (h : Nat) (v : Int)

/-- Change a buffer; nothing happens for a null pointer. -/
def onBuffer (store : Store) (h : Nat) (f : DuxBytes → Except Stop DuxBytes) :
    Except Stop Store :=
  match store[h]? with
  | none => .ok store
  | some b => do
      let b ← f b
      return store.set h b

/-- The growth in `duxrt_bytes_append`. -/
def growIfShort (m : Malloc) (d : DuxBytes) (needed : Int) : Except Stop DuxBytes :=
  if d.cap < needed then growTo m d needed else .ok d

/-- `duxrt_bytes_append`; the memory of `src` is looked up after `dst` has grown. -/
def duxrtBytesAppend (m : Malloc) (store : Store) (dst src : Nat) : Except Stop Store :=
  match store[dst]?, store[src]? with
  | some d, some s =>
      if s.len = 0 then .ok store
      else do
        let needed := int64 (d.len + s.len)
        let d ← growIfShort m d needed
        let store := store.set dst d
        let s := store[src]?.getD s
        let bytes ← s.data.read 0 s.len.toNat
        let data ← d.data.memcpy d.len bytes s.len
        return store.set dst { d with data := data, len := int64 (d.len + s.len) }
  | _, _ => .ok store

def exec (m : Malloc) (store : Store) : Call → Except Stop Store
  | .new cap => do
      let b ← duxrtBytesNew m cap
      return store ++ [b]
  | .fromStr s => do
      let b ← duxrtBytesFromStr m s
      return store ++ [b]
  | .slice h start endPos => do
      let b ← duxrtBytesSlice m store[h]? start endPos
      return store ++ [b]
  | .push h val => onBuffer store h fun b => duxrtBytesPush m b val
  | .append dst src => duxrtBytesAppend m store dst src
  | .write k h v => onBuffer store h fun b => k.write m b v

/-- A run, with the memory that each call gets. -/
def run (store : Store) : List (Malloc × Call) → Except Stop Store
  | [] => .ok store
  | (m, c) :: calls => do
      let store ← exec m store c
      run store calls

/-! ## What the buffers are for -/

def specExec (contents : List Bytes) : Call → List Bytes
  | .new _ => contents ++ [[]]
  | .fromStr s => contents ++ [DuxStr.text s]
  | .slice h start endPos => contents ++ [sliceOf (contents.getD h []) start endPos]
  | .push h val => contents.modify h (· ++ [byteOf val 0])
  | .append dst src => contents.modify dst (· ++ contents.getD src [])
  | .write k h v => contents.modify h (· ++ k.encode v)

/-- What a run does to the contents of the buffers. -/
def specRun (contents : List Bytes) (calls : List Call) : List Bytes :=
  calls.foldl specExec contents

/-- Every buffer holds its contents. -/
def Store.Holds (store : Store) (contents : List Bytes) : Prop :=
  List.Forall₂ DuxBytes.Holds store contents

namespace Store.Holds

variable {m : Malloc} {store : Store} {contents : List Bytes}

theorem getElem? (holds : store.Holds contents) (h : Nat) :
    (store[h]? = none ∧ contents[h]? = none) ∨
      ∃ b data, store[h]? = some b ∧ contents[h]? = some data ∧ b.Holds data := by
  induction holds generalizing h with
  | nil => exact .inl ⟨rfl, rfl⟩
  | cons first rest ih =>
    cases h with
    | zero => exact .inr ⟨_, _, rfl, rfl, first⟩
    | succ h => exact ih h

theorem set (holds : store.Holds contents) {h : Nat} {b : DuxBytes} {data : Bytes}
    (new : b.Holds data) : Store.Holds (store.set h b) (contents.set h data) := by
  induction holds generalizing h with
  | nil => exact .nil
  | cons first rest ih =>
    cases h with
    | zero => exact .cons new rest
    | succ h => exact .cons first ih

theorem append (holds : store.Holds contents) {b : DuxBytes} {data : Bytes} (new : b.Holds data) :
    Store.Holds (store ++ [b]) (contents ++ [data]) :=
  List.rel_append holds (.cons new .nil)

theorem onBuffer (holds : store.Holds contents) {h : Nat} {f : DuxBytes → Except Stop DuxBytes}
    {g : Bytes → Bytes}
    (keeps : ∀ b data, b.Holds data → OrAborts (f b) fun b' => b'.Holds (g data)) :
    OrAborts (onBuffer store h f) fun store' => store'.Holds (contents.modify h g) := by
  rw [ByteBuffer.onBuffer]
  rcases holds.getElem? h with ⟨isNull, none'⟩ | ⟨b, data, isBuffer, isData, held⟩
  · rw [isNull, List.modify_eq_self (List.getElem?_eq_none_iff.1 none')]
    exact .inr ⟨store, rfl, holds⟩
  · rw [isBuffer]
    refine (keeps b data held).bind fun b' held' => .inr ⟨_, rfl, ?_⟩
    rw [List.modify_eq_set_getElem?, isData]
    exact holds.set held'

theorem appendBuffer (holds : store.Holds contents) (dst src : Nat) :
    OrAborts (duxrtBytesAppend m store dst src) fun store' =>
      store'.Holds (contents.modify dst (· ++ contents.getD src [])) := by
  have unchanged (same : contents.modify dst (· ++ contents.getD src []) = contents) :
      OrAborts (.ok store) fun store' : Store =>
        store'.Holds (contents.modify dst (· ++ contents.getD src [])) :=
    .inr ⟨store, rfl, same.symm ▸ holds⟩
  have nothing (empty : contents.getD src [] = []) :
      contents.modify dst (· ++ contents.getD src []) = contents := by
    rw [empty]
    simp only [List.append_nil]
    exact List.modify_id _ _
  rw [duxrtBytesAppend]
  rcases holds.getElem? dst with ⟨isNull, none'⟩ | ⟨d, dataD, isDst, isDataD, heldD⟩
  · rw [isNull]
    exact unchanged (List.modify_eq_self (List.getElem?_eq_none_iff.1 none'))
  rcases holds.getElem? src with ⟨isNull, none'⟩ | ⟨s, dataS, isSrc, isDataS, heldS⟩
  · rw [isDst, isNull]
    refine unchanged (nothing ?_)
    rw [List.getD_eq_getElem?_getD, none', Option.getD_none]
  have isDataS' : contents.getD src [] = dataS := by
    rw [List.getD_eq_getElem?_getD, isDataS, Option.getD_some]
  rw [isDst, isSrc]
  dsimp only
  split
  · next empty =>
    rw [heldS.len, Nat.cast_eq_zero, List.length_eq_zero_iff] at empty
    exact unchanged (nothing (isDataS'.trans empty))
  · have smallD := heldD.small
    have smallS := heldS.small
    have needed : int64 (d.len + s.len) = (dataD.length + dataS.length : Nat) := by
      rw [heldD.len, heldS.len]
      exact int64_of_natCast (n := dataD.length + dataS.length) (by omega)
    rw [needed]
    have grown : OrAborts (growIfShort m d (dataD.length + dataS.length : Nat)) fun d' =>
        d'.Holds dataD ∧ ((dataD.length + dataS.length : Nat) : Int) ≤ d'.cap := by
      rw [growIfShort]
      split
      · exact heldD.growTo (by omega)
      · next room => exact .inr ⟨d, rfl, heldD, Int.not_lt.1 room⟩
    refine grown.bind fun d' ⟨heldD', room⟩ => .inr ?_
    have holds' := holds.set (h := dst) heldD'
    have same : contents.set dst dataD = contents := by
      obtain ⟨inside, rfl⟩ := List.getElem?_eq_some_iff.1 isDataD
      exact List.set_getElem_self inside
    rw [same] at holds'
    obtain ⟨s', isSrc', heldS'⟩ : ∃ s', (store.set dst d')[src]? = some s' ∧ s'.Holds dataS := by
      rcases holds'.getElem? src with ⟨-, none'⟩ | ⟨s', data', isSrc', isData', held'⟩
      · rw [isDataS] at none'
        cases none'
      · rw [isDataS, Option.some.injEq] at isData'
        exact ⟨s', isSrc', isData' ▸ held'⟩
    rw [isSrc', Option.getD_some]
    have read : s'.data.read 0 s'.len.toNat = .ok dataS := by
      rw [heldS'.len, Int.toNat_natCast]
      exact Block.Holds.read [] dataS []
        (by rw [List.append_nil]; exact heldS'.holds)
    have cap := heldD'.cap
    obtain ⟨block, copied, held, length⟩ := heldD'.holds.write dataS (by omega)
    have total : int64 (d'.len + s'.len) = (dataD ++ dataS).length := by
      rw [heldD'.len, heldS'.len, List.length_append]
      exact int64_of_natCast (n := dataD.length + dataS.length) (by omega)
    rw [← Block.memcpy_self, ← heldD'.len, ← heldS'.len] at copied
    rw [read, ok_bind, copied, ok_bind, total]
    refine ⟨_, rfl, ?_⟩
    rw [List.modify_eq_set_getElem?, isDataD, isDataS']
    exact holds'.set ⟨held, rfl, (congrArg _ length).trans cap, heldD'.positive,
      heldD'.addressable⟩

theorem exec (holds : store.Holds contents) (c : Call) :
    OrAborts (exec m store c) fun store' => store'.Holds (specExec contents c) := by
  cases c with
  | new cap =>
    exact (holds_duxrtBytesNew m cap).bind fun b made => .inr ⟨_, rfl, holds.append made.1⟩
  | fromStr s =>
    exact (holds_duxrtBytesFromStr m s).bind fun b made => .inr ⟨_, rfl, holds.append made⟩
  | slice h start endPos =>
    rw [ByteBuffer.exec, specExec, List.getD_eq_getElem?_getD]
    rcases holds.getElem? h with ⟨isNull, none'⟩ | ⟨b, data, isBuffer, isData, held⟩
    · rw [isNull, none', Option.getD_none]
      refine (holds_duxrtBytesNew m 8).bind fun b made => .inr ⟨_, rfl, holds.append ?_⟩
      rw [sliceOf, List.take_nil, List.drop_nil]
      exact made.1
    · rw [isBuffer, isData, Option.getD_some]
      exact (held.slice m start endPos).bind fun b made => .inr ⟨_, rfl, holds.append made⟩
  | push h val => exact holds.onBuffer fun b data held => held.push val
  | append dst src => exact holds.appendBuffer dst src
  | write k h v =>
    refine holds.onBuffer fun b data held => ?_
    rw [Kind.write_eq]
    exact held.writeBytes (by
      rw [Kind.length_encode]
      cases k <;> decide)

theorem run (holds : store.Holds contents) (calls : List (Malloc × Call)) :
    OrAborts (run store calls) fun store' =>
      store'.Holds (specRun contents (calls.map Prod.snd)) := by
  induction calls generalizing store contents with
  | nil => exact .inr ⟨store, rfl, holds⟩
  | cons call calls ih => exact (holds.exec call.2).bind fun store' holds' => ih holds'

end Store.Holds

/-! ## Reading back -/

theorem specExec_prefix (c : Call) {contents : List Bytes} {h : Nat} {data : Bytes}
    (isData : contents[h]? = some data) :
    ∃ more, (specExec contents c)[h]? = some (data ++ more) := by
  have inside := (List.getElem?_eq_some_iff.1 isData).1
  have added (new : Bytes) : ∃ more, (contents ++ [new])[h]? = some (data ++ more) := by
    refine ⟨[], ?_⟩
    rw [List.getElem?_append_left inside, isData, List.append_nil]
  have modified (i : Nat) (extra : Bytes) :
      ∃ more, (contents.modify i (· ++ extra))[h]? = some (data ++ more) := by
    rw [List.getElem?_modify, isData]
    by_cases here : i = h
    · exact ⟨extra, by simp [here]⟩
    · exact ⟨[], by simp [here]⟩
  cases c with
  | new cap => exact added []
  | fromStr s => exact added _
  | slice h start endPos => exact added _
  | push h val => exact modified h _
  | append dst src => exact modified dst _
  | write k h v => exact modified h _

theorem specRun_prefix (calls : List Call) {contents : List Bytes} {h : Nat} {data : Bytes}
    (isData : contents[h]? = some data) :
    ∃ more, (specRun contents calls)[h]? = some (data ++ more) := by
  induction calls generalizing contents data with
  | nil => exact ⟨[], by rw [List.append_nil]; exact isData⟩
  | cons c calls ih =>
    obtain ⟨more, isData'⟩ := specExec_prefix c isData
    obtain ⟨more', isData''⟩ := ih isData'
    exact ⟨more ++ more', by rw [← List.append_assoc]; exact isData''⟩

/-- The value of a word that is read back: what was written modulo 2 to the width, as a signed
number for words of 64 bits. -/
def Kind.value (k : Kind) (v : Int) : Int :=
  if k.width = 8 then int64 v else v % 2 ^ (8 * k.width)

theorem Kind.decode_encode (k : Kind) (v : Int) : k.decode (k.encode v) = k.value v := by
  have big (n : Nat) : ((shiftIn 0 (littleBytes n v).reverse : Nat) : Int) = v % 256 ^ n := by
    rw [shiftIn_littleBytes]
    exact Int.toNat_of_nonneg (Int.emod_nonneg v (Int.ne_of_gt (Int.pow_pos (by decide))))
  have little (n : Nat) : ((orIn (littleBytes n v) : Nat) : Int) = v % 256 ^ n := by
    rw [orIn_eq, big]
  have wide : int64 (v % 256 ^ 8) = int64 v := Int.emod_bmod v (2 ^ 64)
  cases k with
  | u8 => exact big 1
  | u16Le => exact little 2
  | u16Be => exact big 2
  | u32Le => exact little 4
  | u32Be => exact big 4
  | u64Le => exact (congrArg int64 (little 8)).trans wide
  | u64Be => exact (congrArg int64 (big 8)).trans wide

/-- The words, the strings and the parts that come back from a run. -/
structure RoundTrips (calls : List Call) (store : Store) : Prop where
  holds : store.Holds (specRun [] calls)
  read : ∀ before k h v after data, calls = before ++ .write k h v :: after →
    (specRun [] before)[h]? = some data →
      k.read store[h]? data.length = .ok (k.value v)
  slice : ∀ m h start endPos, OrAborts (duxrtBytesSlice m store[h]? start endPos) fun out =>
    out.Holds (sliceOf ((specRun [] calls).getD h []) start endPos)
  toStr : ∀ h, duxrtBytesToStr store[h]? = strOf ((specRun [] calls).getD h [])

/-- A run is aborted for lack of memory, or everything comes back. -/
theorem run_roundTrips (calls : List (Malloc × Call)) :
    OrAborts (run [] calls) (RoundTrips (calls.map Prod.snd)) := by
  refine (Store.Holds.run .nil calls).imp fun store holds => ⟨holds, ?_, ?_, ?_⟩
  · intro before k h v after data whole isData
    have positive := k.width_pos
    have written : (specRun [] (before ++ [.write k h v]))[h]? = some (data ++ k.encode v) := by
      rw [specRun, List.foldl_append, ← specRun]
      exact (List.getElem?_modify_eq ..).trans (congrArg (Option.map _) isData)
    have split : specRun [] (calls.map Prod.snd) =
        specRun (specRun [] (before ++ [.write k h v])) after := by
      rw [whole, ← List.singleton_append, ← List.append_assoc, specRun, List.foldl_append]
      rfl
    obtain ⟨more, isLast⟩ := specRun_prefix after written
    rw [← split] at isLast
    rcases holds.getElem? h with ⟨-, none'⟩ | ⟨b, data', isBuffer, isData', held⟩
    · rw [isLast] at none'
      cases none'
    · obtain rfl : data' = data ++ k.encode v ++ more := by
        rw [isLast, Option.some.injEq] at isData'
        exact isData'.symm
      have small := held.small
      have length : (data ++ k.encode v ++ more).length = data.length + k.width + more.length := by
        rw [List.length_append, List.length_append, Kind.length_encode]
      rw [isBuffer, held.read k (.inr (by omega)), if_pos (by omega), Int.toNat_natCast,
        List.append_assoc, List.drop_left, List.take_left' (Kind.length_encode k v),
        Kind.decode_encode]
  · intro m h start endPos
    rw [List.getD_eq_getElem?_getD]
    rcases holds.getElem? h with ⟨isNull, none'⟩ | ⟨b, data, isBuffer, isData, held⟩
    · rw [isNull, none', Option.getD_none, sliceOf, List.take_nil, List.drop_nil]
      exact (holds_duxrtBytesNew m 8).imp fun _ => And.left
    · rw [isBuffer, isData, Option.getD_some]
      exact held.slice m start endPos
  · intro h
    rw [List.getD_eq_getElem?_getD]
    rcases holds.getElem? h with ⟨isNull, none'⟩ | ⟨b, data, isBuffer, isData, held⟩
    · rw [isNull, none', Option.getD_none]
      exact Text.duxrtStrNew_some []
    · rw [isBuffer, isData, Option.getD_some]
      exact held.toStr

/-! ## A buffer that is too long for a string -/

/-- All memory there is. -/
def Malloc.all : Malloc where
  grants size := size < 2 ^ 57
  addressable size granted := by simpa using granted

def longest : DuxStr := ⟨List.replicate Text.int32Max 0x61, Nat.le_of_eq List.length_replicate⟩

theorem duxrtBytesNew_all (cap : Int) (large : 8 ≤ cap) (small : cap < 2 ^ 57) :
    ∃ b, duxrtBytesNew .all cap = .ok b ∧ b.Holds [] ∧ cap ≤ b.cap := by
  refine (holds_duxrtBytesNew .all cap).resolve_left fun aborts => ?_
  have granted : Malloc.all.grants cap.toNat = true := decide_eq_true (by omega)
  rw [duxrtBytesNew, if_neg (Int.not_lt.2 large), Malloc.alloc, if_pos granted, ok_bind] at aborts
  cases aborts

/-- One more byte than a string can have. -/
theorem not_preserved_longest : ∃ store,
    run [] [(.all, .fromStr (some longest)), (.all, .push 0 0x61)] = .ok store ∧
      store.Holds [longest.chars ++ [0x61]] ∧ duxrtBytesToStr store[0]? = .error .abort := by
  have length : longest.chars.length = Text.int32Max := List.length_replicate
  have limit : Text.int32Max = 2147483647 := rfl
  have len : longest.len = Text.int32Max := by rw [DuxStr.len, length]
  obtain ⟨b, made, empty, room⟩ := duxrtBytesNew_all (longest.len + 1) (by omega) (by omega)
  obtain ⟨block, copied, filled⟩ := empty.fill longest.chars (by omega)
  obtain ⟨b', pushed, holds, -⟩ := filled.pushByte (c := 0x61) (by
    dsimp only
    omega)
  refine ⟨[b'], ?_, .cons holds .nil, ?_⟩
  · have first : duxrtBytesFromStr .all (some longest) =
        .ok { b with data := block, len := longest.chars.length } := by
      rw [duxrtBytesFromStr, made, ok_bind, DuxStr.len, copied]
      rfl
    have second : duxrtBytesPush .all { b with data := block, len := longest.chars.length } 0x61 =
        .ok b' := by
      rw [duxrtBytesPush, if_neg]
      · exact pushed
      · dsimp only
        omega
    have pushed' : exec .all [{ b with data := block, len := longest.chars.length }]
        (.push 0 0x61) = .ok [b'] := by
      rw [exec, onBuffer]
      simp only [List.getElem?_cons_zero, second, ok_bind]
      rfl
    rw [run, exec, first, ok_bind, pure_eq_ok, ok_bind, List.nil_append, run, pushed', ok_bind, run]
  · rw [List.getElem?_cons_zero, holds.toStr, strOf, if_neg]
    rw [List.length_append, List.length_singleton]
    omega

end Dux.Runtime.ByteBuffer
