import Dux.Runtime.ListRuns

/-!
# Random numbers

`src/runtime/random_rt.c`: the generator xoshiro256** with one state for the whole program, and
what is drawn from it.  Signed arithmetic wraps around, as it does in the machine.
-/

namespace Dux.Runtime.Random

/-! ## The generator -/

/-- The state `s`. -/
structure Xoshiro where
  s0 : BitVec 64
  s1 : BitVec 64
  s2 : BitVec 64
  s3 : BitVec 64
  deriving DecidableEq

/-- The state of a program that has not called `duxrt_random_seed`. -/
def initial : Xoshiro :=
  ⟨0x123456789abcdef0, 0xdeadbeef12345678, 0xfeedface87654321, 0xc0ffee9988776655⟩

def rotl64 (x : BitVec 64) (k : Nat) : BitVec 64 := (x <<< k) ||| (x >>> (64 - k))

def output (s : Xoshiro) : BitVec 64 := rotl64 (s.s1 * 5) 7 * 9

def update (s : Xoshiro) : Xoshiro :=
  let t := s.s1 <<< 17
  let s2 := s.s2 ^^^ s.s0
  let s3 := s.s3 ^^^ s.s1
  let s1 := s.s1 ^^^ s2
  let s0 := s.s0 ^^^ s3
  { s0 := s0, s1 := s1, s2 := s2 ^^^ t, s3 := rotl64 s3 45 }

def xoshiroNext (s : Xoshiro) : BitVec 64 × Xoshiro := (output s, update s)

def duxrtRandomSeed (seed : Int64) : Xoshiro :=
  let word := seed.toBitVec
  update^[20] ⟨word, word ^^^ 0xdeadbeef, word * 6364136223846793005, word ^^^ 0xcafebabe⟩

/-! ## What is drawn -/

/-- `duxrt_random`, in units of 2⁻⁵³; all its values are exact as doubles. -/
def duxrtRandom (s : Xoshiro) : Nat × Xoshiro := ((output s >>> 11).toNat, update s)

def duxrtRandomInt (lo hi : Int64) (s : Xoshiro) : Int64 × Xoshiro :=
  if hi ≤ lo then (lo, s)
  else
    let range := (hi - lo).toBitVec
    (lo + Int64.ofBitVec (output s % range), update s)

/-- `duxrt_random_bool`, for a probability that is a number. -/
def duxrtRandomBool (p : Rat) (s : Xoshiro) : Int32 × Xoshiro :=
  let (r, s) := duxrtRandom s
  (if mkRat r 9007199254740992 < p then 1 else 0, s)

/-- One call behind another one; an exception is passed on. -/
def andThen {α β : Type} (call : Option (Access α)) (rest : α → Option (Access β)) :
    Option (Access β) :=
  call.bind fun
    | .done a => rest a
    | .thrown => some .thrown

/-- The three calls of a turn that swap two elements. -/
def swap (list : DuxList) (i j : Nat) : Option (Access DuxList) :=
  andThen (duxrtListGet list i) fun tmp =>
    andThen (duxrtListGet list j) fun val =>
      andThen (duxrtListSet list i val) fun list => duxrtListSet list j tmp

/-- The loop of `duxrt_random_shuffle`, from an index down; at zero it ends. -/
def shuffleLoop : Nat → DuxList → Xoshiro → Option (Access DuxList × Xoshiro)
  | 0, list, s => some (.done list, s)
  | i + 1, list, s =>
      let (r, s) := xoshiroNext s
      let j := r.toNat % (i + 2)
      (swap list (i + 1) j).bind fun
        | .done list => shuffleLoop i list s
        | .thrown => some (.thrown, s)

/-- `duxrt_random_shuffle`; nothing is done to a null pointer. -/
def duxrtRandomShuffle (list : Option DuxList) (s : Xoshiro) :
    Option (Access (Option DuxList) × Xoshiro) :=
  match list with
  | none => some (.done none, s)
  | some list => (shuffleLoop (list.len - 1) list s).map fun
      | (.done list, s) => (.done (some list), s)
      | (.thrown, s) => (.thrown, s)

/-- A call that draws or seeds.  `duxrt_random_double` draws once, like `duxrt_random`. -/
inductive Call : Xoshiro → Xoshiro → Prop
  | seed (s : Xoshiro) (seed : Int64) : Call s (duxrtRandomSeed seed)
  | random (s : Xoshiro) : Call s (duxrtRandom s).2
  | int (s : Xoshiro) (lo hi : Int64) : Call s (duxrtRandomInt lo hi s).2
  | bool (s : Xoshiro) (p : Rat) : Call s (duxrtRandomBool p s).2
  | shuffle {s s' : Xoshiro} {list : Option DuxList} {result : Access (Option DuxList)}
      (returns : duxrtRandomShuffle list s = some (result, s')) : Call s s'

inductive Reaches : Xoshiro → Prop
  | initial : Reaches initial
  | call {s s' : Xoshiro} (before : Reaches s) (call : Call s s') : Reaches s'

/-! ## The update can be taken back -/

theorem eq_zero_of_shiftLeft {w k : Nat} {d : BitVec w} (positive : 0 < k) (same : d = d <<< k) :
    d = 0 := by
  have bits (i : Nat) : d.getLsbD i = false := by
    induction i using Nat.strong_induction_on with
    | _ i ih =>
      rw [same, BitVec.getLsbD_shiftLeft]
      by_cases low : i < k
      · simp [low]
      · rw [ih (i - k) (by omega)]
        simp
  ext i
  rw [← BitVec.getLsbD_eq_getElem, bits i]
  simp

theorem xor_shiftLeft_injective {w k : Nat} (positive : 0 < k) {x y : BitVec w}
    (same : x ^^^ x <<< k = y ^^^ y <<< k) : x = y := by
  have both : (x ^^^ y) ^^^ (x ^^^ y) <<< k = 0#w := by
    rw [BitVec.shiftLeft_xor_distrib, ← BitVec.xor_eq_zero_iff.mpr same]
    ac_rfl
  have zero := eq_zero_of_shiftLeft positive (BitVec.xor_eq_zero_iff.mp both)
  exact BitVec.xor_eq_zero_iff.mp zero

theorem rotl64_rotl64 (x : BitVec 64) : rotl64 (rotl64 x 45) 19 = x := by
  ext i inside
  have beyond : x.getLsbD (19 + (45 + i)) = false := BitVec.getLsbD_of_ge x _ (by omega)
  simp only [rotl64, BitVec.getLsbD_or, BitVec.getLsbD_shiftLeft, BitVec.getLsbD_ushiftRight,
    beyond, ← BitVec.getLsbD_eq_getElem]
  by_cases low : i < 19
  · have bound : 45 + i < 64 := by omega
    simp [low, bound]
  · have bound : ¬ 45 + i < 64 := by omega
    have low' : i - 19 < 45 := by omega
    have back : 19 + (i - 19) = i := by omega
    simp [low, bound, low', back, inside]

theorem rotl64_injective {x y : BitVec 64} (same : rotl64 x 45 = rotl64 y 45) : x = y := by
  rw [← rotl64_rotl64 x, same, rotl64_rotl64]

theorem update_injective : Function.Injective update := by
  rintro ⟨a0, a1, a2, a3⟩ ⟨b0, b1, b2, b3⟩ same
  rw [update, update] at same
  injection same with same0 same1 same2 same3
  dsimp only at same0 same1 same2 same3
  -- the rotated word gives back what the first word was changed by
  have sum := rotl64_injective same3
  rw [sum, BitVec.xor_left_inj] at same0
  subst same0
  have twice : a1 ^^^ a1 <<< 17 = b1 ^^^ b1 <<< 17 := calc
    a1 ^^^ a1 <<< 17 = (a1 ^^^ (a2 ^^^ a0)) ^^^ ((a2 ^^^ a0) ^^^ a1 <<< 17) := by
      rw [BitVec.xor_assoc, ← BitVec.xor_assoc (a2 ^^^ a0), BitVec.xor_self, BitVec.zero_xor]
    _ = (b1 ^^^ (b2 ^^^ a0)) ^^^ ((b2 ^^^ a0) ^^^ b1 <<< 17) := by rw [same1, same2]
    _ = b1 ^^^ b1 <<< 17 := by
      rw [BitVec.xor_assoc, ← BitVec.xor_assoc (b2 ^^^ a0), BitVec.xor_self, BitVec.zero_xor]
  have eq1 : a1 = b1 := xor_shiftLeft_injective (by decide) twice
  subst eq1
  rw [BitVec.xor_right_inj, BitVec.xor_left_inj] at same1
  rw [BitVec.xor_left_inj] at sum
  rw [same1, sum]

/-! ## What holds behind any calls -/

theorem update_zero : update ⟨0, 0, 0, 0⟩ = ⟨0, 0, 0, 0⟩ := by decide

theorem update_ne_zero {s : Xoshiro} (nonzero : s ≠ ⟨0, 0, 0, 0⟩) : update s ≠ ⟨0, 0, 0, 0⟩ := by
  intro zero
  apply nonzero
  apply update_injective
  rw [zero, update_zero]

theorem updates_ne_zero {s : Xoshiro} (nonzero : s ≠ ⟨0, 0, 0, 0⟩) (n : Nat) :
    update^[n] s ≠ ⟨0, 0, 0, 0⟩ := by
  induction n generalizing s with
  | zero => exact nonzero
  | succ n ih => exact ih (update_ne_zero nonzero)

theorem seed_ne_zero (seed : Int64) : duxrtRandomSeed seed ≠ ⟨0, 0, 0, 0⟩ := by
  apply updates_ne_zero
  intro zero
  injection zero with zero0 zero1
  rw [zero0] at zero1
  exact absurd zero1 (by decide)

theorem shuffleLoop_draws {i : Nat} {list : DuxList} {s s' : Xoshiro} {result : Access DuxList}
    (returns : shuffleLoop i list s = some (result, s')) : ∃ n, s' = update^[n] s := by
  induction i generalizing list s with
  | zero =>
    cases returns
    exact ⟨0, rfl⟩
  | succ i ih =>
    rw [shuffleLoop] at returns
    obtain ⟨swapped, -, rest⟩ := Option.bind_eq_some_iff.mp returns
    cases swapped with
    | done list =>
      obtain ⟨n, eq⟩ := ih rest
      exact ⟨n + 1, eq⟩
    | thrown =>
      cases rest
      exact ⟨1, rfl⟩

theorem shuffle_draws {list : Option DuxList} {s s' : Xoshiro} {result : Access (Option DuxList)}
    (returns : duxrtRandomShuffle list s = some (result, s')) : ∃ n, s' = update^[n] s := by
  cases list with
  | none =>
    cases returns
    exact ⟨0, rfl⟩
  | some list =>
    obtain ⟨⟨swapped, s''⟩, loop, eq⟩ := Option.map_eq_some_iff.mp returns
    cases swapped with
    | done list =>
      cases eq
      exact shuffleLoop_draws loop
    | thrown =>
      cases eq
      exact shuffleLoop_draws loop

theorem Call.ne_zero {s s' : Xoshiro} (call : Call s s') (nonzero : s ≠ ⟨0, 0, 0, 0⟩) :
    s' ≠ ⟨0, 0, 0, 0⟩ := by
  cases call with
  | seed seed => exact seed_ne_zero seed
  | random => exact update_ne_zero nonzero
  | int lo hi =>
    rw [duxrtRandomInt]
    split
    · exact nonzero
    · exact update_ne_zero nonzero
  | bool p => exact update_ne_zero nonzero
  | shuffle returns =>
    obtain ⟨n, eq⟩ := shuffle_draws returns
    rw [eq]
    exact updates_ne_zero nonzero n

theorem Reaches.ne_zero {s : Xoshiro} (reaches : Reaches s) : s ≠ ⟨0, 0, 0, 0⟩ := by
  induction reaches with
  | initial => decide
  | call _ call ih => exact call.ne_zero ih

theorem toNat_sub {lo hi : Int64} (less : lo < hi) :
    ((hi - lo).toBitVec.toNat : Int) = hi.toInt - lo.toInt := by
  rw [Int64.lt_iff_toInt_lt] at less
  have low : lo.toInt = _ := BitVec.toInt_eq_toNat_cond lo.toBitVec
  have high : hi.toInt = _ := BitVec.toInt_eq_toNat_cond hi.toBitVec
  rw [Int64.toBitVec_sub, BitVec.toNat_sub]
  have lowWord := lo.toBitVec.isLt
  have highWord := hi.toBitVec.isLt
  omega

theorem toInt_add {lo hi : Int64} {offset : BitVec 64}
    (under : (offset.toNat : Int) < hi.toInt - lo.toInt) :
    (lo + Int64.ofBitVec offset).toInt = lo.toInt + offset.toNat := by
  have low := lo.le_toInt
  have high := hi.toInt_lt
  rw [Int64.toInt_add, Int64.toInt_ofBitVec, BitVec.toInt_eq_toNat_bmod, Int.add_bmod_bmod]
  apply Int.bmod_eq_of_le <;> omega

theorem randomInt_bounds {lo hi : Int64} (less : lo < hi) (s : Xoshiro) :
    lo ≤ (duxrtRandomInt lo hi s).1 ∧ (duxrtRandomInt lo hi s).1 < hi := by
  have distance := toNat_sub less
  have order := Int64.lt_iff_toInt_lt.mp less
  have under : ((output s % (hi - lo).toBitVec).toNat : Int) < hi.toInt - lo.toInt := by
    rw [← distance, BitVec.toNat_umod, Int.ofNat_lt]
    apply Nat.mod_lt
    omega
  have sum := toInt_add under
  rw [duxrtRandomInt, if_neg (Int64.not_le.mpr less), Int64.le_iff_toInt_le,
    Int64.lt_iff_toInt_lt, sum]
  omega

/-- The state is never zero, no two states lead to the same one, and an integer is drawn inside
of its bounds. -/
theorem random_sound {s : Xoshiro} (reaches : Reaches s) (lo hi : Int64) :
    s ≠ ⟨0, 0, 0, 0⟩ ∧ Function.Injective update ∧
      (lo < hi → lo ≤ (duxrtRandomInt lo hi s).1 ∧ (duxrtRandomInt lo hi s).1 < hi) :=
  ⟨reaches.ne_zero, update_injective, fun less => randomInt_bounds less s⟩

theorem random_sound_widest :
    duxrtRandomSeed 0 ≠ ⟨0, 0, 0, 0⟩ ∧ Function.Injective update ∧
      Int64.minValue ≤ (duxrtRandomInt Int64.minValue Int64.maxValue (duxrtRandomSeed 0)).1 ∧
      (duxrtRandomInt Int64.minValue Int64.maxValue (duxrtRandomSeed 0)).1 < Int64.maxValue := by
  have reaches : Reaches (duxrtRandomSeed 0) := .call .initial (.seed _ 0)
  have sound := random_sound reaches Int64.minValue Int64.maxValue
  exact ⟨sound.1, sound.2.1, sound.2.2 (by decide)⟩

/-! ## A shuffle is a permutation -/

open ListRuns (Sequence Rep duxrtListGetI32)

/-- What `duxrt_list_get` reads at each position. -/
def reads (l : DuxList) : List (Option (Access (BitVec 64))) :=
  (List.range l.len).map fun i : Nat => duxrtListGet l i

/-- What `duxrt_list_get_i32` reads at each position. -/
def readsI32 (l : DuxList) : List (Option (Access (BitVec 32))) :=
  (List.range l.len).map fun i : Nat => duxrtListGetI32 l i

section Elements

variable {l : DuxList} {t : Sequence}

theorem position_self {n i : Nat} (inside : i < n) : Sequence.position n i = some i := by
  rw [Sequence.position, if_pos (by omega), if_neg (by omega), Int.toNat_natCast]

theorem get_done (rep : Rep l t) {i : Nat} (inside : i < t.elems.length) :
    duxrtListGet l i = some (.done t.elems[i]) := by
  rw [duxrtListGet, ListRuns.index_eq rep, position_self inside]
  dsimp only
  rw [rep.read i (rep.len ▸ inside), List.getElem?_eq_getElem inside, Option.map_some]

theorem getI32_done (rep : Rep l t) (isInts : t.kind = .i32) {i : Nat}
    (inside : i < t.elems.length) :
    duxrtListGetI32 l i = some (.done (t.elems[i].setWidth 32)) := by
  have read := ListRuns.getI32_rep rep fun (_ : Nat) (_ : _ ∈ Sequence.position _ i) => isInts
  rw [Sequence.get, position_self inside, Option.bind_some, List.getElem?_eq_getElem inside] at read
  obtain ⟨access, isAccess, eq⟩ := Option.map_eq_some_iff.mp read
  cases access with
  | done val =>
    injection eq with reply
    injection reply with isVal
    rw [isAccess, isVal]
  | thrown => cases eq

theorem set_done (rep : Rep l t) {i : Nat} (inside : i < t.elems.length) {val : BitVec 64}
    (suits : t.kind = .i32 → Sequence.box (val.setWidth 32) = val) :
    ∃ l', duxrtListSet l i val = some (.done l') ∧
      Rep l' { t with elems := t.elems.set i val } := by
  obtain ⟨l', sets, rep'⟩ :=
    ListRuns.set_rep rep fun (_ : Nat) (_ : _ ∈ Sequence.position _ i) => suits
  rw [Sequence.set, position_self inside] at sets rep'
  obtain ⟨access, isAccess, eq⟩ := Option.map_eq_some_iff.mp sets
  cases access with
  | done list =>
    injection eq with _ isList
    rw [isList] at isAccess
    exact ⟨l', isAccess, rep'⟩
  | thrown => cases eq

theorem boxed (rep : Rep l t) (isInts : t.kind = .i32) {i : Nat} (inside : i < t.elems.length) :
    Sequence.box (t.elems[i].setWidth 32) = t.elems[i] := by
  have read := rep.read i (rep.len ▸ inside)
  rw [DuxList.read, rep.kind, isInts, List.getElem?_eq_getElem inside] at read
  obtain ⟨val, -, eq⟩ := Option.map_eq_some_iff.mp read
  rw [← eq, Sequence.box]
  simp

theorem swap_rep (rep : Rep l t) {i j : Nat} (insideI : i < t.elems.length)
    (insideJ : j < t.elems.length) :
    ∃ l', swap l i j = some (.done l') ∧
      Rep l' { t with elems := (t.elems.set i t.elems[j]).set j t.elems[i] } := by
  obtain ⟨l₁, set₁, rep₁⟩ := set_done rep insideI fun isInts => boxed rep isInts insideJ
  have insideJ₁ : j < (t.elems.set i t.elems[j]).length := by
    rw [List.length_set]
    exact insideJ
  obtain ⟨l₂, set₂, rep₂⟩ := set_done rep₁ insideJ₁ fun isInts => boxed rep isInts insideI
  refine ⟨l₂, ?_, rep₂⟩
  rw [swap, get_done rep insideI, andThen, Option.bind_some, get_done rep insideJ]
  dsimp only
  rw [andThen, Option.bind_some]
  dsimp only
  rw [set₁, andThen, Option.bind_some]
  exact set₂

theorem shuffleLoop_rep {i : Nat} (rep : Rep l t) (inside : i = 0 ∨ i < t.elems.length)
    (s : Xoshiro) : ∃ l' s' elems, shuffleLoop i l s = some (.done l', s') ∧
      Rep l' { t with elems := elems } ∧ elems.Perm t.elems := by
  induction i generalizing l t s with
  | zero => exact ⟨l, s, t.elems, rfl, rep, .refl _⟩
  | succ i ih =>
    have inside : i + 1 < t.elems.length := inside.resolve_left (Nat.succ_ne_zero i)
    have drawn : (xoshiroNext s).1.toNat % (i + 2) < t.elems.length :=
      (Nat.mod_lt _ (Nat.succ_pos _)).trans_le inside
    obtain ⟨l₁, swaps, rep₁⟩ := swap_rep rep inside drawn
    have inside₁ : i = 0 ∨
        i < ((t.elems.set (i + 1) t.elems[(xoshiroNext s).1.toNat % (i + 2)]).set
          ((xoshiroNext s).1.toNat % (i + 2)) t.elems[i + 1]).length := by
      rw [List.length_set, List.length_set]
      exact .inr (Nat.lt_of_succ_lt inside)
    obtain ⟨l', s', elems, loop, rep', perm⟩ := ih rep₁ inside₁ (xoshiroNext s).2
    refine ⟨l', s', elems, ?_, rep', perm.trans (List.set_set_perm inside drawn)⟩
    rw [shuffleLoop]
    dsimp only
    rw [swaps, Option.bind_some]
    exact loop

theorem reads_eq (rep : Rep l t) : reads l = t.elems.map fun val => some (.done val) := by
  apply List.ext_getElem
  · rw [reads, List.length_map, List.length_map, List.length_range, rep.len]
  · intro i _ inside
    rw [List.length_map] at inside
    rw [List.getElem_map, ← get_done rep inside]
    simp [reads]

theorem readsI32_eq (rep : Rep l t) (isInts : t.kind = .i32) :
    readsI32 l = t.elems.map fun val => some (.done (val.setWidth 32)) := by
  apply List.ext_getElem
  · rw [readsI32, List.length_map, List.length_map, List.length_range, rep.len]
  · intro i _ inside
    rw [List.length_map] at inside
    rw [List.getElem_map, ← getI32_done rep isInts inside]
    simp [readsI32]

theorem exists_rep (wf : l.Wf) : ∃ elems, Rep l ⟨l.elemKind, elems⟩ := by
  have read (i : Fin l.len) : ∃ raw, l.read i = some raw := wf.read i.isLt
  choose raw isRaw using read
  refine ⟨List.ofFn raw, rfl, (List.length_ofFn).symm, wf, fun i inside => ?_⟩
  rw [isRaw ⟨i, inside⟩, List.getElem?_ofFn, dif_pos inside]

end Elements

/-- A shuffle has no index error and leaves the elements up to their order, with either
accessor. -/
theorem shuffle_perm {l : DuxList} (wf : l.Wf) (s : Xoshiro) :
    ∃ l' s', duxrtRandomShuffle (some l) s = some (.done (some l'), s') ∧
      l'.len = l.len ∧ l'.elemKind = l.elemKind ∧ (reads l').Perm (reads l) ∧
      (l.elemKind = .i32 → (readsI32 l').Perm (readsI32 l)) := by
  obtain ⟨before, rep⟩ := exists_rep wf
  have len : l.len = before.length := rep.len
  have inside : l.len - 1 = 0 ∨ l.len - 1 < before.length := by omega
  obtain ⟨l', s', elems, loop, rep', perm⟩ := shuffleLoop_rep rep inside s
  refine ⟨l', s', ?_, ?_, rep'.kind, ?_, fun isInts => ?_⟩
  · rw [duxrtRandomShuffle, loop, Option.map_some]
  · exact (rep'.len.trans perm.length_eq).trans rep.len.symm
  · rw [reads_eq rep', reads_eq rep]
    exact perm.map _
  · rw [readsI32_eq rep' isInts, readsI32_eq rep isInts]
    exact perm.map _

/-- Three integers, one of them negative. -/
def threeInts : DuxList :=
  { elemKind := .i32, len := 3, data := [7, BitVec.ofInt 32 (-2), 5, 0, 0, 0, 0, 0] }

theorem shuffle_perm_threeInts : threeInts.Wf ∧
    ∃ l' s', duxrtRandomShuffle (some threeInts) initial = some (.done (some l'), s') ∧
      l'.len = threeInts.len ∧ l'.elemKind = threeInts.elemKind ∧
      (reads l').Perm (reads threeInts) ∧
      (threeInts.elemKind = .i32 → (readsI32 l').Perm (readsI32 threeInts)) :=
  ⟨⟨by decide, by decide, by decide⟩,
    shuffle_perm ⟨by decide, by decide, by decide⟩ initial⟩

end Dux.Runtime.Random
