/-!
# Runs of structured code

A run takes a state to an outcome and a state.  Besides ending normally it may
jump to an enclosing loop, return, raise to the innermost handler, leave the
function by an exception, abort, or exceed the number of loop iterations it was
given.  The rules say how pre- and postconditions pass through the ways of
putting runs together; `X` collects what is known after an outcome other than
the normal one.
-/

namespace Dux.Logic

universe u

/-- How a run ends.  `br k toHeader` jumps to the header or the exit of the
`k`-th enclosing loop or switch, counted from the innermost one. -/
inductive Outcome
  | normal
  | br (k : Nat) (toHeader : Bool)
  | ret
  | raise
  | escape
  | abort
  | timeout
  deriving DecidableEq, Repr

/-- The outcome as seen from outside the innermost loop or switch. -/
def Outcome.lower : Outcome → Outcome
  | .br 0 _ => .normal
  | .br (k + 1) toHeader => .br k toHeader
  | o => o

abbrev Run (σ : Type u) := σ → Outcome × σ

namespace Run

variable {σ : Type u}

/-- The run that does nothing. -/
def skip : Run σ := fun s => (.normal, s)

def seq (f g : Run σ) : Run σ := fun s =>
  match f s with
  | (.normal, s') => g s'
  | r => r

/-- A loop body, then either the code at the continue target and another round,
or the way out. -/
def around (body next again : Run σ) : Run σ := fun s =>
  match body s with
  | (.normal, s') => next.seq again s'
  | (.br 0 true, s') => next.seq again s'
  | (o, s') => (o.lower, s')

/-- At most `n` rounds of a loop that tests before its body. -/
def loop (test : Run σ) (choose : σ → Bool × σ) (body next : Run σ) : Nat → Run σ
  | 0 => fun s => (.timeout, s)
  | n + 1 => test.seq fun s =>
      match choose s with
      | (true, s') => around body next (loop test choose body next n) s'
      | (false, s') => (.normal, s')

/-- Cases that fall through from one to the next, inside a switch. -/
def fallThrough : List (Run σ) → Run σ
  | [] => skip
  | f :: fs => f.seq (fallThrough fs)

/-- Leave the innermost loop or switch. -/
def breakable (f : Run σ) : Run σ := fun s => ((f s).1.lower, (f s).2)

/-- Change the state when a run raises, and go on with `pad`; when `pad` raises
it is entered again, at most `n` times. -/
def landing (land : σ → σ) (pad handler : Run σ) : Nat → Run σ
  | 0 => fun s => (.timeout, s)
  | n + 1 => fun s =>
      match pad (land s) with
      | (.normal, s') => handler s'
      | (.raise, s') => landing land pad handler n s'
      | r => r

/-- A protected body with its code for the normal and the raising end. -/
def protect (body : Run σ) (exit : Run σ) (onRaise : Run σ) : Run σ := fun s =>
  match body s with
  | (.normal, s') => exit s'
  | (.raise, s') => onRaise s'
  | r => r

/-- What is known of a result: `Q` at a normal end, `X` otherwise. -/
def Post (Q : σ → Prop) (X : Outcome → σ → Prop) : Outcome × σ → Prop
  | (.normal, s) => Q s
  | (o, s) => X o s

/-- From `P` a run ends normally in `Q`, or otherwise in `X`. -/
def Holds (P : σ → Prop) (f : Run σ) (Q : σ → Prop) (X : Outcome → σ → Prop) : Prop :=
  ∀ s, P s → Post Q X (f s)

variable {P P' P'' Q : σ → Prop} {X Y : Outcome → σ → Prop}
variable {f g test body next pad handler : Run σ}

theorem Holds.skip (post : ∀ s, P s → Q s) : Holds P skip Q X := post

theorem Holds.pre (holds : Holds P f Q X) (pre : ∀ s, P' s → P s) : Holds P' f Q X :=
  fun s start => holds s (pre s start)

theorem Holds.post {Q' : σ → Prop} (holds : Holds P f Q X) (ends : ∀ s, Q s → Q' s)
    (leaves : ∀ o s, o ≠ .normal → X o s → Y o s) : Holds P f Q' Y := by
  intro s start
  have result := holds s start
  generalize f s = r at result ⊢
  rcases r with ⟨o, s'⟩
  cases o with
  | normal => exact ends s' result
  | br | ret | raise | escape | abort | timeout => exact leaves _ s' (by simp) result

theorem Holds.seq (first : Holds P f P' X) (second : Holds P' g Q X) : Holds P (f.seq g) Q X := by
  intro s start
  have result := first s start
  unfold Run.seq
  generalize f s = r at result ⊢
  rcases r with ⟨o, s'⟩
  cases o with
  | normal => exact second s' result
  | br | ret | raise | escape | abort | timeout => exact result

theorem Holds.breakable (holds : Holds P f Q Y) (exits : ∀ toHeader s, Y (.br 0 toHeader) s → Q s)
    (other : ∀ o s, o ≠ .normal → o.lower ≠ .normal → Y o s → X o.lower s) :
    Holds P f.breakable Q X := by
  intro s start
  have result := holds s start
  unfold Run.breakable
  generalize f s = r at result ⊢
  rcases r with ⟨o, s'⟩
  cases o with
  | normal => exact result
  | br k toHeader =>
      cases k with
      | zero => exact exits toHeader s' result
      | succ k => exact other _ s' (by simp) (by simp [Outcome.lower]) result
  | ret | raise | escape | abort | timeout =>
      exact other _ s' (by simp) (by simp [Outcome.lower]) result

theorem Holds.around (holds : Holds P body Q Y) (goes : ∀ s, Y (.br 0 true) s → Q s)
    (exits : ∀ s, Y (.br 0 false) s → P' s)
    (other : ∀ o s, o ≠ .normal → o.lower ≠ .normal → Y o s → X o.lower s)
    (again : Holds Q (next.seq g) P' X) : Holds P (around body next g) P' X := by
  intro s start
  have result := holds s start
  unfold Run.around
  generalize body s = r at result ⊢
  rcases r with ⟨o, s'⟩
  cases o with
  | normal => exact again s' result
  | br k toHeader =>
      cases k with
      | zero =>
          cases toHeader with
          | true => exact again s' (goes s' result)
          | false => exact exits s' result
      | succ k => exact other _ s' (by simp) (by simp [Outcome.lower]) result
  | ret | raise | escape | abort | timeout =>
      exact other _ s' (by simp) (by simp [Outcome.lower]) result

/-- The rule for loops: `P` holds whenever the test is reached. -/
theorem Holds.loop {choose : σ → Bool × σ} (testing : Holds P test P' X)
    (chosen : ∀ s, P' s → P' (choose s).2) (rounds : Holds P' body Q Y)
    (goes : ∀ s, Y (.br 0 true) s → Q s) (exits : ∀ s, Y (.br 0 false) s → P' s)
    (other : ∀ o s, o ≠ .normal → o.lower ≠ .normal → Y o s → X o.lower s)
    (advances : Holds Q next P X) (limit : ∀ s, P s → X .timeout s) (n : Nat) :
    Holds P (loop test choose body next n) P' X := by
  induction n with
  | zero => exact limit
  | succ n ih =>
      apply testing.seq
      intro s tested
      have kept := chosen s tested
      dsimp only
      generalize choose s = r at kept ⊢
      rcases r with ⟨go, s'⟩
      cases go with
      | true => exact Holds.around rounds goes exits other (advances.seq ih) s' kept
      | false => exact kept

theorem Holds.fallThrough {fs : List (Run σ)} (each : ∀ f ∈ fs, Holds P f P X) :
    Holds P (fallThrough fs) P X := by
  induction fs with
  | nil => exact .skip fun _ same => same
  | cons f fs ih =>
      apply (each f List.mem_cons_self).seq
      exact ih fun f' member => each f' (List.mem_cons_of_mem _ member)

theorem Holds.landing {land : σ → σ} (entered : Holds P pad P' Y) (lands : ∀ s, Q s → P (land s))
    (again : ∀ s, Y .raise s → Q s) (other : ∀ o s, o ≠ .normal → o ≠ .raise → Y o s → X o s)
    (handles : Holds P' handler P'' X) (limit : ∀ s, Q s → X .timeout s) (n : Nat) :
    Holds Q (landing land pad handler n) P'' X := by
  induction n with
  | zero => exact limit
  | succ n ih =>
      intro s start
      have result := entered (land s) (lands s start)
      unfold Run.landing
      generalize pad (land s) = r at result ⊢
      rcases r with ⟨o, s'⟩
      cases o with
      | normal => exact handles s' result
      | raise => exact ih s' (again s' result)
      | br | ret | escape | abort | timeout => exact other _ s' (by simp) (by simp) result

theorem Holds.protect {exit onRaise : Run σ} (holds : Holds P body P' Y)
    (exiting : Holds P' exit Q X) (raised : ∀ s, Y .raise s → P'' s)
    (raising : Holds P'' onRaise Q X)
    (other : ∀ o s, o ≠ .normal → o ≠ .raise → Y o s → X o s) :
    Holds P (protect body exit onRaise) Q X := by
  intro s start
  have result := holds s start
  unfold Run.protect
  generalize body s = r at result ⊢
  rcases r with ⟨o, s'⟩
  cases o with
  | normal => exact exiting s' result
  | raise => exact raising s' (raised s' result)
  | br | ret | escape | abort | timeout => exact other _ s' (by simp) (by simp) result

/-! ## Invariants -/

/-- However the run ends, `P` holds if it held before. -/
def Keeps (P : σ → Prop) (f : Run σ) : Prop := ∀ s, P s → P (f s).2

theorem keeps_iff : Keeps P f ↔ Holds P f P fun _ => P := by
  unfold Keeps Holds
  refine forall₂_congr fun s _ => ?_
  generalize f s = r
  rcases r with ⟨o, s'⟩
  cases o <;> exact Iff.rfl

theorem keeps_skip : Keeps P skip := fun _ start => start

theorem Keeps.seq (first : Keeps P f) (second : Keeps P g) : Keeps P (f.seq g) :=
  keeps_iff.mpr (.seq (keeps_iff.mp first) (keeps_iff.mp second))

theorem Keeps.breakable (keeps : Keeps P f) : Keeps P f.breakable := keeps

theorem Keeps.around (inBody : Keeps P body) (behind : Keeps P (next.seq g)) :
    Keeps P (around body next g) :=
  keeps_iff.mpr (.around (keeps_iff.mp inBody) (fun _ start => start) (fun _ start => start)
    (fun _ _ _ _ start => start) (keeps_iff.mp behind))

theorem Keeps.loop {choose : σ → Bool × σ} (testing : Keeps P test)
    (chosen : ∀ s, P s → P (choose s).2) (inBody : Keeps P body) (advances : Keeps P next)
    (n : Nat) : Keeps P (loop test choose body next n) :=
  keeps_iff.mpr (.loop (keeps_iff.mp testing) chosen (keeps_iff.mp inBody)
    (fun _ start => start) (fun _ start => start) (fun _ _ _ _ start => start)
    (keeps_iff.mp advances) (fun _ start => start) n)

theorem Keeps.fallThrough {fs : List (Run σ)} (each : ∀ f ∈ fs, Keeps P f) :
    Keeps P (fallThrough fs) :=
  keeps_iff.mpr (.fallThrough fun f member => keeps_iff.mp (each f member))

theorem Keeps.landing {land : σ → σ} (lands : ∀ s, P s → P (land s)) (entered : Keeps P pad)
    (handles : Keeps P handler) (n : Nat) : Keeps P (landing land pad handler n) :=
  keeps_iff.mpr (.landing (keeps_iff.mp entered) lands (fun _ start => start)
    (fun _ _ _ _ start => start) (keeps_iff.mp handles) (fun _ start => start) n)

theorem Keeps.protect {exit onRaise : Run σ} (inBody : Keeps P body) (exiting : Keeps P exit)
    (raising : Keeps P onRaise) : Keeps P (protect body exit onRaise) :=
  keeps_iff.mpr (.protect (keeps_iff.mp inBody) (keeps_iff.mp exiting)
    (fun _ start => start) (keeps_iff.mp raising) (fun _ _ _ _ start => start))

end Run

end Dux.Logic
