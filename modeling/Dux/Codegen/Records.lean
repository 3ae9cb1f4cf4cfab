import Dux.Codegen.Exec

/-!
# What a step runs

The emitter runs, for a step, what it lists for the scopes at that place: all
entries but the strings, scope by scope and the latest first, and then the
strings in the order of their declaration.  This file compares that
order with what the step owes.
-/

namespace Dux.Codegen

def emitted (scopes : List (List Entry)) : List Entry :=
  scopes.flatMap (·.filter fun e => !e.isStr) ++ scopes.flatMap (·.filter Entry.isStr)

def Step.emits : Step → List Entry
  | .exit .leave left _ => emitted (left.map (·.listed))
  | .exit .jump left kept => emitted ((left ++ kept).map (·.listed))
  | .exit .ret left kept => emitted ((left ++ kept).map (·.listed))
  | .land _ final kept => emitted (final :: kept.map (·.listed))

theorem reordered_eq (entries : List Entry) :
    reordered entries =
      entries.filter (fun e => !e.isStr) ++ (entries.filter Entry.isStr).reverse := by
  induction entries with
  | nil => rfl
  | cons e es ih =>
      have step : reordered (e :: es) = addListed (reordered es) e := rfl
      rw [step, ih, addListed]
      cases str : e.isStr <;> simp [str]

@[simp]
theorem filter_not_isStr_reordered (entries : List Entry) :
    (reordered entries).filter (fun e => !e.isStr) = entries.filter fun e => !e.isStr := by
  simp [reordered_eq, List.filter_filter]

@[simp]
theorem filter_isStr_reordered (entries : List Entry) :
    (reordered entries).filter Entry.isStr = (entries.filter Entry.isStr).reverse := by
  simp [reordered_eq, List.filter_filter]

/-- The releases of strings come last among the entries of these scopes, and no
scope has two of them. -/
structure InOrder (scopes : List (List Entry)) : Prop where
  last : scopes.flatten.Pairwise fun e e' => e.isStr = true → e'.isStr = true
  single : ∀ entries ∈ scopes, (entries.filter Entry.isStr).length ≤ 1

theorem filter_append_filter_of_pairwise {entries : List Entry}
    (last : entries.Pairwise fun e e' => e.isStr = true → e'.isStr = true) :
    entries.filter (fun e => !e.isStr) ++ entries.filter Entry.isStr = entries := by
  induction entries with
  | nil => rfl
  | cons e es ih =>
      rw [List.pairwise_cons] at last
      rcases last with ⟨first, rest⟩
      cases str : e.isStr with
      | false => simp [str, ih rest]
      | true =>
          have all : ∀ e' ∈ es, e'.isStr = true := fun e' member => first e' member str
          have none : es.filter (fun e => !e.isStr) = [] := by simpa using all
          have same : es.filter Entry.isStr = es := List.filter_eq_self.mpr all
          simp [str, none, same]

theorem reverse_eq_self_of_length_le_one {α : Type} {l : List α} (short : l.length ≤ 1) :
    l.reverse = l := by
  match l, short with
  | [], _ => rfl
  | [_], _ => rfl

theorem InOrder.emitted_eq {scopes : List (List Entry)} (inOrder : InOrder scopes) :
    emitted (scopes.map reordered) = scopes.flatten := by
  have strs : scopes.flatMap (fun entries => (entries.filter Entry.isStr).reverse) =
      scopes.flatMap (fun entries => entries.filter Entry.isStr) := by
    rw [List.flatMap_def, List.flatMap_def]
    congr 1
    apply List.map_congr_left
    intro entries member
    exact reverse_eq_self_of_length_le_one (inOrder.single entries member)
  calc emitted (scopes.map reordered)
      = scopes.flatMap (fun entries => entries.filter fun e => !e.isStr) ++
          scopes.flatMap (fun entries => (entries.filter Entry.isStr).reverse) := by
        simp [emitted, List.flatMap_map]
    _ = scopes.flatten.filter (fun e => !e.isStr) ++ scopes.flatten.filter Entry.isStr := by
        rw [strs, List.filter_flatten, List.filter_flatten, List.flatMap_def, List.flatMap_def]
    _ = scopes.flatten := filter_append_filter_of_pairwise inOrder.last

/-- The emitter lists for these scopes what has been registered in them.  Only the
scope of a `try` is not known like that, in the landing pad. -/
def Known (scopes : List LiveScope) : Prop :=
  ∀ scope ∈ scopes, scope.listed = reordered scope.entries

/-- Nothing has been registered in these scopes, and the emitter knows. -/
def Untouched (scopes : List LiveScope) : Prop :=
  Known scopes ∧ ∀ scope ∈ scopes, scope.entries = []

/-- A step on which the emitter and the scopes agree.  Leaving a scope at its
end only needs the strings to come last.  A jump or a return needs that nothing
is registered in the scopes that stay open as well, and a landing that the live
entries of the body are those the `try` scope has at the end of it. -/
def Step.Clean : Step → Prop
  | .exit .leave left _ => InOrder (left.map (·.entries))
  | .exit .jump left kept => InOrder (left.map (·.entries)) ∧ Known left ∧ Untouched kept
  | .exit .ret left kept => InOrder (left.map (·.entries)) ∧ Known left ∧ Untouched kept
  | .land owed final kept => InOrder [owed] ∧ final = reordered owed ∧ Untouched kept

instance : DecidableRel fun e e' : Entry => e.isStr = true → e'.isStr = true := fun e e' =>
  if first : e.isStr = true then
    if second : e'.isStr = true then isTrue fun _ => second
    else isFalse fun implies => second (implies first)
  else isTrue fun isStr => absurd isStr first

instance (scopes : List (List Entry)) : Decidable (InOrder scopes) :=
  decidable_of_iff
    (scopes.flatten.Pairwise (fun e e' => e.isStr = true → e'.isStr = true) ∧
      ∀ entries ∈ scopes, (entries.filter Entry.isStr).length ≤ 1)
    ⟨fun both => ⟨both.1, both.2⟩, fun inOrder => ⟨inOrder.last, inOrder.single⟩⟩

instance (scopes : List LiveScope) : Decidable (Known scopes) :=
  inferInstanceAs (Decidable (∀ scope ∈ scopes, scope.listed = reordered scope.entries))

instance (scopes : List LiveScope) : Decidable (Untouched scopes) :=
  inferInstanceAs (Decidable (_ ∧ _))

instance : ∀ step : Step, Decidable step.Clean
  | .exit .leave left _ => inferInstanceAs (Decidable (InOrder (left.map (·.entries))))
  | .exit .jump _ _ | .exit .ret _ _ | .land _ _ _ => inferInstanceAs (Decidable (_ ∧ _ ∧ _))

/-- What a record shows when the step does its duty: it has run what it owes,
each entry once and in order, or the beginning of it if it was interrupted. -/
def Record.Fulfilled (r : Record) : Prop :=
  if r.done then r.ran = r.step.owed else r.ran <+: r.step.owed

instance (r : Record) : Decidable r.Fulfilled :=
  inferInstanceAs (Decidable (if r.done then r.ran = r.step.owed else r.ran <+: r.step.owed))

/-- What a record always shows: the code of the step has run its entries as far
as it came.  A scope that is left at its end is one the emitter knows as it is. -/
structure Record.Faithful (r : Record) : Prop where
  ran : r.ran <+: r.step.emits
  done : r.done = true → r.ran = r.step.emits
  known : ∀ left kept, r.step = .exit .leave left kept → Known left

theorem emitted_append_of_empty {scopes empty : List (List Entry)}
    (isEmpty : ∀ listed ∈ empty, listed = []) :
    emitted (scopes ++ empty) = emitted scopes := by
  have none : ∀ p : Entry → Bool, empty.flatMap (·.filter p) = [] := by
    intro p
    rw [List.flatMap_eq_nil_iff]
    intro listed member
    rw [isEmpty listed member, List.filter_nil]
  simp [emitted, none]

theorem Known.map_listed {scopes : List LiveScope} (known : Known scopes) :
    scopes.map (·.listed) = (scopes.map (·.entries)).map reordered := by
  simpa [Known] using known

theorem Untouched.listed {scopes : List LiveScope} (untouched : Untouched scopes) :
    ∀ l ∈ scopes.map (·.listed), l = [] := by
  intro l member
  rcases List.mem_map.mp member with ⟨scope, isScope, rfl⟩
  rw [untouched.1 scope isScope, untouched.2 scope isScope]
  rfl

theorem emitted_exit {left kept : List LiveScope} (inOrder : InOrder (left.map (·.entries)))
    (known : Known left) (untouched : Untouched kept) :
    emitted ((left ++ kept).map (·.listed)) = left.flatMap (·.entries) := by
  rw [List.map_append, emitted_append_of_empty untouched.listed, known.map_listed,
    inOrder.emitted_eq, List.flatMap_def]

theorem Step.Clean.emits_eq {step : Step} (clean : step.Clean)
    (known : ∀ left kept, step = .exit .leave left kept → Known left) :
    step.emits = step.owed := by
  cases step with
  | exit kind left kept =>
      cases kind with
      | leave =>
          have untouched : Untouched [] := ⟨by simp [Known], by simp⟩
          simpa [emits, owed] using emitted_exit clean (known left kept rfl) untouched
      | jump => exact emitted_exit clean.1 clean.2.1 clean.2.2
      | ret => exact emitted_exit clean.1 clean.2.1 clean.2.2
  | land owed final kept =>
      rcases clean with ⟨inOrder, rfl, untouched⟩
      have pad : emitted ([reordered owed] ++ kept.map (·.listed)) = emitted [reordered owed] :=
        emitted_append_of_empty untouched.listed
      simpa [emits, Step.owed] using pad.trans inOrder.emitted_eq

theorem Record.Faithful.fulfilled {r : Record} (faithful : r.Faithful) (clean : r.step.Clean) :
    r.Fulfilled := by
  have same := clean.emits_eq faithful.known
  unfold Record.Fulfilled
  split
  next ended => rw [← same, faithful.done ended]
  next => rw [← same]; exact faithful.ran

end Dux.Codegen
