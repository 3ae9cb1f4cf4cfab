import Mathlib.Data.List.Infix
import Mathlib.Order.Bounds.Basic

/-!
# Occurrences of one list in another

A list is cut at the occurrences of a pattern, from left to right and without overlaps.  The
pieces joined by the pattern are the list again, and no piece holds the pattern.
-/

namespace Dux.Logic

universe u

variable {α : Type u}

/-- The pattern stands at an index of the text. -/
def OccursAt (pat text : List α) (i : Nat) : Prop := pat <+: text.drop i

instance [DecidableEq α] (pat text : List α) (i : Nat) : Decidable (OccursAt pat text i) :=
  inferInstanceAs (Decidable (pat <+: text.drop i))

section Occurs

variable {pat text : List α}

theorem OccursAt.le {i : Nat} (nonempty : pat ≠ []) (occurs : OccursAt pat text i) :
    i + pat.length ≤ text.length := by
  have fits := List.IsPrefix.length_le occurs
  have positive := List.length_pos_iff.2 nonempty
  rw [List.length_drop] at fits
  omega

theorem occursAt_zero_iff : OccursAt pat text 0 ↔ pat <+: text := by
  rw [OccursAt, List.drop_zero]

theorem occursAt_drop_iff {i j : Nat} :
    OccursAt pat (text.drop i) j ↔ OccursAt pat text (i + j) := by
  rw [OccursAt, OccursAt, List.drop_drop]

theorem OccursAt.append {i : Nat} (nonempty : pat ≠ []) (occurs : OccursAt pat text i)
    (front back : List α) : OccursAt pat (front ++ text ++ back) (front.length + i) := by
  have inside := occurs.le nonempty
  rw [OccursAt, List.append_assoc, List.drop_append, List.drop_of_length_le (by omega),
    List.nil_append, Nat.add_sub_cancel_left, List.drop_append_of_le_length (by omega)]
  exact List.IsPrefix.trans occurs (List.prefix_append _ _)

theorem infix_iff_exists_occursAt : pat <:+: text ↔ ∃ i, OccursAt pat text i := by
  constructor
  · rintro ⟨front, back, rfl⟩
    refine ⟨front.length, ?_⟩
    rw [OccursAt, List.append_assoc, List.drop_left]
    exact List.prefix_append _ _
  · rintro ⟨i, back, found⟩
    refine ⟨text.take i, back, ?_⟩
    rw [List.append_assoc, found, List.take_append_drop]

end Occurs

/-! ## Pieces -/

variable [DecidableEq α]

/-- The pieces of a text, with the part of the first one that has been passed. -/
def pieces (pat front : List α) : List α → List (List α)
  | [] => [front]
  | c :: rest =>
      if pat <+: c :: rest then front :: pieces pat [] (rest.drop (pat.length - 1))
      else pieces pat (front ++ [c]) rest
termination_by text => text.length
decreasing_by
  · rw [List.length_drop]
    exact Nat.lt_succ_of_le (Nat.sub_le _ _)
  · exact Nat.lt_succ_self _

section Pieces

variable {pat front text : List α}

theorem pieces_of_isPrefix (nonempty : pat ≠ []) (found : pat <+: text) :
    pieces pat front text = front :: pieces pat [] (text.drop pat.length) := by
  cases text with
  | nil => exact absurd (List.prefix_nil.1 found) nonempty
  | cons c rest =>
    obtain ⟨k, length⟩ := Nat.exists_eq_succ_of_ne_zero
      (Nat.ne_of_gt (List.length_pos_iff.2 nonempty))
    rw [pieces, if_pos found, length, List.drop_succ_cons, Nat.succ_sub_one]

theorem pieces_cons_of_not_isPrefix {c : α} (other : ¬pat <+: c :: text) :
    pieces pat front (c :: text) = pieces pat (front ++ [c]) text := by
  rw [pieces, if_neg other]

theorem pieces_ne_nil (pat front text : List α) : pieces pat front text ≠ [] := by
  fun_induction pieces pat front text with
  | case1 => exact List.cons_ne_nil _ _
  | case2 => exact List.cons_ne_nil _ _
  | case3 front c rest other ih => exact ih

theorem pieces_of_absent (absent : ∀ i < text.length, ¬OccursAt pat text i) :
    pieces pat front text = [front ++ text] := by
  induction text generalizing front with
  | nil => rw [pieces, List.append_nil]
  | cons c rest ih =>
    have here := absent 0 (Nat.succ_pos _)
    rw [occursAt_zero_iff] at here
    rw [pieces_cons_of_not_isPrefix here, ih, List.append_assoc, List.singleton_append]
    intro i inside
    have later := absent (i + 1) (Nat.succ_lt_succ inside)
    rwa [Nat.add_comm, ← occursAt_drop_iff, List.drop_one, List.tail_cons] at later

theorem intercalate_pieces_front (sep front : List α) (text : List α) :
    sep.intercalate (pieces pat front text) = front ++ sep.intercalate (pieces pat [] text) := by
  induction text generalizing front with
  | nil =>
    rw [pieces, pieces, List.intercalate_singleton, List.intercalate_singleton, List.append_nil]
  | cons c rest ih =>
    by_cases found : pat <+: c :: rest
    · have some' := pieces_ne_nil pat [] (rest.drop (pat.length - 1))
      rw [pieces, if_pos found, pieces, if_pos found, List.intercalate_cons_of_ne_nil some',
        List.intercalate_cons_of_ne_nil some', List.nil_append, List.append_assoc]
    · rw [pieces_cons_of_not_isPrefix found, pieces_cons_of_not_isPrefix found, ih, ih ([] ++ [c]),
        List.nil_append, List.append_assoc]

theorem intercalate_pieces_of_isPrefix (sep : List α) (nonempty : pat ≠ []) (found : pat <+: text) :
    sep.intercalate (pieces pat [] text) =
      sep ++ sep.intercalate (pieces pat [] (text.drop pat.length)) := by
  rw [pieces_of_isPrefix nonempty found, List.intercalate_cons_of_ne_nil (pieces_ne_nil _ _ _),
    List.nil_append]

theorem intercalate_pieces_cons (sep : List α) {c : α} (other : ¬pat <+: c :: text) :
    sep.intercalate (pieces pat [] (c :: text)) =
      c :: sep.intercalate (pieces pat [] text) := by
  rw [pieces_cons_of_not_isPrefix other, intercalate_pieces_front]
  rfl

theorem intercalate_pieces (nonempty : pat ≠ []) (text : List α) :
    pat.intercalate (pieces pat [] text) = text := by
  induction h : text.length using Nat.strong_induction_on generalizing text with
  | _ n ih =>
    cases text with
    | nil => rw [pieces, List.intercalate_singleton]
    | cons c rest =>
      by_cases found : pat <+: c :: rest
      · have positive := List.length_pos_iff.2 nonempty
        rw [intercalate_pieces_of_isPrefix pat nonempty found, ih _ _ _ rfl]
        · exact (List.prefix_iff_eq_append.1 found)
        · rw [← h, List.length_drop, List.length_cons]
          omega
      · rw [intercalate_pieces_cons pat found, ih _ _ _ rfl]
        rw [← h]
        exact Nat.lt_succ_self _

theorem not_infix_of_mem_pieces {piece : List α} (nonempty : pat ≠ [])
    (passed : ∀ i < front.length, ¬OccursAt pat (front ++ text) i)
    (member : piece ∈ pieces pat front text) : ¬pat <:+: piece := by
  have free {piece text : List α} (passed : ∀ i < piece.length, ¬OccursAt pat (piece ++ text) i) :
      ¬pat <:+: piece := by
    rw [infix_iff_exists_occursAt]
    rintro ⟨i, occurs⟩
    have inside := occurs.le nonempty
    have positive := List.length_pos_iff.2 nonempty
    have whole := occurs.append nonempty [] text
    rw [List.nil_append, List.length_nil, Nat.zero_add] at whole
    exact passed i (by omega) whole
  fun_induction pieces pat front text with
  | case1 front =>
    rw [List.mem_singleton] at member
    exact member ▸ free passed
  | case2 front c rest found ih =>
    rcases List.mem_cons.1 member with rfl | member
    · exact free passed
    · exact ih (fun i none' => absurd none' (Nat.not_lt_zero i)) member
  | case3 front c rest other ih =>
    apply ih _ member
    intro i inside
    rw [List.append_assoc, List.singleton_append]
    rw [List.length_append, List.length_singleton] at inside
    by_cases last : i = front.length
    · rw [last, OccursAt, List.drop_left]
      exact other
    · exact passed i (by omega)

end Pieces

end Dux.Logic
