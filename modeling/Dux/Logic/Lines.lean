import Mathlib.Data.List.Basic

/-!
# Lines

A text is read line by line: each line goes to the next separator, and what is behind the last
separator is a line if there is anything.
-/

namespace Dux.Logic

variable {α : Type*} {sep : α}

/-- The text of lines, each with its separator. -/
def unlines (sep : α) (ls : List (List α)) : List α := ls.flatMap (· ++ [sep])

theorem unlines_cons (line : List α) (ls : List (List α)) :
    unlines sep (line :: ls) = line ++ sep :: unlines sep ls := by
  rw [unlines, List.flatMap_cons, List.append_assoc]
  rfl

variable [DecidableEq α]

/-- The lines of a text, with the part of the first one that has been read. -/
def linesFrom (sep : α) (line : List α) : List α → List (List α)
  | [] => if line = [] then [] else [line]
  | b :: rest =>
      if b = sep then line :: linesFrom sep [] rest else linesFrom sep (line ++ [b]) rest

def lines (sep : α) (text : List α) : List (List α) := linesFrom sep [] text

theorem linesFrom_append {front : List α} (plain : sep ∉ front) (line rest : List α) :
    linesFrom sep line (front ++ sep :: rest) = (line ++ front) :: lines sep rest := by
  induction front generalizing line with
  | nil => rw [List.nil_append, linesFrom, if_pos rfl, List.append_nil, lines]
  | cons b front ih =>
    rw [List.mem_cons, not_or] at plain
    rw [List.cons_append, linesFrom, if_neg (Ne.symm plain.1), ih plain.2, List.append_assoc,
      List.singleton_append]

/-- Lines that are written are read. -/
theorem lines_unlines {ls : List (List α)} (plain : ∀ line ∈ ls, sep ∉ line) :
    lines sep (unlines sep ls) = ls := by
  induction ls with
  | nil => rfl
  | cons line ls ih =>
    rw [List.forall_mem_cons] at plain
    rw [unlines_cons, lines, linesFrom_append plain.1, List.nil_append, ih plain.2]

/-- A text with a separator at its end, unless it has one or is empty. -/
def terminated (sep : α) (text : List α) : List α :=
  if text.getLast? = none ∨ text.getLast? = some sep then text else text ++ [sep]

theorem terminated_cons (sep b : α) (rest : List α) : terminated sep (b :: rest) =
    if rest = [] ∧ b ≠ sep then [b, sep] else b :: terminated sep rest := by
  cases rest with
  | nil => by_cases isSep : b = sep <;> simp [terminated, isSep]
  | cons c rest =>
    simp only [terminated, List.getLast?_cons_cons, reduceCtorEq, false_and, if_false]
    split <;> rfl

theorem unlines_linesFrom (sep : α) (line text : List α) :
    unlines sep (linesFrom sep line text) =
      if text = [] ∧ line ≠ [] then line ++ [sep] else line ++ terminated sep text := by
  induction text generalizing line with
  | nil => by_cases empty : line = [] <;> simp [linesFrom, unlines, terminated, empty]
  | cons b rest ih =>
    have notNil : ¬(b :: rest = [] ∧ line ≠ []) := fun both => List.cons_ne_nil _ _ both.1
    rw [linesFrom, if_neg notNil, terminated_cons]
    by_cases isSep : b = sep
    · rw [if_pos isSep, unlines_cons, ih, if_neg fun both => both.2 rfl,
        if_neg fun both => both.2 isSep, List.nil_append, isSep]
    · rw [if_neg isSep, ih]
      by_cases empty : rest = [] <;> simp [empty, isSep]

/-- The lines of a text make up the text again, with a separator at its end. -/
theorem unlines_lines (sep : α) (text : List α) :
    unlines sep (lines sep text) = terminated sep text := by
  rw [lines, unlines_linesFrom, if_neg (by simp), List.nil_append]

theorem not_mem_of_mem_linesFrom {line text l : List α} (plain : sep ∉ line)
    (mem : l ∈ linesFrom sep line text) : sep ∉ l := by
  induction text generalizing line with
  | nil =>
    rw [linesFrom] at mem
    split at mem
    · cases mem
    · rwa [List.mem_singleton.1 mem]
  | cons b rest ih =>
    rw [linesFrom] at mem
    split at mem
    · rcases List.mem_cons.1 mem with rfl | mem
      · exact plain
      · exact ih List.not_mem_nil mem
    · next other =>
      apply ih _ mem
      simpa using ⟨plain, Ne.symm other⟩

theorem not_mem_of_mem_lines {text l : List α} (mem : l ∈ lines sep text) : sep ∉ l :=
  not_mem_of_mem_linesFrom List.not_mem_nil mem

/-- The lines of a text are the only ones without separators that make it up. -/
theorem lines_eq_iff {text : List α} {ls : List (List α)} :
    lines sep text = ls ↔ (∀ line ∈ ls, sep ∉ line) ∧ unlines sep ls = terminated sep text := by
  constructor
  · rintro rfl
    exact ⟨fun _ => not_mem_of_mem_lines, unlines_lines sep text⟩
  · rintro ⟨plain, same⟩
    rw [← unlines_lines] at same
    rw [← lines_unlines plain, same, lines_unlines fun _ => not_mem_of_mem_lines]

end Dux.Logic
