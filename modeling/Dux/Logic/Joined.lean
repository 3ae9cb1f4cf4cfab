import Mathlib.Data.List.Infix

/-!
# Words behind double separators

Words written one behind the other, each behind two separators.  They can be read back if no
word has two adjacent separators or ends in one.
-/

namespace Dux.Joined

variable {α : Type} (sep : α)

/-- Every word behind two separators. -/
def joined (words : List (List α)) : List α := words.flatMap fun word => sep :: sep :: word

/-- No two adjacent separators, and none at the end. -/
structure Regular (word : List α) : Prop where
  apart : ¬[sep, sep] <:+: word
  ending : ¬[sep] <:+ word

variable {sep}

@[simp]
theorem joined_nil : joined sep [] = [] := rfl

@[simp]
theorem joined_cons (word : List α) (words : List (List α)) :
    joined sep (word :: words) = sep :: sep :: (word ++ joined sep words) := by
  simp [joined]

theorem joined_append (words words' : List (List α)) :
    joined sep (words ++ words') = joined sep words ++ joined sep words' :=
  List.flatMap_append

theorem joined_starts (words : List (List α)) {c : α} {cs : List α}
    (eq : joined sep words = c :: cs) : ∃ cs', joined sep words = sep :: sep :: cs' := by
  cases words with
  | nil => cases eq
  | cons word words => exact ⟨_, joined_cons word words⟩

/-- A regular word goes as far as the next two separators. -/
theorem Regular.eq_nil_of_append {word tail : List α} (words : List (List α)) {rest : List α}
    (regular : Regular sep (word ++ tail)) (eq : joined sep words = tail ++ rest) : tail = [] := by
  cases tail with
  | nil => rfl
  | cons c tail =>
    obtain ⟨cs, starts⟩ := joined_starts words eq
    rw [starts, List.cons_append, List.cons.injEq] at eq
    obtain ⟨rfl, eq⟩ := eq
    cases tail with
    | nil => exact absurd (List.suffix_append word [sep]) regular.ending
    | cons c tail =>
      rw [List.cons_append, List.cons.injEq] at eq
      obtain ⟨rfl, -⟩ := eq
      exact absurd ⟨word, tail, by simp⟩ regular.apart

theorem append_joined_inj {word word' : List α} {words words' : List (List α)}
    (regular : Regular sep word) (regular' : Regular sep word')
    (eq : word ++ joined sep words = word' ++ joined sep words') :
    word = word' ∧ joined sep words = joined sep words' := by
  rcases List.append_eq_append_iff.1 eq with ⟨tail, rfl, behind⟩ | ⟨tail, rfl, behind⟩
  · obtain rfl := regular'.eq_nil_of_append words behind
    simpa using behind
  · obtain rfl := regular.eq_nil_of_append words' behind
    simpa using behind.symm

theorem joined_inj {words words' : List (List α)} (regular : ∀ word ∈ words, Regular sep word)
    (regular' : ∀ word ∈ words', Regular sep word) :
    joined sep words = joined sep words' ↔ words = words' := by
  constructor
  · intro eq
    induction words generalizing words' with
    | nil =>
      cases words' with
      | nil => rfl
      | cons word' words' => simp at eq
    | cons word words ih =>
      cases words' with
      | nil => simp at eq
      | cons word' words' =>
        simp only [joined_cons, List.cons.injEq, true_and] at eq
        obtain ⟨rfl, behind⟩ := append_joined_inj (regular _ List.mem_cons_self)
          (regular' _ List.mem_cons_self) eq
        rw [ih (fun w isIn => regular w (List.mem_cons_of_mem _ isIn))
          (fun w isIn => regular' w (List.mem_cons_of_mem _ isIn)) behind]
  · exact congrArg _

theorem not_regular_append_joined (word : List α) {words : List (List α)} (nonempty : words ≠ []) :
    ¬Regular sep (word ++ joined sep words) := by
  cases words with
  | nil => exact absurd rfl nonempty
  | cons w words => exact fun regular => regular.apart ⟨word, w ++ joined sep words, by simp⟩

section Split

variable [BEq α] [LawfulBEq α]

theorem splitOn_append_joined (word : List α) (words : List (List α)) :
    (word ++ joined sep words).splitOn sep =
      word.splitOn sep ++ words.flatMap fun word => [] :: word.splitOn sep := by
  induction words generalizing word with
  | nil => simp
  | cons w words ih =>
    rw [joined_cons, List.splitOn_append_cons_self, List.flatMap_cons, List.cons_append, ← ih w,
      show sep :: (w ++ joined sep words) = [] ++ sep :: (w ++ joined sep words) from rfl,
      List.splitOn_append_cons_self]
    simp

end Split

end Dux.Joined
