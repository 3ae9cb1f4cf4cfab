import Mathlib.Data.List.Nodup
import Mathlib.Data.List.Perm.Subperm

/-!
# Interning tables

A table grows by interning keys: a key that is present is left alone, a new key
is appended with its value.  The position of a key in the table is its handle.
The main result compares the tables built from a list of requests and from the
requests that pass a test: when do the two give one handle the same meaning?
-/

namespace Dux.Logic

section Interning

variable {κ α : Type*}

def keys (table : List (κ × α)) : List κ := table.map Prod.fst

@[simp]
theorem keys_nil : keys ([] : List (κ × α)) = [] := rfl

@[simp]
theorem keys_cons (entry : κ × α) (rest : List (κ × α)) :
    keys (entry :: rest) = entry.1 :: keys rest := rfl

@[simp]
theorem keys_append (left right : List (κ × α)) :
    keys (left ++ right) = keys left ++ keys right := List.map_append

@[simp]
theorem length_keys (table : List (κ × α)) : (keys table).length = table.length :=
  List.length_map _

theorem keys_filter_subset {keep : κ × α → Bool} {requests : List (κ × α)} :
    keys (requests.filter keep) ⊆ keys requests := by
  intro key member
  obtain ⟨entry, kept, rfl⟩ := List.mem_map.1 member
  exact List.mem_map.2 ⟨entry, (List.mem_filter.1 kept).1, rfl⟩

theorem handle_unique {table : List (κ × α)} {entry : κ × α} (distinct : (keys table).Nodup)
    {i j : Nat} (atI : table[i]? = some entry) (atJ : table[j]? = some entry) : i = j := by
  have keyAt : ∀ {k : Nat}, table[k]? = some entry → (keys table)[k]? = some entry.1 := by
    intro k atK
    rw [keys, List.getElem?_map, atK]
    rfl
  obtain ⟨inRange, _⟩ := List.getElem?_eq_some_iff.1 (keyAt atI)
  exact (List.getElem?_inj inRange distinct).1 (by rw [keyAt atI, keyAt atJ])

variable [DecidableEq κ]

def intern (table : List (κ × α)) (entry : κ × α) : List (κ × α) :=
  if entry.1 ∈ keys table then table else table ++ [entry]

def internAll (table requests : List (κ × α)) : List (κ × α) := requests.foldl intern table

variable {table requests : List (κ × α)} {entry : κ × α}

theorem intern_of_mem (known : entry.1 ∈ keys table) : intern table entry = table := if_pos known

theorem intern_of_notMem (fresh : entry.1 ∉ keys table) :
    intern table entry = table ++ [entry] := if_neg fresh

@[simp]
theorem internAll_nil : internAll table [] = table := rfl

@[simp]
theorem internAll_cons :
    internAll table (entry :: requests) = internAll (intern table entry) requests := rfl

theorem internAll_append (left right : List (κ × α)) :
    internAll table (left ++ right) = internAll (internAll table left) right :=
  List.foldl_append

theorem mem_keys_intern {key : κ} :
    key ∈ keys (intern table entry) ↔ key ∈ keys table ∨ key = entry.1 := by
  by_cases known : entry.1 ∈ keys table
  · rw [intern_of_mem known]
    constructor
    · exact Or.inl
    · rintro (member | rfl)
      · exact member
      · exact known
  · rw [intern_of_notMem known]
    simp

theorem mem_keys_internAll {key : κ} :
    key ∈ keys (internAll table requests) ↔ key ∈ keys table ∨ key ∈ keys requests := by
  induction requests generalizing table with
  | nil => simp
  | cons entry rest ih =>
      rw [internAll_cons, ih, mem_keys_intern, keys_cons, List.mem_cons, or_assoc]

theorem prefix_intern : table <+: intern table entry := by
  by_cases known : entry.1 ∈ keys table
  · simp [intern_of_mem known]
  · simp [intern_of_notMem known]

theorem prefix_internAll : table <+: internAll table requests := by
  induction requests generalizing table with
  | nil => exact List.prefix_rfl
  | cons entry rest ih => exact prefix_intern.trans ih

theorem nodup_intern (distinct : (keys table).Nodup) : (keys (intern table entry)).Nodup := by
  by_cases known : entry.1 ∈ keys table
  · rw [intern_of_mem known]
    exact distinct
  · rw [intern_of_notMem known, keys_append]
    exact List.nodup_append.2
      ⟨distinct, List.nodup_singleton _, fun a inTable b inNew same => known (by
        rw [keys_cons, keys_nil, List.mem_singleton] at inNew
        rw [← inNew, ← same]
        exact inTable)⟩

theorem nodup_internAll (distinct : (keys table).Nodup) :
    (keys (internAll table requests)).Nodup := by
  induction requests generalizing table with
  | nil => exact distinct
  | cons entry rest ih => exact ih (nodup_intern distinct)

theorem lookup_of_mem (distinct : (keys table).Nodup) (member : entry ∈ table) :
    table.lookup entry.1 = some entry.2 := by
  induction table with
  | nil => cases member
  | cons first rest ih =>
      obtain ⟨key, value⟩ := first
      rw [keys_cons, List.nodup_cons] at distinct
      rw [List.lookup_cons]
      rcases List.mem_cons.1 member with rfl | inRest
      · rw [beq_self_eq_true]
      · have differ : (entry.1 == key) = false := by
          rw [beq_eq_false_iff_ne]
          intro same
          have isKey : entry.1 ∈ keys rest := List.mem_map.2 ⟨entry, inRest, rfl⟩
          rw [same] at isKey
          exact distinct.1 isKey
        rw [differ]
        exact ih distinct.2 inRest

/-- The first key that passes a test is the first one requested. -/
theorem find?_keys_internAll (passes : κ → Bool) :
    (keys (internAll table requests)).find? passes =
      ((keys table).find? passes).or ((keys requests).find? passes) := by
  induction requests generalizing table with
  | nil => simp
  | cons entry rest ih =>
      rw [internAll_cons, ih, keys_cons]
      by_cases known : entry.1 ∈ keys table
      · rw [intern_of_mem known, List.find?_cons]
        cases test : passes entry.1 with
        | false => rfl
        | true =>
            obtain ⟨key, found⟩ : ∃ key, (keys table).find? passes = some key :=
              Option.isSome_iff_exists.1 (List.find?_isSome.2 ⟨entry.1, known, test⟩)
            rw [found]
            rfl
      · rw [intern_of_notMem known, keys_append, List.find?_append, Option.or_assoc,
          List.find?_cons]
        cases test : passes entry.1 <;> simp [test]

theorem lookup_internAll (key : κ) :
    (internAll table requests).lookup key = (table.lookup key).or (requests.lookup key) := by
  induction requests generalizing table with
  | nil => simp
  | cons entry rest ih =>
      rw [internAll_cons, ih]
      by_cases known : entry.1 ∈ keys table
      · rw [intern_of_mem known, List.lookup_cons]
        by_cases same : key = entry.1
        · obtain ⟨value, found⟩ : ∃ value, table.lookup key = some value := by
            apply Option.ne_none_iff_exists'.1
            rw [ne_eq, List.lookup_eq_none_iff]
            intro none
            obtain ⟨entry', member, isKey⟩ := List.mem_map.1 known
            simpa [same, isKey] using none entry' member
          rw [found]
          rfl
        · have differ : (key == entry.1) = false := by simpa using same
          rw [differ]
      · rw [intern_of_notMem known, List.lookup_append, Option.or_assoc]
        cases entry with
        | mk name value =>
            cases isKey : key == name <;> simp [List.lookup_cons, isKey]

theorem exists_request_of_getElem? {i : Nat} (past : table.length ≤ i)
    (found : (internAll table requests)[i]? = some entry) :
    ∃ before after, requests = before ++ entry :: after ∧
      entry.1 ∉ keys (internAll table before) ∧ (internAll table before).length = i := by
  induction requests generalizing table with
  | nil =>
      rw [internAll_nil, List.getElem?_eq_none past] at found
      cases found
  | cons request rest ih =>
      by_cases known : request.1 ∈ keys table
      · rw [internAll_cons, intern_of_mem known] at found
        obtain ⟨before, after, split, fresh, length⟩ := ih past found
        refine ⟨request :: before, after, by rw [split, List.cons_append], ?_, ?_⟩
        · rwa [internAll_cons, intern_of_mem known]
        · rwa [internAll_cons, intern_of_mem known]
      · rw [internAll_cons, intern_of_notMem known] at found
        rcases Nat.eq_or_lt_of_le past with here | later
        · have prefixed : table ++ [request] <+: internAll (table ++ [request]) rest :=
            prefix_internAll
          have same : (internAll (table ++ [request]) rest)[i]? = some request := by
            obtain ⟨more, appended⟩ := prefixed
            rw [← appended, ← here]
            simp
          rw [same] at found
          cases found
          exact ⟨[], rest, rfl, known, here⟩
        · obtain ⟨before, after, split, fresh, length⟩ :=
            @ih (table ++ [request]) (by rw [List.length_append]; exact later) found
          refine ⟨request :: before, after, by rw [split, List.cons_append], ?_, ?_⟩
          · rwa [internAll_cons, intern_of_notMem known]
          · rwa [internAll_cons, intern_of_notMem known]

theorem getElem?_of_first {before after : List (κ × α)}
    (fresh : entry.1 ∉ keys (internAll table before)) :
    (internAll table (before ++ entry :: after))[(internAll table before).length]? =
      some entry := by
  rw [internAll_append, internAll_cons, intern_of_notMem fresh]
  have prefixed : internAll table before ++ [entry] <+:
      internAll (internAll table before ++ [entry]) after := prefix_internAll
  obtain ⟨more, appended⟩ := prefixed
  rw [← appended]
  simp

variable {keep : κ × α → Bool}

theorem keys_internAll_filter_subperm (distinct : (keys table).Nodup) :
    (keys (internAll table (requests.filter keep))).Subperm (keys (internAll table requests)) := by
  refine List.subperm_of_subset (nodup_internAll distinct) fun key member => ?_
  rw [mem_keys_internAll] at member ⊢
  exact member.imp_right fun kept => keys_filter_subset kept

theorem length_internAll_filter_le (distinct : (keys table).Nodup) :
    (internAll table (requests.filter keep)).length ≤ (internAll table requests).length := by
  rw [← length_keys, ← length_keys (internAll table requests)]
  exact (keys_internAll_filter_subperm distinct).length_le

/-- Dropping requests loses no entries exactly when every key that is requested
is also known or requested by a request that stays. -/
theorem length_internAll_filter_eq_iff (distinct : (keys table).Nodup) :
    (internAll table (requests.filter keep)).length = (internAll table requests).length ↔
      ∀ key ∈ keys requests, key ∈ keys table ∨ key ∈ keys (requests.filter keep) := by
  constructor
  · intro same key requested
    have perm := (keys_internAll_filter_subperm distinct).perm_of_length_le
      (by rw [length_keys, length_keys]; exact Nat.le_of_eq same.symm)
    rw [← mem_keys_internAll, perm.mem_iff, mem_keys_internAll]
    exact Or.inr requested
  · intro covered
    have back :
        keys (internAll table requests) ⊆ keys (internAll table (requests.filter keep)) := by
      intro key member
      rw [mem_keys_internAll] at member ⊢
      exact member.elim Or.inl (covered key)
    have longer := (List.subperm_of_subset (nodup_internAll distinct) back).length_le
    rw [length_keys, length_keys] at longer
    exact Nat.le_antisymm (length_internAll_filter_le distinct) longer

/-- The table of all requests and the table of those that pass a test agree at a
handle past the common start exactly when the entry there was first requested by
a request that passes, and no key interned before it is missing from the second
table at that moment. -/
theorem getElem?_internAll_filter_eq_iff (distinct : (keys table).Nodup) {i : Nat}
    (past : table.length ≤ i) (found : (internAll table requests)[i]? = some entry) :
    (internAll table (requests.filter keep))[i]? = some entry ↔
      ∃ before after, requests = before ++ entry :: after ∧
        entry.1 ∉ keys table ∧ entry.1 ∉ keys before ∧ keep entry = true ∧
        ∀ key ∈ keys before, key ∈ keys table ∨ key ∈ keys (before.filter keep) := by
  have firstInFilter : ∀ {before after : List (κ × α)},
      entry.1 ∉ keys table → entry.1 ∉ keys before → requests = before ++ entry :: after →
      keep entry = true →
      (internAll table (requests.filter keep))[(internAll table (before.filter keep)).length]? =
        some entry := by
    intro before after notInTable notBefore split kept
    rw [split, List.filter_append, List.filter_cons_of_pos kept]
    apply getElem?_of_first
    rw [mem_keys_internAll]
    rintro (inTable | inBefore)
    · exact notInTable inTable
    · exact notBefore (keys_filter_subset inBefore)
  obtain ⟨before, after, split, fresh, length⟩ := exists_request_of_getElem? past found
  rw [mem_keys_internAll, not_or] at fresh
  constructor
  · intro same
    have kept : keep entry = true := by
      obtain ⟨_, _, splitFilter, _⟩ := exists_request_of_getElem? past same
      have member : entry ∈ requests.filter keep := by rw [splitFilter]; simp
      exact (List.mem_filter.1 member).2
    refine ⟨before, after, split, fresh.1, fresh.2, kept, ?_⟩
    rw [← length_internAll_filter_eq_iff distinct, length]
    have first := firstInFilter fresh.1 fresh.2 split kept
    exact handle_unique (nodup_internAll distinct) first same
  · rintro ⟨before', after', split', notInTable, notBefore, kept, covered⟩
    have first := firstInFilter notInTable notBefore split' kept
    have fresh' : entry.1 ∉ keys (internAll table before') := by
      rw [mem_keys_internAll, not_or]
      exact ⟨notInTable, notBefore⟩
    have here : (internAll table before').length = i := by
      have first' : (internAll table requests)[(internAll table before').length]? = some entry := by
        rw [split']
        exact getElem?_of_first fresh'
      exact handle_unique (nodup_internAll distinct) first' found
    rw [← (length_internAll_filter_eq_iff distinct).2 covered] at here
    rwa [here] at first

end Interning

end Dux.Logic
