import Std.Data.ExtTreeMap
import Std.Data.ExtTreeSet

/-!
# Names and dictionaries

Finite sets of names and finite maps keyed by names.  Both are ordered by code point, and two of
them are equal as soon as they hold the same names, or the same entries, whatever the history that
built them.
-/

namespace Entailment

/-- A finite set of names, listed in code-point order. -/
abbrev Names := Std.ExtTreeSet String

/-- A finite map from names, listed in code-point order of the names. -/
abbrev Dictionary (α : Type) := Std.ExtTreeMap String α

/-- Truth values for some of the names. -/
abbrev Valuation := Dictionary Bool

namespace Names

theorem mem_ofList {names : List String} {name : String} :
    name ∈ (Std.ExtTreeSet.ofList names : Names) ↔ name ∈ names := by
  simp

def union (sets : List Names) : Names := sets.foldl (· ∪ ·) ∅

theorem mem_union {sets : List Names} {name : String} :
    name ∈ union sets ↔ ∃ set ∈ sets, name ∈ set := by
  have folded (start : Names) :
      name ∈ sets.foldl (· ∪ ·) start ↔ name ∈ start ∨ ∃ set ∈ sets, name ∈ set := by
    induction sets generalizing start with
    | nil => simp
    | cons first others ih =>
      simp [ih, Std.ExtTreeSet.mem_union_iff, or_assoc]
  simp [union, folded]

end Names

/-- A new entry is seen under its own name and under no other. -/
theorem Dictionary.getElem?_insert {α : Type} (entries : Dictionary α) (name other : String)
    (value : α) :
    (entries.insert name value)[other]? = if name = other then some value else entries[other]? := by
  simp [Std.ExtTreeMap.getElem?_insert]

/-- A name that is added to both of two dictionaries makes no difference to which has more. -/
theorem Dictionary.mem_insert_of_mem_insert {α : Type} {fewer more : Dictionary α} {name : String}
    {value value' : α} (h : ∀ other ∈ fewer, other ∈ more) :
    ∀ other ∈ fewer.insert name value, other ∈ more.insert name value' := by
  intro other found
  rw [Std.ExtTreeMap.mem_insert] at found ⊢
  exact found.imp_right (h other)

/-- What holds of the entries and of a new one holds of all entries behind it. -/
theorem Dictionary.forall_insert {α : Type} {P : String → α → Prop} {entries : Dictionary α}
    (all : ∀ name value, entries[name]? = some value → P name value) {name : String} {value : α}
    (new : P name value) (other : String) (found : α)
    (h : (entries.insert name value)[other]? = some found) : P other found := by
  rw [Dictionary.getElem?_insert] at h
  split at h
  · next same =>
    subst same
    cases h
    exact new
  · exact all other found h

/-- The entries of a dictionary give the dictionary again, in whatever order they are inserted. -/
theorem Dictionary.insertMany_of_perm {α : Type} {entries : Dictionary α} {list : List (String × α)}
    (h : list.Perm entries.toList) : (∅ : Dictionary α).insertMany list = entries := by
  have distinct : list.Pairwise fun first second => ¬ compare first.1 second.1 = .eq := by
    apply h.symm.pairwise Std.ExtTreeMap.distinct_keys_toList
    intro first second apart same
    exact apart (Std.OrientedCmp.eq_symm same)
  apply Std.ExtTreeMap.ext_getElem?
  intro name
  cases found : entries[name]? with
  | some value =>
    have mem : (name, value) ∈ list :=
      h.mem_iff.2 (Std.ExtTreeMap.mem_toList_iff_getElem?_eq_some.2 found)
    exact Std.ExtTreeMap.getElem?_insertMany_list_of_mem Std.ReflCmp.compare_self distinct mem
  | none =>
    have missing : (list.map Prod.fst).contains name = false := by
      simp only [List.contains_eq_mem, decide_eq_false_iff_not, List.mem_map, not_exists, not_and]
      rintro ⟨other, value⟩ mem rfl
      have present := Std.ExtTreeMap.mem_toList_iff_getElem?_eq_some.1 (h.mem_iff.1 mem)
      rw [found] at present
      cases present
    rw [Std.ExtTreeMap.getElem?_insertMany_list_of_contains_eq_false missing]
    exact Std.ExtTreeMap.getElem?_empty

end Entailment
