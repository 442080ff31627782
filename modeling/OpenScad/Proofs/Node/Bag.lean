/-
# Laws of bags of fields

A bag is read by its names. Replacing changes what is read under one name,
taking hides one name, and overlaying reads the bag that is put on top first.
A bag that names each field once keeps doing so, and overlaying twice is
overlaying once with what the second bag makes of the first
(`Fields.overlay_overlay`).

Key definitions: `Fields.Distinct`, `Fields.outside`, `Fields.without`.
Key theorems: `Fields.get?_overlay`, `Fields.overlay_overlay`.
-/
import Mathlib.Data.List.Induction
import Mathlib.Data.List.Nodup
import OpenScad.Fields

namespace OpenScad
namespace Fields

variable {bag other : Fields} {name seen : String} {value : Field}

/-- The bag names each field once, as every bag does that is built with `add` and `replace`. -/
def Distinct (bag : Fields) : Prop := bag.names.Nodup

instance (bag : Fields) : Decidable bag.Distinct := inferInstanceAs (Decidable (List.Nodup _))

theorem get?_cons (entry : String × Field) (entries : List (String × Field)) (name : String) :
    get? { entries := entry :: entries } name =
      if entry.1 = name then some entry.2 else get? { entries } name := by
  unfold get?
  rw [List.lookup_cons]
  by_cases h : entry.1 = name
  · simp [h]
  · rw [if_neg h, beq_false_of_ne (Ne.symm h)]

theorem names_cons (entry : String × Field) (entries : List (String × Field)) :
    names { entries := entry :: entries } = entry.1 :: names { entries } := rfl

theorem get?_isSome_iff : (bag.get? name).isSome ↔ name ∈ bag.names := by
  obtain ⟨entries⟩ := bag
  induction entries with
  | nil => simp [get?, names]
  | cons entry entries ih =>
    rw [get?_cons, names_cons, List.mem_cons, ← ih]
    by_cases h : entry.1 = name
    · simp [h]
    · simp [h, Ne.symm h]

theorem mem_entries_of_get? (h : bag.get? name = some value) : (name, value) ∈ bag.entries := by
  obtain ⟨entries⟩ := bag
  induction entries with
  | nil => cases h
  | cons entry entries ih =>
    rw [get?_cons] at h
    by_cases hentry : entry.1 = name
    · rw [if_pos hentry] at h
      cases h
      exact hentry ▸ List.mem_cons_self
    · rw [if_neg hentry] at h
      exact List.mem_cons_of_mem _ (ih h)

theorem Distinct.get?_of_mem (h : bag.Distinct) (hmem : (name, value) ∈ bag.entries) :
    bag.get? name = some value := by
  obtain ⟨entries⟩ := bag
  induction entries with
  | nil => cases hmem
  | cons entry entries ih =>
    obtain ⟨hentry, hrest⟩ : entry.1 ∉ names { entries } ∧ Distinct { entries } :=
      List.nodup_cons.mp h
    rw [get?_cons]
    obtain rfl | hmem := List.mem_cons.mp hmem
    · rw [if_pos rfl]
    · have hne : entry.1 ≠ name :=
        fun heq => hentry (heq ▸ List.mem_map_of_mem hmem)
      rw [if_neg hne, ih hrest hmem]

theorem Distinct.perm (h : bag.Distinct) (hperm : bag.entries.Perm other.entries) :
    other.Distinct := by
  unfold Distinct names at h ⊢
  exact (hperm.map _).nodup h

/-- The order of the fields makes no difference to what is read. -/
theorem Distinct.get?_perm (h : bag.Distinct) (hperm : bag.entries.Perm other.entries) :
    bag.get? = other.get? := by
  funext name
  refine Option.ext fun value => ⟨fun hbag => ?_, fun hget => ?_⟩
  · exact (h.perm hperm).get?_of_mem (hperm.mem_iff.mp (mem_entries_of_get? hbag))
  · exact h.get?_of_mem (hperm.mem_iff.mpr (mem_entries_of_get? hget))

/-- The names of the bag that are not in a list. -/
def outside (bag : Fields) (known : List String) : List String := bag.names.filter (· ∉ known)

theorem mem_outside_iff {known : List String} :
    name ∈ bag.outside known ↔ name ∈ bag.names ∧ name ∉ known := by
  rw [outside, List.mem_filter, decide_eq_true_iff]

theorem outside_perm (hperm : bag.entries.Perm other.entries) (known : List String) :
    (bag.outside known).Perm (other.outside known) := (hperm.map _).filter _

theorem outside_eq_nil_iff {known : List String} :
    bag.outside known = [] ↔ bag.names ⊆ known := by
  simp [outside, List.filter_eq_nil_iff, List.subset_def]

/-! ### Replacing -/

theorem get?_replace : (bag.replace name value).get? seen =
    if name = seen then some value else bag.get? seen := by
  obtain ⟨entries⟩ := bag
  unfold replace
  induction entries with
  | nil => rw [replaceIn, get?_cons]
  | cons entry entries ih =>
    rw [replaceIn]
    by_cases hentry : entry.1 = name
    · rw [if_pos hentry, get?_cons, get?_cons, hentry]
      by_cases h : name = seen <;> simp [h]
    · rw [if_neg hentry, get?_cons, ih, get?_cons]
      by_cases h : entry.1 = seen
      · simp [h, h ▸ Ne.symm hentry]
      · simp [h]

theorem names_replace : (bag.replace name value).names =
    if name ∈ bag.names then bag.names else bag.names ++ [name] := by
  obtain ⟨entries⟩ := bag
  unfold replace names
  induction entries with
  | nil => rfl
  | cons entry entries ih =>
    rw [replaceIn]
    by_cases hentry : entry.1 = name
    · simp [hentry]
    · simp only [if_neg hentry, List.map_cons, List.mem_cons, Ne.symm hentry, false_or] at ih ⊢
      rw [ih]
      split <;> rfl

theorem outside_replace {known : List String} : (bag.replace name value).outside known =
    if name ∈ known ∨ name ∈ bag.names then bag.outside known
    else bag.outside known ++ [name] := by
  unfold outside
  rw [names_replace]
  by_cases hname : name ∈ bag.names
  · simp [hname]
  · by_cases hknown : name ∈ known <;> simp [hname, hknown, List.filter_append]

theorem Distinct.replace (h : bag.Distinct) (name : String) (value : Field) :
    (bag.replace name value).Distinct := by
  unfold Distinct at h ⊢
  rw [names_replace]
  by_cases hname : name ∈ bag.names
  · rwa [if_pos hname]
  · rw [if_neg hname, ← List.concat_eq_append]
    exact List.Nodup.concat hname h

theorem replace_of_not_mem (h : name ∉ bag.names) :
    bag.replace name value = { entries := bag.entries ++ [(name, value)] } := by
  obtain ⟨entries⟩ := bag
  unfold replace
  unfold names at h
  congr 1
  induction entries with
  | nil => rfl
  | cons entry entries ih =>
    obtain ⟨hentry, hrest⟩ := not_or.mp (mt List.mem_cons.mpr h)
    rw [replaceIn, if_neg (Ne.symm hentry), ih hrest, List.cons_append]

/-- Replacing a field twice. -/
theorem replace_replace (first second : Field) :
    (bag.replace name first).replace name second = bag.replace name second := by
  obtain ⟨entries⟩ := bag
  unfold replace
  congr 1
  induction entries with
  | nil => simp [replaceIn]
  | cons entry entries ih =>
    rw [replaceIn, replaceIn]
    by_cases hentry : entry.1 = name
    · simp [hentry, replaceIn]
    · rw [if_neg hentry, if_neg hentry, replaceIn, if_neg hentry, ih]

/-- Fields of different names can be replaced in either order, if one of them is present. -/
theorem replace_comm (hne : name ≠ seen) (hmem : name ∈ bag.names) (first second : Field) :
    (bag.replace seen second).replace name first =
      (bag.replace name first).replace seen second := by
  obtain ⟨entries⟩ := bag
  unfold replace
  unfold names at hmem
  congr 1
  induction entries with
  | nil => cases hmem
  | cons entry entries ih =>
    by_cases hname : entry.1 = name
    · simp [replaceIn, hname, hne]
    · by_cases hseen : entry.1 = seen
      · simp [replaceIn, hseen, Ne.symm hne]
      · have hrest := ih ((List.mem_cons.mp hmem).resolve_left (Ne.symm hname))
        simp only [replaceIn, if_neg hname, if_neg hseen, hrest]

/-! ### Taking -/

/-- The bag after several names are taken. -/
def without (bag : Fields) (taken : List String) : Fields :=
  taken.foldl (fun b name => (b.take name).2) bag

theorem take_cons (entry : String × Field) (entries : List (String × Field)) (name : String) :
    (take { entries := entry :: entries } name).2 =
      if entry.1 = name then { entries }
      else { entries := entry :: (take { entries } name).2.entries } := by
  unfold take
  simp only [removeFrom]
  split <;> rfl

theorem get?_take_of_ne (h : name ≠ seen) : (bag.take name).2.get? seen = bag.get? seen := by
  obtain ⟨entries⟩ := bag
  induction entries with
  | nil => rfl
  | cons entry entries ih =>
    rw [take_cons]
    by_cases hentry : entry.1 = name
    · rw [if_pos hentry, get?_cons, hentry, if_neg h]
    · rw [if_neg hentry, get?_cons, get?_cons, ih]

theorem names_take (h : bag.Distinct) :
    (bag.take name).2.names = bag.names.filter (· ≠ name) := by
  obtain ⟨entries⟩ := bag
  induction entries with
  | nil => rfl
  | cons entry entries ih =>
    obtain ⟨hentry, hrest⟩ : entry.1 ∉ names { entries } ∧ Distinct { entries } :=
      List.nodup_cons.mp h
    rw [take_cons, names_cons]
    by_cases hname : entry.1 = name
    · have hall : (names { entries }).filter (· ≠ name) = names { entries } :=
        List.filter_eq_self.mpr fun other hother => by
          have hne : other ≠ name := fun heq => hentry (hname ▸ heq ▸ hother)
          simpa using hne
      rw [if_pos hname, List.filter_cons_of_neg (by simp [hname]), hall]
    · rw [if_neg hname, names_cons, ih hrest, List.filter_cons_of_pos (by simp [hname])]

theorem Distinct.take (h : bag.Distinct) (name : String) : (bag.take name).2.Distinct := by
  unfold Distinct
  rw [names_take h]
  exact h.filter _

/-- What is left after some names are taken are the names outside them, in their order. -/
theorem names_without (taken : List String) (h : bag.Distinct) :
    (bag.without taken).names = bag.outside taken := by
  induction taken generalizing bag with
  | nil => simp [without, outside]
  | cons name taken ih =>
    rw [show bag.without (name :: taken) = (bag.take name).2.without taken from rfl,
      ih (h.take name), outside, outside, names_take h, List.filter_filter]
    exact List.filter_congr fun other _ => by simp [Bool.and_comm]

/-! ### Overlaying -/

theorem overlay_concat (entries : List (String × Field)) (name : String) (value : Field) :
    bag.overlay { entries := entries ++ [(name, value)] } =
      (bag.overlay { entries }).replace name value := by
  rw [overlay, List.foldl_append]
  rfl

theorem Distinct.overlay (h : bag.Distinct) (other : Fields) : (bag.overlay other).Distinct := by
  obtain ⟨entries⟩ := other
  induction entries using List.reverseRecOn with
  | nil => exact h
  | append_singleton entries entry ih =>
    rw [overlay_concat]
    exact ih.replace _ _

/-- What is put on top is read first; a name that it has several times reads as the last one. -/
theorem get?_overlay (bag other : Fields) (name : String) :
    (bag.overlay other).get? name = ((empty.overlay other).get? name).or (bag.get? name) := by
  obtain ⟨entries⟩ := other
  induction entries using List.reverseRecOn with
  | nil => rfl
  | append_singleton entries entry ih =>
    rw [overlay_concat, overlay_concat, get?_replace, get?_replace, ih]
    split <;> rfl

/-- The names outside a list that covers the bag are those of what is put on top. -/
theorem outside_overlay {known : List String} (h : bag.names ⊆ known) (other : Fields) :
    (bag.overlay other).outside known = (empty.overlay other).outside known := by
  obtain ⟨entries⟩ := other
  induction entries using List.reverseRecOn with
  | nil =>
    have hnone : bag.outside known = [] := outside_eq_nil_iff.mpr h
    exact hnone
  | append_singleton entries entry ih =>
    have hmem : entry.1 ∈ (bag.overlay { entries }).outside known ↔
        entry.1 ∈ (empty.overlay { entries }).outside known := by rw [ih]
    rw [overlay_concat, overlay_concat, outside_replace, outside_replace, ih]
    by_cases hentry : entry.1 ∈ known
    · simp [hentry]
    · simp only [mem_outside_iff, hentry, not_false_eq_true, and_true] at hmem
      simp only [hentry, hmem]

theorem overlay_cons (bag : Fields) (entry : String × Field) (entries : List (String × Field)) :
    bag.overlay { entries := entry :: entries } =
      (bag.replace entry.1 entry.2).overlay { entries } := rfl

/-- A field that is present can be replaced before others are put on top. -/
theorem overlay_replace_left (hmem : name ∈ bag.names) (hother : name ∉ other.names) :
    (bag.overlay other).replace name value = (bag.replace name value).overlay other := by
  obtain ⟨entries⟩ := other
  induction entries generalizing bag with
  | nil => rfl
  | cons entry entries ih =>
    obtain ⟨hentry, hrest⟩ := not_or.mp (mt List.mem_cons.mpr hother)
    have hpresent : name ∈ (bag.replace entry.1 entry.2).names := by
      rw [names_replace]
      split
      · exact hmem
      · exact List.mem_append_left _ hmem
    rw [overlay_cons, ih hpresent hrest, replace_comm hentry hmem, overlay_cons]

/-- Replacing a field of what is put on top replaces it in the outcome. -/
theorem overlay_replace (h : other.Distinct) :
    bag.overlay (other.replace name value) = (bag.overlay other).replace name value := by
  obtain ⟨entries⟩ := other
  induction entries generalizing bag with
  | nil => rfl
  | cons entry entries ih =>
    obtain ⟨hentry, hrest⟩ := List.nodup_cons.mp h
    by_cases hname : entry.1 = name
    · have hpresent : name ∈ (bag.replace entry.1 entry.2).names := by
        rw [← get?_isSome_iff, get?_replace, if_pos hname]
        rfl
      rw [overlay_cons, overlay_replace_left hpresent (hname ▸ hentry), hname, replace_replace]
      simp only [replace, replaceIn, if_pos hname, overlay_cons]
    · rw [overlay_cons, ← ih hrest]
      simp only [replace, replaceIn, if_neg hname, overlay_cons]

/-- **Overlaying is an action.** Putting two bags over a bag, one after the other, puts one bag
over it: the first with the second put over it. -/
theorem overlay_overlay (h : other.Distinct) (last : Fields) :
    bag.overlay (other.overlay last) = (bag.overlay other).overlay last := by
  obtain ⟨entries⟩ := last
  induction entries using List.reverseRecOn with
  | nil => rfl
  | append_singleton entries entry ih =>
    rw [overlay_concat, overlay_concat, overlay_replace (h.overlay _), ih]

end Fields
end OpenScad
