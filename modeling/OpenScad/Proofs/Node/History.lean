/-
# Histories of a bag of fields

A bag starts empty and changes step by step: a field is added, a value is
replaced, a field is taken. Each step does one of five things to a bag whose
names differ (`Fields.Distinct.step_eq_iff`), so the names always differ, and
the bag can be read off the steps alone (`Fields.mirrors_after`). A name is
present if some step put a value under it and none took it since. Its value is
that of the last replacement, or of the step that put it there. The names stand
in the order in which they came in, counted from when they were last taken.

Key definitions: `Fields.Step`, `Fields.step`, `Fields.after`, `Fields.Effect`,
`Fields.Present`, `Fields.Holds`, `Fields.Enters`, `Fields.Mirrors`.
Key theorems: `Fields.Distinct.step_eq_iff`, `Fields.mirrors_after`,
`Fields.exists_after_iff`, `Fields.ordered_map_of_history`.
-/
import OpenScad.Proofs.Node.Copy

namespace OpenScad
namespace Fields

/-! ### Steps -/

/-- What can be done to a bag. Adding in a chain hands the bag on to the next step. -/
inductive Step where
  | add (name : String) (value : Field)
  | chain (name : String) (value : Field)
  | replace (name : String) (value : Field)
  | take (name : String)

/-- What a step answers. -/
inductive Answer where
  | done
  | refused (error : NodeError)
  | taken (value : Option Field)

variable {bag : Fields} {s : Step} {name seen : String} {value : Field}

/-- The answer to a step and the bag behind it. A step that is refused leaves the bag. -/
def step (bag : Fields) : Step → Answer × Fields
  | .add name value | .chain name value =>
    match bag.add name value with
    | .ok larger => (.done, larger)
    | .error error => (.refused error, bag)
  | .replace name value => (.done, bag.replace name value)
  | .take name => (.taken (bag.take name).1, (bag.take name).2)

/-- The bag after some steps, from the empty one. -/
def after (steps : List Step) : Fields := steps.foldl (fun bag s => (bag.step s).2) empty

theorem after_concat (steps : List Step) (s : Step) :
    after (steps ++ [s]) = ((after steps).step s).2 := List.foldl_concat _ _ _ _

namespace Step

/-- The step adds a field of the name and the value. -/
def Adds (s : Step) (name : String) (value : Field) : Prop :=
  s = .add name value ∨ s = .chain name value

/-- The step puts the value under the name if the name is absent. -/
def Puts (s : Step) (name : String) (value : Field) : Prop :=
  s.Adds name value ∨ s = .replace name value

end Step

/-! ### What one step does -/

/-- What a step does to a bag. -/
inductive Effect (bag : Fields) : Step → Answer × Fields → Prop where
  /-- A name that is present is not added, whatever the value, and the bag stays as it is. -/
  | refused {s : Step} {name : String} {value : Field} (adds : s.Adds name value)
      (present : name ∈ bag.names) : Effect bag s (.refused (.alreadySet name), bag)
  /-- A name that is absent comes in behind the others. -/
  | appended {s : Step} {name : String} {value : Field} (puts : s.Puts name value)
      (absent : name ∉ bag.names) :
      Effect bag s (.done, { entries := bag.entries ++ [(name, value)] })
  /-- The value of a name that is present is replaced in its place. -/
  | replaced {name : String} {front rest : List (String × Field)} {old : Field} (value : Field)
      (present : bag.entries = front ++ (name, old) :: rest) :
      Effect bag (.replace name value) (.done, { entries := front ++ (name, value) :: rest })
  /-- A name that is present is taken, and the others stay in their order. -/
  | taken {name : String} {front rest : List (String × Field)} {old : Field}
      (present : bag.entries = front ++ (name, old) :: rest) :
      Effect bag (.take name) (.taken (some old), { entries := front ++ rest })
  /-- Nothing is taken under a name that is absent. -/
  | missed {name : String} (absent : name ∉ bag.names) :
      Effect bag (.take name) (.taken none, bag)

namespace Step

variable {v w : Field}

theorem Puts.name_eq (h : s.Puts name v) (h' : s.Puts seen w) : name = seen := by
  rcases h with (rfl | rfl) | rfl <;> rcases h' with (h' | h') | h' <;> cases h' <;> rfl

theorem Puts.value_eq (h : s.Puts name v) (h' : s.Puts name w) : v = w := by
  rcases h with (rfl | rfl) | rfl <;> rcases h' with (h' | h') | h' <;> cases h' <;> rfl

theorem Puts.ne_take (h : s.Puts name v) (seen : String) : s ≠ .take seen := by
  rcases h with (rfl | rfl) | rfl <;> rintro ⟨⟩

theorem Adds.ne_replace (h : s.Adds name v) (seen : String) (w : Field) :
    s ≠ .replace seen w := by
  rcases h with rfl | rfl <;> rintro ⟨⟩

theorem take_ne_iff : take name ≠ take seen ↔ seen ≠ name := by
  rw [Ne, take.injEq, eq_comm]

end Step

section Steps

variable {front rest : List (String × Field)} {old : Field} {out : Answer × Fields}

theorem exists_entries_of_mem (h : name ∈ bag.names) :
    ∃ front old rest, bag.entries = front ++ (name, old) :: rest := by
  obtain ⟨⟨_, old⟩, hmem, rfl⟩ := List.mem_map.mp h
  obtain ⟨front, rest, hentries⟩ := List.append_of_mem hmem
  exact ⟨front, old, rest, hentries⟩

/-- The fields in front of one of a name have other names. -/
theorem Distinct.ne_of_mem_front (h : bag.Distinct)
    (hentries : bag.entries = front ++ (name, old) :: rest) :
    ∀ entry ∈ front, entry.1 ≠ name := by
  unfold Distinct names at h
  rw [hentries, List.map_append, List.map_cons, List.nodup_middle, ← List.map_append] at h
  intro entry hentry heq
  exact (List.nodup_cons.mp h).1
    (List.mem_map.mpr ⟨entry, List.mem_append_left _ hentry, heq⟩)

theorem add_of_mem (h : name ∈ bag.names) : bag.add name value = .error (.alreadySet name) :=
  if_pos (get?_isSome_iff.mpr h)

theorem add_of_not_mem (h : name ∉ bag.names) :
    bag.add name value = .ok { entries := bag.entries ++ [(name, value)] } :=
  if_neg (mt get?_isSome_iff.mp h)

theorem replaceIn_append (h : ∀ entry ∈ front, entry.1 ≠ name) :
    replaceIn name value (front ++ (name, old) :: rest) = front ++ (name, value) :: rest := by
  induction front with
  | nil => exact if_pos rfl
  | cons entry front ih =>
    obtain ⟨hentry, hfront⟩ := List.forall_mem_cons.mp h
    rw [List.cons_append, replaceIn, if_neg hentry, ih hfront, List.cons_append]

theorem removeFrom_append (h : ∀ entry ∈ front, entry.1 ≠ name) :
    removeFrom name (front ++ (name, old) :: rest) = front ++ rest := by
  induction front with
  | nil => exact if_pos rfl
  | cons entry front ih =>
    obtain ⟨hentry, hfront⟩ := List.forall_mem_cons.mp h
    rw [List.cons_append, removeFrom, if_neg hentry, ih hfront, List.cons_append]

theorem Distinct.replace_eq (h : bag.Distinct)
    (hentries : bag.entries = front ++ (name, old) :: rest) :
    bag.replace name value = { entries := front ++ (name, value) :: rest } := by
  rw [Fields.replace, hentries, replaceIn_append (h.ne_of_mem_front hentries)]

theorem Distinct.take_eq (h : bag.Distinct)
    (hentries : bag.entries = front ++ (name, old) :: rest) :
    bag.take name = (some old, { entries := front ++ rest }) := by
  have hvalue : bag.get? name = some old := h.get?_of_mem (by simp [hentries])
  rw [Fields.take, hvalue, hentries, removeFrom_append (h.ne_of_mem_front hentries)]

theorem get?_of_not_mem (h : name ∉ bag.names) : bag.get? name = none :=
  Option.not_isSome_iff_eq_none.mp (mt get?_isSome_iff.mp h)

theorem take_of_not_mem (h : name ∉ bag.names) : bag.take name = (none, bag) := by
  refine Prod.ext (get?_of_not_mem h) ?_
  obtain ⟨entries⟩ := bag
  induction entries with
  | nil => rfl
  | cons entry entries ih =>
    obtain ⟨hentry, hrest⟩ := not_or.mp (mt List.mem_cons.mpr h)
    rw [take_cons, if_neg (Ne.symm hentry), ih hrest]

theorem step_of_adds (h : s.Adds name value) : bag.step s = bag.step (.add name value) := by
  rcases h with rfl | rfl <;> rfl

/-- Every step has an effect. -/
theorem exists_effect (bag : Fields) (s : Step) : ∃ out, Effect bag s out := by
  cases s with
  | add name value =>
    by_cases h : name ∈ bag.names
    · exact ⟨_, .refused (.inl rfl) h⟩
    · exact ⟨_, .appended (.inl (.inl rfl)) h⟩
  | chain name value =>
    by_cases h : name ∈ bag.names
    · exact ⟨_, .refused (.inr rfl) h⟩
    · exact ⟨_, .appended (.inl (.inr rfl)) h⟩
  | replace name value =>
    by_cases h : name ∈ bag.names
    · obtain ⟨front, old, rest, hentries⟩ := exists_entries_of_mem h
      exact ⟨_, .replaced value hentries⟩
    · exact ⟨_, .appended (.inr rfl) h⟩
  | take name =>
    by_cases h : name ∈ bag.names
    · obtain ⟨front, old, rest, hentries⟩ := exists_entries_of_mem h
      exact ⟨_, .taken hentries⟩
    · exact ⟨_, .missed h⟩

theorem Effect.step_eq (he : Effect bag s out) (h : bag.Distinct) : bag.step s = out := by
  cases he with
  | refused adds present => rw [step_of_adds adds, step, add_of_mem present]
  | appended puts absent =>
    rcases puts with adds | rfl
    · rw [step_of_adds adds, step, add_of_not_mem absent]
    · rw [step, replace_of_not_mem absent]
  | replaced value present => rw [step, h.replace_eq present]
  | taken present => rw [step, h.take_eq present]
  | missed absent => rw [step, take_of_not_mem absent]

/-- **What a step does** to a bag whose names differ. -/
theorem Distinct.step_eq_iff (h : bag.Distinct) : bag.step s = out ↔ Effect bag s out := by
  refine ⟨?_, fun he => he.step_eq h⟩
  rintro rfl
  obtain ⟨out, he⟩ := exists_effect bag s
  rwa [he.step_eq h]

/-- The bag behind a step is the same one, or has a value put under a name, or a name taken. -/
theorem Effect.bag_cases (he : Effect bag s out) (h : bag.Distinct) :
    (∃ name value, s.Adds name value ∧ name ∈ bag.names ∧ out.2 = bag) ∨
    (∃ name value, s.Puts name value ∧ (name ∈ bag.names → s = .replace name value) ∧
      out.2 = bag.replace name value) ∨
    ∃ name, s = .take name ∧ out.2 = (bag.take name).2 := by
  cases he with
  | refused adds present => exact .inl ⟨_, _, adds, present, rfl⟩
  | appended puts absent =>
    exact .inr (.inl ⟨_, _, puts, (absurd · absent), (replace_of_not_mem absent).symm⟩)
  | replaced value present =>
    exact .inr (.inl ⟨_, value, .inr rfl, fun _ => rfl, (h.replace_eq present).symm⟩)
  | taken present => exact .inr (.inr ⟨_, rfl, by rw [h.take_eq present]⟩)
  | missed absent => exact .inr (.inr ⟨_, rfl, by rw [take_of_not_mem absent]⟩)

end Steps

/-! ### What the steps say -/

section Since

variable {begins begins' : List Step → Step → Prop} {keeps keeps' : Step → Prop}
  {steps : List Step}

/-- At some step, `begins` holds of the steps before it and of that step, and `keeps` holds of
every later one. -/
def Since (begins : List Step → Step → Prop) (keeps : Step → Prop) (steps : List Step) : Prop :=
  ∃ front s later, steps = front ++ s :: later ∧ begins front s ∧ ∀ t ∈ later, keeps t

theorem not_since_nil : ¬ Since begins keeps [] := by
  rintro ⟨front, s, later, h, -⟩
  exact List.append_ne_nil_of_right_ne_nil front (List.cons_ne_nil s later) h.symm

/-- **One step more:** it begins with that step, or it was so before and the step keeps it. -/
theorem since_concat :
    Since begins keeps (steps ++ [s]) ↔ begins steps s ∨ Since begins keeps steps ∧ keeps s := by
  constructor
  · rintro ⟨front, first, later, h, hbegins, hkeeps⟩
    -- it begins with the last step, or the last step is one of the later ones
    rcases List.eq_nil_or_concat later with rfl | ⟨later, last, rfl⟩
    · obtain ⟨rfl, hs⟩ := List.append_inj' h rfl
      cases hs
      exact .inl hbegins
    · rw [List.concat_eq_append, ← List.cons_append, ← List.append_assoc] at h
      obtain ⟨rfl, hs⟩ := List.append_inj' h rfl
      cases hs
      rw [List.concat_eq_append] at hkeeps
      exact .inr ⟨⟨front, first, later, rfl, hbegins,
        fun t ht => hkeeps t (List.mem_append_left _ ht)⟩, hkeeps _ (by simp)⟩
  · rintro (hbegins | ⟨⟨front, first, later, rfl, hbegins, hkeeps⟩, hs⟩)
    · exact ⟨steps, s, [], rfl, hbegins, List.forall_mem_nil _⟩
    · refine ⟨front, first, later ++ [s], by simp, hbegins, ?_⟩
      exact List.forall_mem_append.mpr ⟨hkeeps, List.forall_mem_singleton.mpr hs⟩

theorem Since.mono (h : Since begins keeps steps)
    (hbegins : ∀ front s, begins front s → begins' front s) (hkeeps : ∀ t, keeps t → keeps' t) :
    Since begins' keeps' steps := by
  obtain ⟨front, s, later, hsteps, hfirst, hlater⟩ := h
  exact ⟨front, s, later, hsteps, hbegins front s hfirst, fun t ht => hkeeps t (hlater t ht)⟩

end Since

section Reading

variable {steps : List Step} {place : Nat}

/-- A step put a value under the name, and none took it since. -/
def Present (steps : List Step) (name : String) : Prop :=
  Since (fun _ s => ∃ value, s.Puts name value) (fun t => t ≠ .take name) steps

/-- The step at the place put a value under the name when it was absent, and no step took it
since. -/
def Enters (steps : List Step) (name : String) (place : Nat) : Prop :=
  Since (fun front s => front.length = place ∧ (∃ value, s.Puts name value) ∧ ¬ Present front name)
    (fun t => t ≠ .take name) steps

/-- A step put the value under the name when it was absent, or replaced the value there, and
no step took or replaced it since. -/
def Holds (steps : List Step) (name : String) (value : Field) : Prop :=
  Since (fun front s => s.Puts name value ∧ (Present front name → s = .replace name value))
    (fun t => t ≠ .take name ∧ ∀ other, t ≠ .replace name other) steps

/-- The first name entered before the second one. -/
def Precedes (steps : List Step) (name seen : String) : Prop :=
  ∃ i j, Enters steps name i ∧ Enters steps seen j ∧ i < j

theorem Enters.lt_length (h : Enters steps name place) : place < steps.length := by
  obtain ⟨front, s, later, rfl, ⟨rfl, -⟩, -⟩ := h
  simp

theorem Enters.present (h : Enters steps name place) : Present steps name :=
  Since.mono h (fun _ _ hbegins => hbegins.2.1) fun _ => id

theorem Enters.concat (h : Enters steps name place) (hs : s ≠ .take name) :
    Enters (steps ++ [s]) name place := since_concat.mpr (.inr ⟨h, hs⟩)

/-- A name that is present entered at some step. -/
theorem exists_enters (h : Present steps name) : ∃ place, Enters steps name place := by
  induction steps using List.reverseRecOn with
  | nil => exact absurd h not_since_nil
  | append_singleton steps s ih =>
    by_cases hbefore : Present steps name
    · have hs : s ≠ .take name := by
        rcases since_concat.mp h with ⟨value, hputs⟩ | ⟨-, hs⟩
        · exact hputs.ne_take name
        · exact hs
      obtain ⟨place, hplace⟩ := ih hbefore
      exact ⟨place, hplace.concat hs⟩
    · rcases since_concat.mp h with hputs | ⟨hpresent, -⟩
      · exact ⟨steps.length, since_concat.mpr (.inl ⟨rfl, hputs, hbefore⟩)⟩
      · exact absurd hpresent hbefore

/-- A name entered at one step only. -/
theorem Enters.unique {i j : Nat} (hi : Enters steps name i) (hj : Enters steps name j) :
    i = j := by
  induction steps using List.reverseRecOn with
  | nil => exact absurd hi not_since_nil
  | append_singleton steps s ih =>
    rcases since_concat.mp hi with ⟨rfl, -, habsent⟩ | ⟨hi, -⟩
    · rcases since_concat.mp hj with ⟨rfl, -, -⟩ | ⟨hj, -⟩
      · rfl
      · exact absurd (Enters.present hj) habsent
    · rcases since_concat.mp hj with ⟨rfl, -, habsent⟩ | ⟨hj, -⟩
      · exact absurd (Enters.present hi) habsent
      · exact ih hi hj

theorem Precedes.concat (h : Precedes steps name seen) (hname : s ≠ .take name)
    (hseen : s ≠ .take seen) : Precedes (steps ++ [s]) name seen := by
  obtain ⟨i, j, hi, hj, hlt⟩ := h
  exact ⟨i, j, hi.concat hname, hj.concat hseen, hlt⟩

theorem Holds.present (h : Holds steps name value) : Present steps name :=
  Since.mono h (fun _ _ hbegins => ⟨value, hbegins.1⟩) fun _ hkeeps => hkeeps.1

/-! #### One step more -/

variable {v : Field}

theorem present_concat_of_puts (h : s.Puts name value) :
    Present (steps ++ [s]) seen ↔ seen = name ∨ Present steps seen := by
  refine since_concat.trans ⟨?_, ?_⟩
  · rintro (⟨w, hputs⟩ | ⟨hpresent, -⟩)
    · exact .inl (hputs.name_eq h)
    · exact .inr hpresent
  · rintro (rfl | hpresent)
    · exact .inl ⟨value, h⟩
    · exact .inr ⟨hpresent, h.ne_take seen⟩

theorem present_concat_take :
    Present (steps ++ [.take name]) seen ↔ Present steps seen ∧ seen ≠ name := by
  refine since_concat.trans ⟨?_, ?_⟩
  · rintro (⟨w, hputs⟩ | ⟨hpresent, hne⟩)
    · exact absurd rfl (hputs.ne_take name)
    · exact ⟨hpresent, Step.take_ne_iff.mp hne⟩
  · rintro ⟨hpresent, hne⟩
    exact .inr ⟨hpresent, Step.take_ne_iff.mpr hne⟩

/-- Adding a name that is present leaves the values. -/
theorem holds_concat_of_adds (h : s.Adds name value) (hpresent : Present steps name) :
    Holds (steps ++ [s]) seen v ↔ Holds steps seen v := by
  refine since_concat.trans ⟨?_, ?_⟩
  · rintro (⟨hputs, hreplace⟩ | ⟨hholds, -⟩)
    · obtain rfl := hputs.name_eq (.inl h)
      exact absurd (hreplace hpresent) (h.ne_replace seen v)
    · exact hholds
  · intro hholds
    exact .inr ⟨hholds, Step.Puts.ne_take (.inl h) seen, h.ne_replace seen⟩

/-- A value that is put under a name is the value of that name alone. -/
theorem holds_concat_of_puts (h : s.Puts name value)
    (hset : Present steps name → s = .replace name value) :
    Holds (steps ++ [s]) seen v ↔ if name = seen then v = value else Holds steps seen v := by
  refine since_concat.trans ?_
  split
  · subst seen
    constructor
    · rintro (⟨hputs, -⟩ | ⟨hholds, -, hkept⟩)
      · exact hputs.value_eq h
      · exact absurd (hset (Holds.present hholds)) (hkept value)
    · rintro rfl
      exact .inl ⟨h, hset⟩
  · rename_i hne
    constructor
    · rintro (⟨hputs, -⟩ | ⟨hholds, -⟩)
      · exact absurd (h.name_eq hputs) hne
      · exact hholds
    · intro hholds
      exact .inr ⟨hholds, h.ne_take seen, fun other heq => hne (h.name_eq (.inr heq))⟩

theorem holds_concat_take :
    Holds (steps ++ [.take name]) seen v ↔ Holds steps seen v ∧ seen ≠ name := by
  refine since_concat.trans ⟨?_, ?_⟩
  · rintro (⟨hputs, -⟩ | ⟨hholds, hne, -⟩)
    · exact absurd rfl (hputs.ne_take name)
    · exact ⟨hholds, Step.take_ne_iff.mp hne⟩
  · rintro ⟨hholds, hne⟩
    exact .inr ⟨hholds, Step.take_ne_iff.mpr hne, by simp⟩

end Reading

/-! ### A bag against its history -/

/-- What is read from the bag is what the steps say. -/
structure Mirrors (steps : List Step) (bag : Fields) : Prop where
  distinct : bag.Distinct
  present : ∀ name, name ∈ bag.names ↔ Present steps name
  holds : ∀ name value, bag.get? name = some value ↔ Holds steps name value
  order : bag.names.Pairwise (Precedes steps)

section Mirrors

variable {steps : List Step}

theorem mirrors_nil : Mirrors [] empty where
  distinct := List.nodup_nil
  present _ := iff_of_false List.not_mem_nil not_since_nil
  holds _ _ := iff_of_false (by simp [get?, empty]) not_since_nil
  order := List.Pairwise.nil

theorem Mirrors.refuse (h : Mirrors steps bag) (hadds : s.Adds name value)
    (hmem : name ∈ bag.names) : Mirrors (steps ++ [s]) bag where
  distinct := h.distinct
  present seen := by
    rw [h.present, present_concat_of_puts (.inl hadds), eq_comm, or_iff_right_of_imp]
    rintro rfl
    exact (h.present name).mp hmem
  holds seen v := by rw [h.holds, holds_concat_of_adds hadds ((h.present name).mp hmem)]
  order := h.order.imp fun hlt =>
    hlt.concat (Step.Puts.ne_take (.inl hadds) _) (Step.Puts.ne_take (.inl hadds) _)

theorem Mirrors.put (h : Mirrors steps bag) (hputs : s.Puts name value)
    (hset : name ∈ bag.names → s = .replace name value) :
    Mirrors (steps ++ [s]) (bag.replace name value) where
  distinct := h.distinct.replace name value
  present seen := by
    rw [names_replace, present_concat_of_puts hputs, ← h.present]
    by_cases hmem : name ∈ bag.names
    · rw [if_pos hmem, or_iff_right_of_imp]
      rintro rfl
      exact hmem
    · rw [if_neg hmem, List.mem_append, List.mem_singleton, or_comm]
  holds seen v := by
    rw [get?_replace,
      holds_concat_of_puts hputs fun hpresent => hset ((h.present name).mpr hpresent)]
    split
    · rw [Option.some_inj, eq_comm]
    · exact h.holds seen v
  order := by
    have hkept := h.order.imp fun hlt => hlt.concat (hputs.ne_take _) (hputs.ne_take _)
    rw [names_replace]
    by_cases hmem : name ∈ bag.names
    · rwa [if_pos hmem]
    · -- the name comes in at this step, and the others came in before
      rw [if_neg hmem]
      refine List.pairwise_append.mpr ⟨hkept, List.pairwise_singleton _ _, ?_⟩
      intro seen hseen last hlast
      rw [List.mem_singleton] at hlast
      subst hlast
      obtain ⟨place, hplace⟩ := exists_enters ((h.present seen).mp hseen)
      refine ⟨place, steps.length, hplace.concat (hputs.ne_take seen), ?_, hplace.lt_length⟩
      exact since_concat.mpr (.inl ⟨rfl, ⟨value, hputs⟩, mt (h.present last).mpr hmem⟩)

theorem Mirrors.take (h : Mirrors steps bag) (name : String) :
    Mirrors (steps ++ [.take name]) (bag.take name).2 where
  distinct := h.distinct.take name
  present seen := by
    rw [names_take h.distinct, present_concat_take, List.mem_filter, h.present,
      decide_eq_true_iff]
  holds seen v := by
    rw [holds_concat_take, ← h.holds]
    by_cases hname : seen = name
    · subst hname
      have hgone : seen ∉ (bag.take seen).2.names := by simp [names_take h.distinct]
      simp [get?_of_not_mem hgone]
    · rw [get?_take_of_ne (Ne.symm hname), and_iff_left hname]
  order := by
    rw [names_take h.distinct]
    refine (h.order.filter _).imp_of_mem ?_
    intro a b ha hb hlt
    have hkept {seen : String} (hseen : seen ∈ bag.names.filter (· ≠ name)) :
        Step.take name ≠ .take seen :=
      Step.take_ne_iff.mpr (decide_eq_true_iff.mp (List.mem_filter.mp hseen).2)
    exact hlt.concat (hkept ha) (hkept hb)

/-- **A step keeps the bag with its history.** -/
theorem Mirrors.step (h : Mirrors steps bag) (s : Step) :
    Mirrors (steps ++ [s]) (bag.step s).2 := by
  have heffect : Effect bag s (bag.step s) := h.distinct.step_eq_iff.mp rfl
  obtain ⟨name, value, hadds, hmem, hbag⟩ | ⟨name, value, hputs, hset, hbag⟩ |
    ⟨name, rfl, hbag⟩ := heffect.bag_cases h.distinct
  · rw [hbag]
    exact h.refuse hadds hmem
  · rw [hbag]
    exact h.put hputs hset
  · rw [hbag]
    exact h.take name

/-- **Every history** gives the bag that its steps say. -/
theorem mirrors_after (steps : List Step) : Mirrors steps (after steps) := by
  induction steps using List.reverseRecOn with
  | nil => exact mirrors_nil
  | append_singleton steps s ih =>
    rw [after_concat]
    exact ih.step s

end Mirrors

/-! ### The bags that histories reach -/

theorem after_replaces (h : bag.Distinct) :
    after (bag.entries.map fun entry => .replace entry.1 entry.2) = bag := by
  obtain ⟨entries⟩ := bag
  induction entries using List.reverseRecOn with
  | nil => rfl
  | append_singleton entries entry ih =>
    have hnames : (names { entries } ++ [entry.1]).Nodup := by
      simpa [Distinct, names] using h
    obtain ⟨hfront, -, hlast⟩ := List.nodup_append.mp hnames
    have habsent : entry.1 ∉ names { entries } :=
      fun hmem => hlast _ hmem _ (List.mem_singleton_self _) rfl
    rw [List.map_append, List.map_singleton, after_concat, ih hfront, step,
      replace_of_not_mem habsent]

/-- **Histories reach the bags whose names differ,** and no others. -/
theorem exists_after_iff : (∃ steps, after steps = bag) ↔ bag.Distinct := by
  constructor
  · rintro ⟨steps, rfl⟩
    exact (mirrors_after steps).distinct
  · exact fun h => ⟨_, after_replaces h⟩

/-- **A bag is an ordered map with unique names, whatever its history.** A step does what its
effect says and nothing else. Looking a name up, asking for it and listing it tell of the same
map, which the steps alone determine, and the names stand in the order in which they entered. -/
theorem ordered_map_of_history (steps : List Step) :
    (after steps).names.Nodup ∧
    (∀ s out, (after steps).step s = out ↔ Effect (after steps) s out) ∧
    (∀ name, (name ∈ (after steps).names ↔ Present steps name) ∧
      ((after steps).contains name = true ↔ Present steps name) ∧
      ∀ value, (after steps).get? name = some value ↔ Holds steps name value) ∧
    (after steps).size = (after steps).names.length ∧
    (∀ name ∈ (after steps).names, ∃! place, Enters steps name place) ∧
    (after steps).names.Pairwise (Precedes steps) := by
  have h := mirrors_after steps
  refine ⟨h.distinct, fun s out => h.distinct.step_eq_iff, fun name => ⟨h.present name, ?contains,
    h.holds name⟩, (List.length_map _).symm, ?place, h.order⟩
  case contains => rw [contains, get?_isSome_iff, h.present]
  case place =>
    intro name hmem
    obtain ⟨place, hplace⟩ := exists_enters ((h.present name).mp hmem)
    exact ⟨place, hplace, fun other hother => hother.unique hplace⟩

/-- A name that is taken and added again comes last, and a refused step changes nothing. -/
example : (after [.add "b" .null, .add "a" .null, .replace "b" (.boolean true), .take "b",
    .chain "b" .null, .add "a" .null]).names = ["a", "b"] := by
  decide

end Fields

/-- The fields of a node are put into a bag one after the other. -/
theorem Node.after_replaces_fields (node : Node) :
    Fields.after (node.fields.entries.map fun entry => .replace entry.1 entry.2) = node.fields :=
  Fields.after_replaces node.distinct_fields

end OpenScad
