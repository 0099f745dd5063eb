import Stencil.Telemetry.History

/-!
What a counter tells of missing names. It counts the first different names that were seen since it
was last cleared, as many as its limit allows, and lists them in the order in which they were first
seen. Of each of them it tells how often it was seen in all, and what was said the last time. A name
beyond those changes nothing.
-/

namespace Stencil

/-- A reference to a missing name, with what was said of it. -/
structure Sighting where
  name : String
  message : String
  location : String
  deriving DecidableEq, Repr

namespace Counter

inductive Change
  | add (s : Sighting)
  | clear

def apply (c : Counter) : Change → Counter
  | .add s => c.add s.name s.message s.location
  | .clear => c.clear

def after (limit : Nat) (changes : List Change) : Counter := changes.foldl apply ⟨limit, []⟩

def Change.extend (seen : List Sighting) : Change → List Sighting
  | .add s => seen ++ [s]
  | .clear => []

def sinceClear (changes : List Change) : List Sighting := changes.foldl Change.extend []

@[simp] theorem after_concat (limit : Nat) (changes : List Change) (c : Change) :
    after limit (changes ++ [c]) = (after limit changes).apply c := by
  simp [after]

@[simp] theorem sinceClear_concat (changes : List Change) (c : Change) :
    sinceClear (changes ++ [c]) = c.extend (sinceClear changes) := by
  simp [sinceClear]

/-! The names that are counted. -/

def tracked (limit : Nat) (seen : List Sighting) : List String :=
  (seen.map Sighting.name).eraseDups.take limit

theorem eraseDups_concat (names : List String) (name : String) :
    (names ++ [name]).eraseDups =
      if name ∈ names then names.eraseDups else names.eraseDups ++ [name] := by
  rw [List.eraseDups_append]
  split
  · next known => simp [List.removeAll, known]
  · next new => simp [List.removeAll, new, List.eraseDups_cons]

section Tracked

variable {limit : Nat} {seen : List Sighting} {s : Sighting}

theorem tracked_concat_of_mem (known : s.name ∈ tracked limit seen) :
    tracked limit (seen ++ [s]) = tracked limit seen := by
  have old := List.mem_eraseDups.mp (List.mem_of_mem_take known)
  rw [tracked, List.map_append, List.map_singleton, eraseDups_concat, if_pos old, tracked]

theorem tracked_concat_of_full (full : limit ≤ (tracked limit seen).length) :
    tracked limit (seen ++ [s]) = tracked limit seen := by
  rw [tracked, List.length_take] at full
  rw [tracked, List.map_append, List.map_singleton, eraseDups_concat, tracked]
  split
  · rfl
  · exact List.take_append_of_le_length (by omega)

theorem tracked_of_room (room : (tracked limit seen).length < limit) :
    tracked limit seen = (seen.map Sighting.name).eraseDups := by
  rw [tracked, List.length_take] at room
  exact List.take_of_length_le (by omega)

theorem new_of_room (unknown : s.name ∉ tracked limit seen)
    (room : (tracked limit seen).length < limit) : s.name ∉ seen.map Sighting.name := by
  rwa [tracked_of_room room, List.mem_eraseDups] at unknown

theorem tracked_concat_of_room (unknown : s.name ∉ tracked limit seen)
    (room : (tracked limit seen).length < limit) :
    tracked limit (seen ++ [s]) = tracked limit seen ++ [s.name] := by
  have all := tracked_of_room room
  rw [tracked, List.map_append, List.map_singleton, eraseDups_concat,
    if_neg (new_of_room unknown room), ← all]
  exact List.take_of_length_le (by rwa [List.length_append, List.length_singleton])

theorem tracked_concat_of_notMem (beyond : s.name ∉ tracked limit (seen ++ [s])) :
    s.name ∉ tracked limit seen ∧ limit ≤ (tracked limit seen).length := by
  have unknown : s.name ∉ tracked limit seen :=
    fun known => beyond (tracked_concat_of_mem known ▸ known)
  refine ⟨unknown, Nat.le_of_not_lt fun room => beyond ?_⟩
  rw [tracked_concat_of_room unknown room]
  exact List.mem_concat_self

end Tracked

/-! What is told of a name. -/

def sightings (seen : List Sighting) (name : String) : List Sighting :=
  seen.filter fun s => s.name == name

/-- How often a name was seen, and what was said of it the last time. -/
def summary? (seen : List Sighting) (name : String) : Option Missed :=
  (sightings seen name).getLast?.map fun last =>
    ⟨(sightings seen name).length, last.message, last.location⟩

theorem summary?_concat_self (seen : List Sighting) (s : Sighting) :
    summary? (seen ++ [s]) s.name =
      some ⟨(sightings seen s.name).length + 1, s.message, s.location⟩ := by
  simp [summary?, sightings]

theorem summary?_concat_of_ne (seen : List Sighting) {s : Sighting} {name : String}
    (other : s.name ≠ name) : summary? (seen ++ [s]) name = summary? seen name := by
  simp [summary?, sightings, other]

theorem count_of_summary? {seen : List Sighting} {name : String} {m : Missed}
    (told : summary? seen name = some m) : m.count = (sightings seen name).length := by
  obtain ⟨last, -, rfl⟩ := Option.map_eq_some_iff.mp told
  rfl

theorem sightings_of_notMem {seen : List Sighting} {name : String}
    (new : name ∉ seen.map Sighting.name) : sightings seen name = [] := by
  rw [sightings, List.filter_eq_nil_iff]
  intro s member same
  exact new (List.mem_map.mpr ⟨s, member, eq_of_beq same⟩)

/-- Whether a counter tells what there is to tell of what was seen since it was cleared. -/
structure Counts (limit : Nat) (seen : List Sighting) (c : Counter) : Prop where
  sameLimit : c.limit = limit
  names : c.entries.map (·.1) = tracked limit seen
  told : ∀ name, c.entries.lookup name =
    if name ∈ tracked limit seen then summary? seen name else none

namespace Counts

variable {limit : Nat} {seen : List Sighting} {c : Counter}

theorem length (counts : Counts limit seen c) :
    c.entries.length = (tracked limit seen).length := by
  rw [← counts.names, List.length_map]

theorem lookup_eq_none (counts : Counts limit seen c) {name : String}
    (unknown : name ∉ tracked limit seen) : c.entries.lookup name = none := by
  rw [counts.told, if_neg unknown]

theorem lookup_of_mem (counts : Counts limit seen c) {name : String}
    (known : name ∈ tracked limit seen) :
    ∃ m, c.entries.lookup name = some m ∧ m.count = (sightings seen name).length := by
  have listed : c.entries.lookup name ≠ none :=
    fun missing => lookup_eq_none_iff_names.mp missing (counts.names ▸ known)
  obtain ⟨m, found⟩ := Option.ne_none_iff_exists'.mp listed
  have told := counts.told name
  rw [found, if_pos known] at told
  exact ⟨m, found, count_of_summary? told.symm⟩

theorem add_of_mem (counts : Counts limit seen c) {s : Sighting}
    (known : s.name ∈ tracked limit seen) :
    Counts limit (seen ++ [s]) (c.add s.name s.message s.location) := by
  obtain ⟨m, found, count⟩ := counts.lookup_of_mem known
  have listed : s.name ∈ c.entries.map (·.1) := mem_names_of_lookup found
  rw [add, found]
  refine ⟨counts.sameLimit, ?_, fun name => ?_⟩
  · rw [tracked_concat_of_mem known, ← counts.names]
    exact setNamed_names _ listed
  · rw [tracked_concat_of_mem known, lookup_setNamed]
    split
    · next same =>
        rw [same, if_pos known, summary?_concat_self, count]
    · next other =>
        rw [counts.told, summary?_concat_of_ne seen (Ne.symm other)]

theorem add_of_room (counts : Counts limit seen c) {s : Sighting}
    (unknown : s.name ∉ tracked limit seen) (room : (tracked limit seen).length < limit) :
    Counts limit (seen ++ [s]) (c.add s.name s.message s.location) := by
  have free : s.name ∉ c.entries.map (·.1) := counts.names ▸ unknown
  have space : ¬ c.limit ≤ c.entries.length := by
    rw [counts.sameLimit, counts.length]
    exact Nat.not_le_of_lt room
  have once := summary?_concat_self seen s
  rw [sightings_of_notMem (new_of_room unknown room)] at once
  rw [add, counts.lookup_eq_none unknown, if_neg space]
  refine ⟨counts.sameLimit, ?_, fun name => ?_⟩
  · rw [tracked_concat_of_room unknown room, ← counts.names, setNamed_of_notMem _ free,
      List.map_append, List.map_singleton]
  · rw [tracked_concat_of_room unknown room, lookup_setNamed]
    split
    · next same =>
        rw [same, if_pos List.mem_concat_self, once]
        rfl
    · next other =>
        rw [counts.told, summary?_concat_of_ne seen (Ne.symm other)]
        simp [other]

theorem add_of_full (counts : Counts limit seen c) {s : Sighting}
    (unknown : s.name ∉ tracked limit seen) (full : limit ≤ (tracked limit seen).length) :
    c.add s.name s.message s.location = c := by
  rw [add, counts.lookup_eq_none unknown]
  exact if_pos (by rwa [counts.sameLimit, counts.length])

theorem concat_of_full (counts : Counts limit seen c) {s : Sighting}
    (unknown : s.name ∉ tracked limit seen) (full : limit ≤ (tracked limit seen).length) :
    Counts limit (seen ++ [s]) c := by
  refine ⟨counts.sameLimit, ?_, fun name => ?_⟩
  · rw [tracked_concat_of_full full, counts.names]
  · rw [tracked_concat_of_full full, counts.told]
    split
    · next known =>
        have other : s.name ≠ name := fun same => unknown (same ▸ known)
        rw [summary?_concat_of_ne seen other]
    · rfl

theorem add (counts : Counts limit seen c) (s : Sighting) :
    Counts limit (seen ++ [s]) (c.add s.name s.message s.location) := by
  by_cases known : s.name ∈ tracked limit seen
  · exact counts.add_of_mem known
  · rcases Nat.lt_or_ge (tracked limit seen).length limit with room | full
    · exact counts.add_of_room known room
    · rw [counts.add_of_full known full]
      exact counts.concat_of_full known full

theorem clear (counts : Counts limit seen c) : Counts limit [] c.clear :=
  ⟨counts.sameLimit, by simp [Counter.clear, tracked], fun _ => by simp [Counter.clear, tracked]⟩

theorem apply (counts : Counts limit seen c) (change : Change) :
    Counts limit (change.extend seen) (c.apply change) := by
  cases change with
  | add s => exact counts.add s
  | clear => exact counts.clear

theorem foldl (counts : Counts limit seen c) (changes : List Change) :
    Counts limit (changes.foldl Change.extend seen) (changes.foldl Counter.apply c) := by
  induction changes generalizing seen c with
  | nil => exact counts
  | cons change rest ih => exact ih (counts.apply change)

theorem after (limit : Nat) (changes : List Change) :
    Counts limit (sinceClear changes) (after limit changes) := by
  have start : Counts limit [] ⟨limit, []⟩ := ⟨rfl, by simp [tracked], fun _ => by simp [tracked]⟩
  exact start.foldl changes

end Counts

/-- After any changes a counter lists the first names that were seen since it was cleared, as many
as its limit allows and in the order in which they were first seen. Of each of them, and of no other
name, it tells how often it was seen and what was said the last time. A further name that is not
among them leaves the counter as it was. -/
theorem counts_firstSeen (limit : Nat) (changes : List Change) :
    (after limit changes).entries.map (·.1) = tracked limit (sinceClear changes) ∧
    (∀ name, (after limit changes).entries.lookup name =
      if name ∈ tracked limit (sinceClear changes) then summary? (sinceClear changes) name
      else none) ∧
    ∀ s, s.name ∉ tracked limit (sinceClear changes ++ [s]) →
      after limit (changes ++ [.add s]) = after limit changes := by
  have counts := Counts.after limit changes
  refine ⟨counts.names, counts.told, fun s beyond => ?_⟩
  obtain ⟨unknown, full⟩ := tracked_concat_of_notMem beyond
  rw [after_concat]
  exact counts.add_of_full unknown full

theorem counts_firstSeen_full :
    "b" ∉ tracked 1 [⟨"a", "no a", "1"⟩, ⟨"b", "no b", "2"⟩] ∧
    after 1 [.add ⟨"a", "no a", "1"⟩, .add ⟨"b", "no b", "2"⟩] =
      after 1 [.add ⟨"a", "no a", "1"⟩] ∧
    (after 1 [.add ⟨"a", "no a", "1"⟩]).entries.lookup "a" = some ⟨1, "no a", "1"⟩ := by
  obtain ⟨-, told, beyond⟩ := counts_firstSeen 1 [.add ⟨"a", "no a", "1"⟩]
  have other : "b" ∉ tracked 1 [⟨"a", "no a", "1"⟩, ⟨"b", "no b", "2"⟩] := by decide
  exact ⟨other, beyond ⟨"b", "no b", "2"⟩ other, told "a"⟩

end Counter

end Stencil
