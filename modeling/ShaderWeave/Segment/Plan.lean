import ShaderWeave.Segment.Inventory
import ShaderWeave.Text.Space

/-!
# Plan of a pass

A plan holds the segments of an inventory in the order in which a pass emits
them: by placeholder name, scope and priority, and in the order of registration
where these agree. It is made from the sorted segments in two steps. They are
entered one after the other into a map from placeholders to segments, and the
names that lines are compared with are read off the keys of the map.

## Main definitions

- `Plan`: the groups of segments, one for each placeholder, and the names.
- `Plan.arrange`: a stable sort.
- `Plan.gather`: sorted segments as groups.
- `Plan.nameList`: the names of the groups, without repetitions, longest first.
- `Inventory.plan`: the plan of the segments registered now.
- `Plan.segmentsFor`: what is emitted for a placeholder name.
- `Plan.placeholderAt?`: the placeholder that a line names.

## Design notes

The sort inserts each element into those behind it, already sorted. An element
passes exactly those that must come before it, so it stays in front of its
equals and their order is kept.

A name is dropped from the list of names only if it stands right behind an equal
one. Placeholders of one name are neighbours in the map, as its keys are in
order, so no name is left twice.
-/

namespace ShaderWeave

/-! ## Groups -/

/-- The segments of one placeholder. -/
structure Group where
  placeholder : Placeholder
  segments : List Segment
  segments_ne_nil : segments ≠ []
  placeholder_eq : ∀ s ∈ segments, s.placeholder = placeholder
deriving DecidableEq

namespace Group

/-- The group of a segment whose placeholder had none so far. -/
def single (s : Segment) : Group where
  placeholder := s.placeholder
  segments := [s]
  segments_ne_nil := List.cons_ne_nil s []
  placeholder_eq := by simp

/-- The group with one more segment behind the others. -/
def push (g : Group) (s : Segment) (h : s.placeholder = g.placeholder) : Group where
  placeholder := g.placeholder
  segments := g.segments ++ [s]
  segments_ne_nil := by simp
  placeholder_eq := by
    intro t ht
    rcases List.mem_append.mp ht with ht | ht
    · exact g.placeholder_eq t ht
    · rw [List.mem_singleton.mp ht, h]

/-- Either all segments of a group are for a name or none is. -/
theorem filter_name (g : Group) (name : String) :
    g.segments.filter (·.placeholder.name == name) =
      if g.placeholder.name == name then g.segments else [] := by
  split
  · next h =>
    rw [List.filter_eq_self]
    intro s hs
    rwa [g.placeholder_eq s hs]
  · next h =>
    rw [List.filter_eq_nil_iff]
    intro s hs
    rwa [g.placeholder_eq s hs]

end Group

namespace Plan

/-! ## Sorting -/

section Sorting

variable {α : Type} (before : α → α → Prop) [DecidableRel before]

/-- Put an element in front of the first that need not come before it. -/
def place (x : α) : List α → List α
  | [] => [x]
  | y :: ys => if before y x then y :: place x ys else x :: y :: ys

/-- The elements in order, equals as they stood. -/
def arrange : List α → List α
  | [] => []
  | x :: xs => place before x (arrange xs)

/-- Placing an element neither loses nor repeats one. -/
theorem place_perm (x : α) (ys : List α) : (place before x ys).Perm (x :: ys) := by
  induction ys with
  | nil => exact List.Perm.refl _
  | cons y ys ih =>
    unfold place
    split
    · exact (ih.cons y).trans (List.Perm.swap x y ys)
    · exact List.Perm.refl _

/-- Sorting keeps exactly the given elements. -/
theorem arrange_perm (xs : List α) : (arrange before xs).Perm xs := by
  induction xs with
  | nil => exact List.Perm.refl _
  | cons x xs ih => exact (place_perm before x (arrange before xs)).trans (ih.cons x)

end Sorting

/-! ## Grouping -/

/-- Enter a segment into a map whose keys are in order: behind the segments that
its placeholder has already, or as a new group where the placeholder belongs. -/
def enter (s : Segment) : List Group → List Group
  | [] => [.single s]
  | g :: gs =>
    if h : s.placeholder = g.placeholder then g.push s h :: gs
    else if s.placeholder.Before g.placeholder then .single s :: g :: gs
    else g :: enter s gs

/-- The groups of the segments, entered in the order given. -/
def gather (segments : List Segment) : List Group :=
  segments.foldl (fun gs s => enter s gs) []

/-- Drop every name that stands right behind an equal one. -/
def collapse : List String → List String
  | [] => []
  | name :: names =>
    if names.head? = some name then collapse names else name :: collapse names

/-- The order in which names are tried: longest first, in bytes, and by code
point where the lengths agree. -/
def TriedBefore (name name' : String) : Prop :=
  name'.utf8ByteSize < name.utf8ByteSize ∨
    name.utf8ByteSize = name'.utf8ByteSize ∧ name < name'

instance : DecidableRel TriedBefore := fun name name' => by
  unfold TriedBefore
  infer_instance

/-- The names that the groups are for, in the order in which they are tried. -/
def nameList (groups : List Group) : List String :=
  arrange TriedBefore (collapse (groups.map (·.placeholder.name)))

theorem mem_collapse {name : String} {names : List String} :
    name ∈ collapse names ↔ name ∈ names := by
  induction names with
  | nil => exact Iff.rfl
  | cons first others ih =>
    unfold collapse
    split
    · next hrepeated =>
      have hfirst : first ∈ others := List.mem_of_head? hrepeated
      simp only [ih, List.mem_cons, iff_or_self]
      rintro rfl
      exact hfirst
    · simp only [List.mem_cons, ih]

theorem mem_nameList {name : String} {groups : List Group} :
    name ∈ nameList groups ↔ ∃ g ∈ groups, g.placeholder.name = name := by
  simp only [nameList, (arrange_perm _ _).mem_iff, mem_collapse, List.mem_map]

end Plan

/-! ## Plans -/

/-- The segments of a pass, one group for each placeholder, and the names that
lines are compared with. -/
structure Plan where
  groups : List Group
  names : List String
  mem_names : ∀ name, name ∈ names ↔ ∃ g ∈ groups, g.placeholder.name = name
deriving DecidableEq

namespace Plan

/-- The plan of the given groups. -/
def ofGroups (groups : List Group) : Plan where
  groups := groups
  names := nameList groups
  mem_names _ := mem_nameList

/-- The plan without segments. -/
def empty : Plan :=
  ofGroups []

/-- The plan of the given segments, first registered first. -/
def ofList (segments : List Segment) : Plan :=
  ofGroups (gather (arrange Segment.Before segments))

def isEmpty (plan : Plan) : Bool :=
  plan.groups.isEmpty

/-- All segments of the plan, group by group. -/
def segments (plan : Plan) : List Segment :=
  plan.groups.flatMap (·.segments)

/-- The segments for a placeholder name: those of its scopes, one scope after the
other. -/
def segmentsFor (plan : Plan) (name : String) : List Segment :=
  (plan.groups.filter (·.placeholder.name == name)).flatMap (·.segments)

/-- The placeholder name that the first line of a text consists of, white space
at the line's end apart. An empty line names no placeholder. -/
def placeholderAt? (plan : Plan) (text : List Char) : Option String :=
  if plan.names.isEmpty then none
  else
    let line := String.ofList (Text.trimEnd (Text.firstLine text))
    plan.names.find? fun name => name ≠ "" && line == name

/-! ## Plans seen as one list of segments -/

theorem segmentsFor_eq (plan : Plan) (name : String) :
    plan.segmentsFor name = plan.segments.filter (·.placeholder.name == name) := by
  rw [segmentsFor, segments]
  induction plan.groups with
  | nil => rfl
  | cons g gs ih =>
    rw [List.flatMap_cons, List.filter_append, g.filter_name, ← ih, List.filter_cons]
    by_cases h : g.placeholder.name == name <;> simp [h]

theorem mem_segments_of_mem_segmentsFor {plan : Plan} {name : String} {s : Segment}
    (h : s ∈ plan.segmentsFor name) : s ∈ plan.segments := by
  rw [segmentsFor_eq] at h
  exact (List.mem_filter.mp h).1

/-- The names are those that the plan has segments for. -/
theorem any_segments_iff {plan : Plan} {name : String} :
    plan.segments.any (·.placeholder.name == name) ↔ name ∈ plan.names := by
  simp only [plan.mem_names, segments, List.any_eq_true, List.mem_flatMap, beq_iff_eq]
  constructor
  · rintro ⟨s, ⟨g, hg, hs⟩, rfl⟩
    exact ⟨g, hg, congrArg Placeholder.name (g.placeholder_eq s hs).symm⟩
  · rintro ⟨g, hg, rfl⟩
    obtain ⟨s, hs⟩ := List.exists_mem_of_ne_nil g.segments g.segments_ne_nil
    exact ⟨s, ⟨g, hg, hs⟩, congrArg Placeholder.name (g.placeholder_eq s hs)⟩

/-- The names are compared with one line, so the order in which they are tried does not
matter. -/
theorem placeholderAt?_eq (plan : Plan) (text : List Char) :
    plan.placeholderAt? text =
      if String.ofList (Text.trimEnd (Text.firstLine text)) ≠ "" ∧
          plan.segments.any
            (·.placeholder.name == String.ofList (Text.trimEnd (Text.firstLine text))) then
        some (String.ofList (Text.trimEnd (Text.firstLine text)))
      else none := by
  simp only [placeholderAt?, any_segments_iff]
  generalize String.ofList (Text.trimEnd (Text.firstLine text)) = line
  split
  · next hempty =>
    rw [List.isEmpty_iff.mp hempty]
    simp
  · split
    · next hnamed =>
      obtain ⟨found, hfound⟩ := Option.isSome_iff_exists.mp
        (List.find?_isSome.mpr ⟨line, hnamed.2, by simp [hnamed.1]⟩ :
          (plan.names.find? fun name => name ≠ "" && line == name).isSome)
      have hequal := List.find?_some hfound
      simp only [Bool.and_eq_true, beq_iff_eq] at hequal
      rw [hfound, hequal.2]
    · next hunnamed =>
      rw [List.find?_eq_none]
      intro name hname hequal
      simp only [Bool.and_eq_true, beq_iff_eq, decide_eq_true_eq] at hequal
      obtain ⟨hne, rfl⟩ := hequal
      exact hunnamed ⟨hne, hname⟩

end Plan

def Inventory.plan (inv : Inventory) : Plan :=
  Plan.ofList inv.segments

end ShaderWeave
