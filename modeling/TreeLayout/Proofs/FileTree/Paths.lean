import TreeLayout.FileTree.Capture
import TreeLayout.Proofs.Text.Segments

/-!
# Paths of a walk

A walk below a root spells the paths of entries with the root in front, joined name by name. Whatever the
root is and however it is spelt, with `.` or `..` in it or with slashes too many, such a path relative to
the root is that of the names (`relativeTo?_placeOf`).
-/

namespace TreeLayout

open Text

namespace Text

section Components

variable {front path name : List Char}

theorem segments_append_cons (front back : List Char) :
    segments (front ++ '/' :: back) = segments front ++ segments back :=
  split_append_cons front back

theorem segments_of_notMem (h : '/' ∉ name) : segments name = [name] := split_of_notMem h

theorem head?_segments_append_cons (front back : List Char) :
    (segments (front ++ '/' :: back)).head? = (segments front).head? := by
  rw [segments_append_cons]
  exact List.head?_append_of_ne_nil _ (split_ne_nil front)

/-- What comes behind a slash plays no role for the meaning of the start. -/
theorem leading_append_cons (front back : List Char) :
    leading (front ++ '/' :: back) = leading (front ++ ['/']) := by
  have hhead : (front ++ '/' :: back).head? = (front ++ ['/']).head? := by
    cases front <;> rfl
  rw [leading, leading, hhead, head?_segments_append_cons, head?_segments_append_cons]

theorem leading_append_slash (hne : path ≠ []) : leading (path ++ ['/']) = leading path := by
  have hhead : (path ++ ['/']).head? = path.head? := List.head?_append_of_ne_nil _ hne
  rw [leading, leading, hhead, head?_segments_append_cons]

/-- What a segment means is added behind a slash. -/
theorem components_append_cons (hslash : '/' ∉ name) : components (front ++ '/' :: name) =
    components (front ++ ['/']) ++ (Component.ofSegment? name).toList := by
  have hnothing : [([] : List Char)].filterMap Component.ofSegment? = [] := rfl
  have hname : [name].filterMap Component.ofSegment? = (Component.ofSegment? name).toList := by
    cases h : Component.ofSegment? name <;> simp [h]
  rw [components, components, leading_append_cons, segments_append_cons, segments_append_cons,
    segments_of_notMem hslash, segments_of_notMem List.not_mem_nil, List.filterMap_append,
    List.filterMap_append, hnothing, hname, List.append_nil, List.append_assoc]

theorem components_append_slash (hne : path ≠ []) : components (path ++ ['/']) = components path := by
  have hnothing : [([] : List Char)].filterMap Component.ofSegment? = [] := rfl
  rw [components, components, leading_append_slash hne, segments_append_cons,
    segments_of_notMem List.not_mem_nil, List.filterMap_append, hnothing, List.append_nil]

/-- A name that is joined to a path is its last component. -/
theorem components_joinPath (hne : name ≠ []) (hslash : '/' ∉ name) (hdot : name ≠ ['.'])
    (hup : name ≠ ['.', '.']) :
    components (joinPath path name) = components path ++ [.name name] := by
  have hname : Component.ofSegment? name = some (.name name) := by
    simp [Component.ofSegment?, hne, hdot, hup]
  have hhead : name.head? ≠ some '/' := fun h => hslash (List.mem_of_mem_head? h)
  rw [joinPath, if_neg hhead]
  by_cases hempty : path = []
  · subst hempty
    have hlone : components name = [.name name] := by
      rw [components, leading, if_neg hhead, segments_of_notMem hslash]
      simp [hname, hdot]
    rw [if_pos (by simp), List.nil_append, hlone]
    rfl
  · cases hends : endsInSlash path with
    | true =>
      obtain ⟨front, rfl⟩ := List.getLast?_eq_some_iff.mp (by simpa [endsInSlash] using hends)
      rw [if_pos (by simp), List.append_assoc, List.singleton_append, components_append_cons hslash,
        hname]
      rfl
    | false =>
      rw [if_neg (by simp [hempty]), components_append_cons hslash, components_append_slash hempty,
        hname]
      rfl

end Components

/-- A list starts with what it is put behind. -/
theorem isPrefixOf?_append {α : Type} [BEq α] [LawfulBEq α] (front back : List α) :
    front.isPrefixOf? (front ++ back) = some back := by
  induction front with
  | nil => cases back <;> rfl
  | cons a front ih => simp [List.isPrefixOf?, ih]

end Text

namespace FileTree

variable {names : List String} {name : String}

/-- The path of names, with a slash between neighbours. -/
def pathOf (names : List String) : List Char := join '/' (names.map String.toList)

/-- The path at which a walk below a root comes to names. -/
def placeOf (root : List Char) (names : List String) : List Char :=
  names.foldl (fun directory name => joinPath directory name.toList) root

theorem placeOf_append_singleton (root : List Char) (names : List String) (name : String) :
    placeOf root (names ++ [name]) = joinPath (placeOf root names) name.toList := by
  rw [placeOf, List.foldl_append]
  rfl

theorem pathOf_ne_nil (hne : names ≠ []) (h : ∀ name ∈ names, IsName name) :
    pathOf names ≠ [] := by
  cases names with
  | nil => exact absurd rfl hne
  | cons first names =>
    have hfirst : first.toList ≠ [] := by simpa using (h first List.mem_cons_self).1
    cases names with
    | nil => simpa [pathOf, join] using hfirst
    | cons next names => simp [pathOf, join]

/-- The segments of the path of names are the names. -/
theorem segments_pathOf (hne : names ≠ []) (h : ∀ name ∈ names, IsName name) :
    segments (pathOf names) = names.map String.toList := by
  apply split_join
  · simpa using hne
  · intro piece hpiece
    obtain ⟨name, hname, rfl⟩ := List.mem_map.mp hpiece
    exact (h name hname).2.1

theorem nil_notMem_segments_pathOf (hne : names ≠ []) (h : ∀ name ∈ names, IsName name) :
    [] ∉ segments (pathOf names) := by
  rw [segments_pathOf hne h]
  intro hnil
  obtain ⟨name, hname, hempty⟩ := List.mem_map.mp hnil
  exact (h name hname).1 (by simpa using hempty)

/-- The components of a place are those of the root, and then the names. -/
theorem components_placeOf (root : List Char) (h : ∀ name ∈ names, IsName name) :
    components (placeOf root names) =
      components root ++ names.map fun name => .name name.toList := by
  induction names generalizing root with
  | nil => simp [placeOf]
  | cons first names ih =>
    obtain ⟨⟨hne, hslash, hdot, hup⟩, hrest⟩ := List.forall_mem_cons.mp h
    have hcomponents : components (joinPath root first.toList) =
        components root ++ [.name first.toList] :=
      components_joinPath (by simpa using hne) hslash (fun h => hdot (String.toList_inj.mp h))
        (fun h => hup (String.toList_inj.mp h))
    rw [placeOf, List.foldl_cons, ← placeOf, ih _ hrest, hcomponents, List.append_assoc]
    rfl

/-- Relative to the root, a place is the path of its names. -/
theorem relativeTo?_placeOf (root : List Char) (h : ∀ name ∈ names, IsName name) :
    relativeTo? root (placeOf root names) = some (pathOf names) := by
  have hnames : (names.map fun name => Component.name name.toList).filterMap Component.name? =
      names.map String.toList := by
    simp [List.filterMap_map, Function.comp_def, Component.name?]
  rw [relativeTo?, components_placeOf root h, isPrefixOf?_append, Option.map_some, hnames, pathOf]

end FileTree

end TreeLayout
