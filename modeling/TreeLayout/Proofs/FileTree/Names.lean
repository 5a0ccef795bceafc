import TreeLayout.FileTree.Build
import TreeLayout.Proofs.Text.Segments

/-!
# Names in a file tree

Trees that are built from written paths have only names of entries, and so has every directory that a
path leads to, whatever links lie on the way.
-/

namespace TreeLayout

namespace FileTree

/-- Whether all names in a tree are names of entries. -/
def HasNames : FileTree → Prop
  | empty => True
  | file name _ rest => IsName name ∧ rest.HasNames
  | link name _ rest => IsName name ∧ rest.HasNames
  | directory name children rest => IsName name ∧ children.HasNames ∧ rest.HasNames

/-- Whether all names below a node are names of entries. -/
def NodeHasNames : Node → Prop
  | .file _ => True
  | .link _ => True
  | .directory children => children.HasNames

theorem nodeHasNames_of_node? {tree : FileTree} {name : String} {node : Node}
    (h : tree.HasNames) (hnode : tree.node? name = some node) : NodeHasNames node := by
  induction tree with
  | empty => simp [node?] at hnode
  | file other contents rest ih =>
    rw [node?] at hnode
    split at hnode
    · cases hnode
      exact trivial
    · exact ih h.2 hnode
  | link other target rest ih =>
    rw [node?] at hnode
    split at hnode
    · cases hnode
      exact trivial
    · exact ih h.2 hnode
  | directory other children rest _ ih =>
    rw [node?] at hnode
    split at hnode
    · cases hnode
      exact h.2.1
    · exact ih h.2.2 hnode

section Follow

variable {current : FileTree} {above : List FileTree} {names : List String}

/-- Where following names ends, there are only names below the node or above the link. -/
def Stop.HasNames : Stop → Prop
  | .node found => NodeHasNames found
  | .link _ above _ => ∀ tree ∈ above, tree.HasNames

theorem hasNames_follow {stop : Stop} (hcurrent : current.HasNames)
    (habove : ∀ tree ∈ above, tree.HasNames) (h : follow current above names = .ok stop) :
    stop.HasNames := by
  induction names generalizing current above with
  | nil =>
    cases h
    exact hcurrent
  | cons name names ih =>
    rw [follow.eq_def] at h
    dsimp only at h
    split at h
    · exact ih hcurrent habove h
    · split at h
      · cases above with
        | nil => exact ih hcurrent habove h
        | cons parent above =>
          apply ih (habove parent List.mem_cons_self) _ h
          intro tree htree
          exact habove tree (List.mem_cons_of_mem parent htree)
      · have hpath : ∀ tree ∈ current :: above, tree.HasNames := by
          intro tree htree
          rcases List.mem_cons.mp htree with rfl | htree
          · exact hcurrent
          · exact habove tree htree
        cases hnode : current.node? name with
        | none => simp [hnode] at h
        | some node =>
          have hnames := nodeHasNames_of_node? hcurrent hnode
          rw [hnode] at h
          cases node with
          | directory children => exact ih hnames hpath h
          | link target =>
            cases h
            exact hpath
          | file contents =>
            dsimp only at h
            split at h
            · cases h
              exact trivial
            · simp at h

/-- The target of a link is followed from a directory above the link. -/
theorem mem_of_mem_startOf {target : String} {tree : FileTree} (h : tree ∈ startOf target above) :
    tree ∈ above := by
  rw [startOf] at h
  split at h
  · exact List.mem_of_mem_drop h
  · exact h

/-- Links keep to the tree, so a node that they lead to has only names below it. -/
theorem nodeHasNames_resolveFrom {links : Nat} {node : Node} (hcurrent : current.HasNames)
    (habove : ∀ tree ∈ above, tree.HasNames)
    (h : resolveFrom current above names links = .ok node) : NodeHasNames node := by
  induction links generalizing current above names with
  | zero => simp [resolveFrom] at h
  | succ links ih =>
    rw [resolveFrom] at h
    cases hfollow : follow current above names with
    | error error => simp [hfollow] at h
    | ok stop =>
      have hstop := hasNames_follow hcurrent habove hfollow
      rw [hfollow] at h
      cases stop with
      | node found =>
        cases h
        exact hstop
      | link target nearest names =>
        have hstart : ∀ tree ∈ startOf target nearest, tree.HasNames := fun tree htree =>
          hstop tree (mem_of_mem_startOf htree)
        dsimp only at h
        cases hnearest : startOf target nearest with
        | nil => simp [hnearest] at h
        | cons directory nearest =>
          rw [hnearest] at h hstart
          dsimp only at h
          split at h
          · simp at h
          · apply ih (hstart directory List.mem_cons_self) _ h
            intro tree htree
            exact hstart tree (List.mem_cons_of_mem directory htree)

end Follow

/-- A directory that a path leads to has only names in it. -/
theorem hasNames_of_directory? {system : FileSystem} {top : FileTree} {path : String}
    (h : system.tree.HasNames) (hpath : system.directory? path = some top) : top.HasNames := by
  rw [FileSystem.directory?] at hpath
  split at hpath
  · rename_i children hresolve
    cases hpath
    rw [FileSystem.resolve] at hresolve
    split at hresolve
    · simp at hresolve
    · exact nodeHasNames_resolveFrom h (by simp) hresolve
  · simp at hpath

section Build

variable {tree : FileTree} {node : Node}

theorem hasNames_remove (name : String) (h : tree.HasNames) : (tree.remove name).HasNames := by
  induction tree with
  | empty => exact trivial
  | file other contents rest ih =>
    rw [remove]
    split
    · exact ih h.2
    · exact ⟨h.1, ih h.2⟩
  | link other target rest ih =>
    rw [remove]
    split
    · exact ih h.2
    · exact ⟨h.1, ih h.2⟩
  | directory other children rest _ ih =>
    rw [remove]
    split
    · exact ih h.2.2
    · exact ⟨h.1, h.2.1, ih h.2.2⟩

theorem hasNames_childOf (name : String) (h : tree.HasNames) : (childOf name tree).HasNames := by
  rw [childOf]
  split
  · rename_i children hnode
    exact nodeHasNames_of_node? h hnode
  · exact trivial

/-- A node at the end of names leaves a tree with only names. -/
theorem hasNames_insert {names : List String} (hnames : ∀ name ∈ names, IsName name)
    (h : tree.HasNames) : (insert node names tree).HasNames := by
  induction names generalizing tree with
  | nil => exact h
  | cons name names ih =>
    have hname := hnames name List.mem_cons_self
    have hremove := hasNames_remove name h
    have hchild := hasNames_childOf name h
    cases names with
    | nil =>
      cases node with
      | file contents => exact ⟨hname, hremove⟩
      | link target => exact ⟨hname, hremove⟩
      | directory children => exact ⟨hname, hchild, hremove⟩
    | cons next names =>
      have hrest : ∀ name ∈ next :: names, IsName name := by
        intro other hother
        exact hnames other (List.mem_cons_of_mem name hother)
      exact ⟨hname, ih hrest hchild, hremove⟩

/-- A node at a written path leaves a tree with only names. -/
theorem hasNames_insertAt (path : String) (h : tree.HasNames) :
    (tree.insertAt node path).HasNames := by
  apply hasNames_insert _ h
  intro name hname
  simpa using (List.mem_filter.mp hname).2

theorem hasNames_foldl {α : Type} {add : FileTree → α → FileTree}
    (hadd : ∀ tree : FileTree, tree.HasNames → ∀ item, (add tree item).HasNames) (items : List α)
    (h : tree.HasNames) : (items.foldl add tree).HasNames := by
  induction items generalizing tree with
  | nil => exact h
  | cons item items ih => exact ih (hadd tree h item)

/-- A tree that is built from written paths has only names. -/
theorem hasNames_build (paths : List String) (files : List (String × ByteArray))
    (links : List (String × String)) : (build paths files links).HasNames := by
  have hfile (tree : FileTree) (h : tree.HasNames) (item : String × ByteArray) :
      (tree.insertAt (.file item.2) item.1).HasNames := hasNames_insertAt item.1 h
  have hlink (tree : FileTree) (h : tree.HasNames) (item : String × String) :
      (tree.insertAt (.link item.2) item.1).HasNames := hasNames_insertAt item.1 h
  have hpath (tree : FileTree) (h : tree.HasNames) (path : String) :
      (tree.insertPath path).HasNames := by
    rw [insertPath]
    split
    · exact hasNames_insertAt path h
    · exact hasNames_insertAt path h
  rw [build]
  apply hasNames_foldl hlink
  apply hasNames_foldl hfile
  apply hasNames_foldl hpath
  exact trivial

end Build

end FileTree

end TreeLayout
