import TreeLayout.Proofs.FileTree.Walk

/-!
# Trees that differ in the contents of files

What the files of a tree hold plays no role for where paths lead, nor for a walk through the tree. So a tree
in which one file holds something else reads the same at every path that does not lead to this file.
-/

namespace TreeLayout

/-- The node with other contents in its files; `way` holds the names up from the node, and `f` is given
those up from a file. -/
def FileTree.mapFiles (f : List String → ByteArray → ByteArray) (way : List String) :
    FileTree → FileTree
  | empty => empty
  | file name contents rest => file name (f (name :: way) contents) (mapFiles f way rest)
  | link name target rest => link name target (mapFiles f way rest)
  | directory name children rest =>
    directory name (mapFiles f (name :: way) children) (mapFiles f way rest)

/-- A node with other contents in its files. -/
def Node.mapFiles (f : List String → ByteArray → ByteArray) (way : List String) : Node → Node
  | file contents => file (f way contents)
  | link target => link target
  | directory children => directory (children.mapFiles f way)

namespace FileTree

/-- The directories above one, nearest first, with other contents in their files. -/
def mapAbove (f : List String → ByteArray → ByteArray) (way : List String) :
    List FileTree → List FileTree
  | [] => []
  | parent :: above => parent.mapFiles f way :: mapAbove f way.tail above

/-- Where following names ends, with other contents in the files. -/
def Stop.mapFiles (f : List String → ByteArray → ByteArray) (way : List String) : Stop → Stop
  | node found => node (found.mapFiles f way)
  | link target above names => link target (mapAbove f way above) names

theorem mapFiles_id (way : List String) (tree : FileTree) :
    tree.mapFiles (fun _ contents => contents) way = tree := by
  induction tree generalizing way with
  | empty => rfl
  | file name contents rest ih => rw [mapFiles, ih]
  | link name target rest ih => rw [mapFiles, ih]
  | directory name children rest ihchildren ih => rw [mapFiles, ihchildren, ih]

section MapFiles

variable (f : List String → ByteArray → ByteArray)

theorem node?_mapFiles (name : String) (way : List String) (tree : FileTree) :
    (tree.mapFiles f way).node? name = (tree.node? name).map (Node.mapFiles f (name :: way)) := by
  induction tree with
  | empty => rfl
  | file other contents rest ih =>
    rw [mapFiles, node?, node?, ih]
    split
    · subst_vars
      rfl
    · rfl
  | link other target rest ih =>
    rw [mapFiles, node?, node?, ih]
    split
    · rfl
    · rfl
  | directory other children rest _ ih =>
    rw [mapFiles, node?, node?, ih]
    split
    · subst_vars
      rfl
    · rfl

theorem walk_mapFiles (exclude : List Glob) (root place : List Char) (way : List String)
    (tree : FileTree) : (tree.mapFiles f way).walk exclude root place = tree.walk exclude root place := by
  induction tree generalizing place way with
  | empty => rfl
  | file name contents rest ih => rw [mapFiles, walk, walk, ih]
  | link name target rest ih => rw [mapFiles, walk, walk, ih]
  | directory name children rest ihchildren ih => rw [mapFiles, walk, walk, ihchildren, ih]

end MapFiles

section Follow

variable {current : FileTree} {above : List FileTree} {name : String} {names : List String}

theorem follow_cons_of_vacant (h : (name = "" || name = ".") = true) :
    follow current above (name :: names) = follow current above names := by
  rw [follow.eq_def]
  exact if_pos h

theorem follow_cons_of_up (hvacant : ¬ (name = "" || name = ".") = true) (hup : name = "..") :
    follow current above (name :: names) =
      match above with
      | [] => follow current [] names
      | parent :: above => follow parent above names := by
  rw [follow.eq_def]
  exact (if_neg hvacant).trans (if_pos hup)

theorem follow_cons_of_name (hvacant : ¬ (name = "" || name = ".") = true) (hup : name ≠ "..") :
    follow current above (name :: names) =
      match current.node? name with
      | none => .error .notFound
      | some (.directory children) => follow children (current :: above) names
      | some (.file contents) =>
        if names = [] then .ok (.node (.file contents)) else .error .notADirectory
      | some (.link target) => .ok (.link target (current :: above) names) := by
  rw [follow.eq_def]
  exact (if_neg hvacant).trans (if_neg hup)

/-- Names lead to the same place whatever the files hold. -/
theorem exists_follow (current : FileTree) (way : List String) (above : List FileTree)
    (names : List String) :
    ∃ result : Except AccessError (Stop × List String), ∀ f,
      follow (current.mapFiles f way) (mapAbove f way.tail above) names =
        result.map fun found => found.1.mapFiles f found.2 := by
  induction names generalizing current way above with
  | nil => exact ⟨.ok (.node (.directory current), way), fun f => rfl⟩
  | cons name names ih =>
    by_cases hvacant : (name = "" || name = ".") = true
    · obtain ⟨result, hresult⟩ := ih current way above
      refine ⟨result, fun f => ?_⟩
      rw [follow_cons_of_vacant hvacant, hresult]
    by_cases hup : name = ".."
    · cases above with
      | nil =>
        obtain ⟨result, hresult⟩ := ih current way []
        refine ⟨result, fun f => ?_⟩
        rw [follow_cons_of_up hvacant hup]
        exact hresult f
      | cons parent above =>
        obtain ⟨result, hresult⟩ := ih parent way.tail above
        refine ⟨result, fun f => ?_⟩
        rw [follow_cons_of_up hvacant hup]
        exact hresult f
    · cases hnode : current.node? name with
      | none =>
        refine ⟨.error .notFound, fun f => ?_⟩
        rw [follow_cons_of_name hvacant hup, node?_mapFiles, hnode]
        rfl
      | some node =>
        cases node with
        | directory children =>
          obtain ⟨result, hresult⟩ := ih children (name :: way) (current :: above)
          refine ⟨result, fun f => ?_⟩
          rw [follow_cons_of_name hvacant hup, node?_mapFiles, hnode]
          exact hresult f
        | link target =>
          refine ⟨.ok (.link target (current :: above) names, way), fun f => ?_⟩
          rw [follow_cons_of_name hvacant hup, node?_mapFiles, hnode]
          rfl
        | file contents =>
          by_cases hend : names = []
          · refine ⟨.ok (.node (.file contents), name :: way), fun f => ?_⟩
            rw [follow_cons_of_name hvacant hup, node?_mapFiles, hnode]
            exact if_pos hend
          · refine ⟨.error .notADirectory, fun f => ?_⟩
            rw [follow_cons_of_name hvacant hup, node?_mapFiles, hnode]
            exact if_neg hend

theorem mapAbove_drop (f : List String → ByteArray → ByteArray) (way : List String)
    (above : List FileTree) (count : Nat) :
    (mapAbove f way above).drop count = mapAbove f (way.drop count) (above.drop count) := by
  induction above generalizing way count with
  | nil => simp [mapAbove]
  | cons parent above ih =>
    cases count with
    | zero => rfl
    | succ count => simp only [mapAbove, List.drop_succ_cons, ih, List.drop_tail]

theorem length_mapAbove (f : List String → ByteArray → ByteArray) (way : List String)
    (above : List FileTree) : (mapAbove f way above).length = above.length := by
  induction above generalizing way with
  | nil => rfl
  | cons parent above ih => simp only [mapAbove, List.length_cons, ih]

/-- Where the target of a link is followed from is the same place whatever the files hold. -/
theorem exists_startOf (target : String) (way : List String) (above : List FileTree) :
    ∃ start, ∀ f, startOf target (mapAbove f way above) = mapAbove f start (startOf target above) := by
  by_cases habsolute : isAbsolute target = true
  · refine ⟨way.drop (above.length - 1), fun f => ?_⟩
    rw [startOf, startOf, if_pos habsolute, if_pos habsolute, length_mapAbove, mapAbove_drop]
  · refine ⟨way, fun f => ?_⟩
    rw [startOf, startOf, if_neg habsolute, if_neg habsolute]

/-- Names and links lead to the same place whatever the files hold. -/
theorem exists_resolveFrom (current : FileTree) (way : List String) (above : List FileTree)
    (names : List String) (links : Nat) :
    ∃ result : Except AccessError (Node × List String), ∀ f,
      resolveFrom (current.mapFiles f way) (mapAbove f way.tail above) names links =
        result.map fun found => found.1.mapFiles f found.2 := by
  induction links generalizing current way above names with
  | zero => exact ⟨.error .tooManyLinks, fun f => rfl⟩
  | succ links ih =>
    obtain ⟨stop, hstop⟩ := exists_follow current way above names
    cases stop with
    | error error =>
      refine ⟨.error error, fun f => ?_⟩
      rw [resolveFrom, hstop]
      rfl
    | ok found =>
      obtain ⟨stop, place⟩ := found
      cases stop with
      | node found =>
        refine ⟨.ok (found, place), fun f => ?_⟩
        rw [resolveFrom, hstop]
        rfl
      | link target nearest left =>
        obtain ⟨start, hstart⟩ := exists_startOf target place nearest
        cases hnearest : startOf target nearest with
        | nil =>
          have hreached (f : List String → ByteArray → ByteArray) :
              startOf target (mapAbove f place nearest) = [] := by
            rw [hstart, hnearest, mapAbove]
          refine ⟨.error .notFound, fun f => ?_⟩
          rw [resolveFrom, hstop]
          simp only [Except.map, Stop.mapFiles, hreached]
        | cons directory higher =>
          have hreached (f : List String → ByteArray → ByteArray) :
              startOf target (mapAbove f place nearest) =
                directory.mapFiles f start :: mapAbove f start.tail higher := by
            rw [hstart, hnearest, mapAbove]
          by_cases hempty : target = ""
          · refine ⟨.error .notFound, fun f => ?_⟩
            rw [resolveFrom, hstop]
            simp only [Except.map, Stop.mapFiles, hreached, if_pos hempty]
          · obtain ⟨result, hresult⟩ := ih directory start higher (namesOf target ++ left)
            refine ⟨result, fun f => ?_⟩
            rw [resolveFrom, hstop, ← hresult f]
            simp only [Except.map, Stop.mapFiles, hreached, if_neg hempty]

end Follow

end FileTree

/-- A file system with other contents in its files; `f` is given the names up from a file. -/
def FileSystem.mapFiles (f : List String → ByteArray → ByteArray) (system : FileSystem) : FileSystem :=
  { system with tree := system.tree.mapFiles f [] }

namespace FileSystem

open FileTree

theorem mapFiles_id (system : FileSystem) : system.mapFiles (fun _ contents => contents) = system := by
  rw [mapFiles, FileTree.mapFiles_id]

/-- A path leads to the same place whatever the files hold. -/
theorem exists_resolve (system : FileSystem) (path : String) :
    ∃ result : Except AccessError (Node × List String), ∀ f,
      (system.mapFiles f).resolve path = result.map fun found => found.1.mapFiles f found.2 := by
  by_cases hempty : path = ""
  · refine ⟨.error .notFound, fun f => ?_⟩
    rw [resolve, if_pos hempty]
    rfl
  · obtain ⟨result, hresult⟩ :=
      exists_resolveFrom system.tree [] [] (system.namesFromTop path) (linkLimit + 1)
    refine ⟨result, fun f => ?_⟩
    rw [resolve, if_neg hempty]
    exact hresult f

/-- A snapshot does not tell what the files hold. -/
theorem capture_mapFiles (f : List String → ByteArray → ByteArray) (system : FileSystem)
    (root : String) (exclude : List String) :
    (system.mapFiles f).capture root exclude = system.capture root exclude := by
  obtain ⟨result, hresult⟩ := exists_resolve system root
  have hself := hresult fun _ contents => contents
  rw [mapFiles_id] at hself
  rw [capture, capture, directory?, directory?, hresult, hself]
  cases result with
  | error error => rfl
  | ok found =>
    obtain ⟨node, way⟩ := found
    cases node with
    | file contents => rfl
    | link target => rfl
    | directory children =>
      simp only [Except.map, Node.mapFiles, FileTree.mapFiles_id, walk_mapFiles]

/-- The path from the top to where names lead up to the top. -/
def upward (way : List String) : String := .ofList (pathOf way.reverse)

/-- The path of the file that a path leads to once all links have been followed: what is read there if
every file holds its own path. -/
def realPath? (system : FileSystem) (path : String) : Option String :=
  ((system.mapFiles fun way _ => (upward way).toUTF8).readText path).toOption

/-- The file system in which the file at a path holds something else. -/
def withContents (system : FileSystem) (place : String) (contents : ByteArray) : FileSystem :=
  system.mapFiles fun way old => if upward way = place then contents else old

/-- The contents of the file that a path leads to. -/
def readBytes (system : FileSystem) (path : String) : Except AccessError ByteArray :=
  match system.resolve path with
  | .ok (.file contents) => .ok contents
  | .ok _ => .error .isADirectory
  | .error error => .error error

/-- The text that bytes spell. -/
def decodeText (contents : ByteArray) : Except AccessError String :=
  match String.fromUTF8? contents with
  | some text => .ok text
  | none => .error .notText

theorem decodeText_toUTF8 (text : String) : decodeText text.toUTF8 = .ok text := by
  rw [decodeText, String.toUTF8_eq_toByteArray, String.fromUTF8?, dif_pos text.isValidUTF8]
  rfl

theorem readText_eq_bind (system : FileSystem) (path : String) :
    system.readText path = system.readBytes path >>= decodeText := by
  rw [readText, readBytes]
  cases system.resolve path with
  | error error => rfl
  | ok node => cases node <;> rfl

theorem file?_eq_toOption (system : FileSystem) (path : String) :
    system.file? path = (system.readBytes path).toOption := by
  rw [file?, readBytes]
  cases system.resolve path with
  | error error => rfl
  | ok node => cases node <;> rfl

section WithContents

variable (system : FileSystem) (path place : String) (contents : ByteArray)

/-- What is read at a path is what the file at one place holds, whatever that is. -/
theorem exists_readBytes :
    ∃ read : Except AccessError (ByteArray × List String), ∀ f,
      (system.mapFiles f).readBytes path = read.map fun found => f found.2 found.1 := by
  obtain ⟨result, hresult⟩ := exists_resolve system path
  cases result with
  | error error =>
    refine ⟨.error error, fun f => ?_⟩
    rw [readBytes, hresult]
    rfl
  | ok found =>
    obtain ⟨node, way⟩ := found
    cases node with
    | file contents =>
      refine ⟨.ok (contents, way), fun f => ?_⟩
      rw [readBytes, hresult]
      rfl
    | link target =>
      refine ⟨.error .isADirectory, fun f => ?_⟩
      rw [readBytes, hresult]
      rfl
    | directory children =>
      refine ⟨.error .isADirectory, fun f => ?_⟩
      rw [readBytes, hresult]
      rfl

/-- A change of one file is seen at the paths that lead to it, and nowhere else. -/
theorem readBytes_withContents :
    (system.withContents place contents).readBytes path =
      if system.realPath? path = some place then .ok contents else system.readBytes path := by
  obtain ⟨read, hread⟩ := exists_readBytes system path
  have hself := hread fun _ contents => contents
  rw [mapFiles_id] at hself
  rw [realPath?, readText_eq_bind, withContents, hread, hread, hself]
  cases read with
  | error error => rfl
  | ok found =>
    obtain ⟨old, way⟩ := found
    have htext : (Except.ok (upward way).toUTF8 >>= decodeText).toOption = some (upward way) := by
      change (decodeText (upward way).toUTF8).toOption = _
      rw [decodeText_toUTF8]
      rfl
    simp only [Except.map, htext, Option.some.injEq]
    split
    · rfl
    · rfl

end WithContents

section Reading

variable {system : FileSystem} {path place : String}

theorem readText_withContents_of_ne (h : system.realPath? path ≠ some place) (contents : ByteArray) :
    (system.withContents place contents).readText path = system.readText path := by
  rw [readText_eq_bind, readText_eq_bind, readBytes_withContents, if_neg h]

theorem file?_withContents_of_ne (h : system.realPath? path ≠ some place) (contents : ByteArray) :
    (system.withContents place contents).file? path = system.file? path := by
  rw [file?_eq_toOption, file?_eq_toOption, readBytes_withContents, if_neg h]

theorem readText_withContents (h : system.realPath? path = some place) (text : String) :
    (system.withContents place text.toUTF8).readText path = .ok text := by
  rw [readText_eq_bind, readBytes_withContents, if_pos h]
  exact decodeText_toUTF8 text

end Reading

end FileSystem

end TreeLayout
