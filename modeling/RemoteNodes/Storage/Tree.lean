import RemoteNodes.Fault
import RemoteNodes.Keyed
import RemoteNodes.Text.Lines
/-!
Files and folders as a value, and paths to them. Paths are texts with slashes; one that does not
begin with a slash starts at the current folder.

* `Path.resolve`: the absolute path that a path spells.
* `FileTree.locate`: where a path leads. All but the last name have to be those of folders, also
  before two dots that lead back.
* `FileTree.read?`, `FileTree.write`: the text of a file.
* `FileTree.makeFolder`: a folder with all that are missing on the way to it.
* `FileTree.walk`: the files inside a folder, at any depth.
* `FileTree.read?_of_write`: what is written is read back, its lines ended by line feeds.
-/

namespace RemoteNodes

namespace Path

/-- What stands between the slashes of a path. -/
def split (path : String) : List String := (path.toList.splitOn '/').map String.ofList

/-- The names in a path. -/
def parts (path : String) : List String :=
  (split path).filter fun part => part != "" && part != "."

/-- The names of an absolute path after one more name: two dots lead back. -/
def step (names : List String) (name : String) : List String :=
  if name == ".." then names.dropLast else names ++ [name]

/-- The absolute path with these names. -/
def ofNames (names : List String) : String := "/" ++ "/".intercalate names

/-- The absolute path that a path spells. -/
def resolve (current path : String) : String :=
  let names := if path.startsWith "/" then parts path else parts current ++ parts path
  ofNames (names.foldl step [])

/-- A path without needless parts. -/
def tidy (path : String) : String :=
  let text := "/".intercalate (parts path)
  if path.startsWith "/" then "/" ++ text else if text == "" then "." else text

/-- A path inside a folder, as the folder was written. -/
def inside (folder path : String) : String :=
  if folder == "" then path
  else if folder.endsWith "/" then folder ++ path
  else folder ++ "/" ++ path

/-- A path that starts at a folder, unless it starts with a slash. -/
def join (folder path : String) : String :=
  if path.startsWith "/" then path else inside folder path

/-- The last name in a path. -/
def name (path : String) : String := ((parts path).getLast?).getD ""

end Path

/-- Files by absolute path with their texts, the folders that may be empty, and the current
folder. -/
structure FileTree where
  files : Keyed String
  folders : List String
  current : String
  deriving Repr

namespace FileTree

/-! ### Where paths lead -/

/-- The absolute path that a path spells. -/
def resolve (tree : FileTree) (path : String) : String := Path.resolve tree.current path

/-- Whether there is a folder at the absolute path with these names. A folder is there also by what
is in it. -/
def isFolderAt (tree : FileTree) (names : List String) : Bool :=
  let folder := Path.ofNames names
  names.isEmpty || tree.folders.contains folder ||
    (Keyed.keys tree.files ++ tree.folders).any (·.startsWith (folder ++ "/"))

/-- Whether there is a file at the absolute path with these names. -/
def isFileAt (tree : FileTree) (names : List String) : Bool :=
  Keyed.has tree.files (Path.ofNames names)

/-- Where the parts of a path lead from the place with these names. Only folders can be left. -/
def follow (tree : FileTree) : (names : List String) → (parts : List String) →
    Except StorageFault (List String)
  | names, [] => .ok names
  | names, part :: parts =>
    if tree.isFolderAt names then
      if part == "" || part == "." then tree.follow names parts
      else tree.follow (Path.step names part) parts
    else .error (if tree.isFileAt names then .notAFolder else .missing)

/-- The names of the place that a path leads to. -/
def locate (tree : FileTree) (path : String) : Except StorageFault (List String) :=
  if path == "" then .error .missing
  else
    tree.follow (if path.startsWith "/" then [] else Path.parts tree.current) (Path.split path)

/-! ### Reading -/

/-- The text of a file, its lines ended by line feeds. -/
def read? (tree : FileTree) (path : String) : Option String := do
  let names ← (tree.locate path).toOption
  (Keyed.get? tree.files (Path.ofNames names)).map Text.unifyLines

/-- Whether there is a file at a path. -/
def isFile (tree : FileTree) (path : String) : Bool := (tree.read? path).isSome

/-- Whether there is a folder at a path. -/
def isFolder (tree : FileTree) (path : String) : Bool :=
  (tree.locate path).toOption.any tree.isFolderAt

/-- Whether there is a file or a folder. -/
def has (tree : FileTree) (path : String) : Bool := tree.isFile path || tree.isFolder path

/-- The files inside a folder, at any depth, as paths that begin as the folder was written. -/
def walk (tree : FileTree) (folder : String) : List String :=
  match tree.locate folder with
  | .error _ => []
  | .ok names =>
    let start := if names.isEmpty then "/" else Path.ofNames names ++ "/"
    (Keyed.keys tree.files).filterMap fun file =>
      if file.startsWith start then
        some (Path.inside folder (String.ofList (file.toList.drop start.length)))
      else none

/-! ### Writing -/

/-- Puts a file at the place that a path spells. -/
def putFile (tree : FileTree) (path text : String) : FileTree :=
  { tree with files := Keyed.put tree.files (tree.resolve path) text }

/-- Puts a folder at the place that a path spells. -/
def putFolder (tree : FileTree) (path : String) : FileTree :=
  { tree with folders := tree.folders ++ [tree.resolve path] }

/-- Writes a file into a folder that is there. -/
def write (tree : FileTree) (path text : String) : Except StorageFault FileTree := do
  let names ← tree.locate path
  if tree.isFolderAt names then throw .isFolder
  return { tree with files := Keyed.put tree.files (Path.ofNames names) text }

/-- Makes folders along the parts of a path from the place with these names. -/
def makeFolders (tree : FileTree) : (names : List String) → (parts : List String) →
    Except StorageFault FileTree
  | _, [] => .ok tree
  | names, part :: parts =>
    let names := Path.step names part
    if tree.isFolderAt names then makeFolders tree names parts
    else if tree.isFileAt names then .error (if parts.isEmpty then .exists else .notAFolder)
    else makeFolders { tree with folders := tree.folders ++ [Path.ofNames names] } names parts

/-- Makes a folder, together with all that are missing on the way to it. -/
def makeFolder (tree : FileTree) (path : String) : Except StorageFault FileTree :=
  tree.makeFolders (if path.startsWith "/" then [] else Path.parts tree.current) (Path.parts path)

/-- The files that are new or changed since an earlier time. -/
def changes (tree earlier : FileTree) : List (String × String) :=
  tree.files.filter fun (path, text) => Keyed.get? earlier.files path != some text

/-! ### Reading what was written -/

theorem isFolderAt_put {tree : FileTree} {names : List String} (path text : String)
    (h : tree.isFolderAt names = true) :
    isFolderAt { tree with files := Keyed.put tree.files path text } names = true := by
  simp only [isFolderAt, Bool.or_eq_true, List.any_append] at h ⊢
  rcases h with h | h | h
  · exact .inl h
  · refine .inr (.inl ?_)
    obtain ⟨key, hkey, hstart⟩ := List.any_eq_true.1 h
    refine List.any_eq_true.2 ⟨key, ?_, hstart⟩
    rw [Keyed.keys_put]
    split
    · exact hkey
    · exact List.mem_append_left _ hkey
  · exact .inr (.inr h)

/-- Where more folders are, more paths lead somewhere. -/
theorem follow_mono {tree after : FileTree}
    (hfolders : ∀ names, tree.isFolderAt names = true → after.isFolderAt names = true)
    {names parts found : List String} (h : tree.follow names parts = .ok found) :
    after.follow names parts = .ok found := by
  induction parts generalizing names with
  | nil => exact h
  | cons part parts ih =>
    simp only [follow] at h ⊢
    split at h
    · next hf =>
      rw [if_pos (hfolders names hf)]
      split at h
      · next hp => rw [if_pos hp]; exact ih h
      · next hp => rw [if_neg hp]; exact ih h
    · cases h

theorem locate_mono {tree after : FileTree} (hcurrent : after.current = tree.current)
    (hfolders : ∀ names, tree.isFolderAt names = true → after.isFolderAt names = true)
    {path : String} {names : List String} (h : tree.locate path = .ok names) :
    after.locate path = .ok names := by
  unfold locate at h ⊢
  split at h
  · cases h
  · next hne => rw [if_neg hne, hcurrent]; exact follow_mono hfolders h

theorem read?_of_write {tree after : FileTree} {path text : String}
    (h : tree.write path text = .ok after) : after.read? path = some (Text.unifyLines text) := by
  unfold write at h
  cases hl : tree.locate path with
  | error fault => simp [hl, bind, Except.bind] at h
  | ok names =>
    simp only [hl, bind, Except.bind] at h
    split at h
    · cases h
    · cases h
      have hl' : locate { tree with
          files := Keyed.put tree.files (Path.ofNames names) text } path = .ok names := by
        refine locate_mono ?_ (fun _ hf => ?_) hl
        · rfl
        · exact isFolderAt_put _ _ hf
      simp [read?, hl', Except.toOption]

end FileTree

end RemoteNodes
