import Mathlib.Tactic
import RemoteNodes.Proofs.Fault
import RemoteNodes.Proofs.Keyed
import RemoteNodes.Storage.Tree
/-!
Trees of files that only grow: what is there stays there, under the same path.

* `FileTree.content?`: the text of a file as it is stored; `FileTree.read?_eq`: reading ends its
  lines by line feeds, and `Text.unifyLines_unifyLines`: does so once.
* `FileTree.Extends`: a tree with all files and folders of another one; `Extends.content?`: **paths
  lead to the same files in it**.
* `FileTree.makeFolder_eq_ok`: a folder that has been made need not be made again.
* `FileTree.write_new`: **a new file is the only change**.
-/

namespace RemoteNodes

/-! ### Line ends -/

namespace Text

lemma not_mem_unifyLines (text : String) : '\r' ∉ (unifyLines text).toList := by
  rw [unifyLines]
  split
  · rw [String.toList_ofList]
    exact not_mem_unifyBreaks _
  · rename_i h
    rw [String.contains_char_eq] at h
    simpa using h

/-- Texts without carriage returns stay as they are. -/
lemma unifyLines_eq_self {text : String} : unifyLines text = text ↔ '\r' ∉ text.toList := by
  constructor
  · intro h
    rw [← h]
    exact not_mem_unifyLines text
  · intro h
    rw [unifyLines, String.contains_char_eq, if_neg]
    simpa using h

/-- Line ends are unified once. -/
lemma unifyLines_unifyLines (text : String) : unifyLines (unifyLines text) = unifyLines text :=
  unifyLines_eq_self.mpr (not_mem_unifyLines text)

end Text

namespace FileTree

variable {tree before after later : FileTree} {names parts : List String}
  {path text : String}

/-! ### Trees that grow -/

/-- The text of a file as it is stored. -/
def content? (tree : FileTree) (path : String) : Option String := do
  let names ← (tree.locate path).toOption
  Keyed.get? tree.files (Path.ofNames names)

lemma read?_eq (tree : FileTree) (path : String) :
    tree.read? path = (tree.content? path).map Text.unifyLines := by
  rw [read?, content?]
  cases (tree.locate path).toOption <;> rfl

lemma content?_eq_some : tree.content? path = some text
    ↔ ∃ names, tree.locate path = .ok names
      ∧ Keyed.get? tree.files (Path.ofNames names) = some text := by
  rw [content?]
  cases tree.locate path with
  | error _ => simp [Except.toOption]
  | ok names => simp [Except.toOption]

/-- A tree has all files of another one, with their texts, all its folders, and the same current
folder. -/
structure Extends (before after : FileTree) : Prop where
  current : after.current = before.current
  files : ∀ key text, Keyed.get? before.files key = some text →
    Keyed.get? after.files key = some text
  folders : ∀ names, before.isFolderAt names = true → after.isFolderAt names = true

namespace Extends

lemma refl (tree : FileTree) : tree.Extends tree := ⟨rfl, fun _ _ h => h, fun _ h => h⟩

lemma trans (h : before.Extends after) (h' : after.Extends later) : before.Extends later where
  current := h'.current.trans h.current
  files _ _ hget := h'.files _ _ (h.files _ _ hget)
  folders _ hfolder := h'.folders _ (h.folders _ hfolder)

lemma keys_subset (h : before.Extends after) :
    Keyed.keys before.files ⊆ Keyed.keys after.files := by
  intro key hkey
  obtain ⟨text, hget⟩ := Option.isSome_iff_exists.mp (Keyed.has_iff.mpr hkey)
  exact Keyed.mem_keys_of_get? (h.files _ _ hget)

/-- A path that leads anywhere leads there in the larger tree as well. -/
lemma locate (h : before.Extends after) (hlocate : before.locate path = .ok names) :
    after.locate path = .ok names :=
  locate_mono h.current h.folders hlocate

/-- **A file keeps its text**, under the same path. -/
theorem content? (h : before.Extends after) (hcontent : before.content? path = some text) :
    after.content? path = some text := by
  obtain ⟨names, hlocate, hget⟩ := content?_eq_some.mp hcontent
  exact content?_eq_some.mpr ⟨names, h.locate hlocate, h.files _ _ hget⟩

end Extends

/-! ### Folders -/

lemma extends_addFolder (tree : FileTree) (folder : String) :
    tree.Extends { tree with folders := tree.folders ++ [folder] } := by
  refine ⟨rfl, fun _ _ hget => hget, fun names hfolder => ?_⟩
  simp only [isFolderAt, Bool.or_eq_true, List.contains_iff_mem, List.any_append] at hfolder ⊢
  rcases hfolder with (hempty | hmem) | hstart | hstart
  · exact .inl (.inl hempty)
  · exact .inl (.inr (List.mem_append_left _ hmem))
  · exact .inr (.inl hstart)
  · exact .inr (.inr (.inl hstart))

/-- Folders are added along a path, and where they have been added nothing is left to add. -/
lemma makeFolders_eq_ok (h : tree.makeFolders names parts = .ok after) :
    tree.Extends after ∧ after.files = tree.files
      ∧ ∀ later, after.Extends later → later.makeFolders names parts = .ok later := by
  induction parts generalizing tree names with
  | nil =>
      cases h
      exact ⟨.refl _, rfl, fun _ _ => rfl⟩
  | cons part parts ih =>
      rw [makeFolders] at h
      split at h
      · rename_i hfolder
        obtain ⟨hextends, hfiles, hlater⟩ := ih h
        refine ⟨hextends, hfiles, fun later hextends' => ?_⟩
        rw [makeFolders, if_pos (hextends'.folders _ (hextends.folders _ hfolder))]
        exact hlater later hextends'
      · split at h
        · cases h
        · obtain ⟨hextends, hfiles, hlater⟩ := ih h
          have hadded := extends_addFolder tree (Path.ofNames (Path.step names part))
          refine ⟨hadded.trans hextends, hfiles, fun later hextends' => ?_⟩
          rw [makeFolders, if_pos (hextends'.folders _ (hextends.folders _ ?_))]
          · exact hlater later hextends'
          · simp [isFolderAt]

/-- A folder that has been made need not be made again. -/
lemma makeFolder_eq_ok (h : tree.makeFolder path = .ok after) :
    tree.Extends after ∧ after.files = tree.files
      ∧ ∀ later, after.Extends later → later.makeFolder path = .ok later := by
  obtain ⟨hextends, hfiles, hlater⟩ := makeFolders_eq_ok h
  refine ⟨hextends, hfiles, fun later hextends' => ?_⟩
  rw [makeFolder, hextends'.current, hextends.current]
  exact hlater later hextends'

/-! ### New files -/

lemma write_eq_ok : tree.write path text = .ok after
    ↔ ∃ names, tree.locate path = .ok names ∧ tree.isFolderAt names = false
      ∧ { tree with files := Keyed.put tree.files (Path.ofNames names) text } = after := by
  rw [write, bind_eq_ok]
  refine exists_congr fun names => and_congr_right fun _ => ?_
  cases tree.isFolderAt names with
  | true => exact ⟨fun h => (nomatch h), fun h => nomatch h.1⟩
  | false => exact ⟨fun h => ⟨rfl, Except.ok.inj h⟩, fun h => congrArg Except.ok h.2⟩

lemma extends_put {key : String} (hnew : Keyed.get? tree.files key = none) (text : String) :
    tree.Extends { tree with files := Keyed.put tree.files key text } where
  current := rfl
  files key' text' hget := by
    refine (Keyed.get?_put_of_ne _ _ ?_).trans hget
    rintro rfl
    rw [hnew] at hget
    cases hget
  folders _ hfolder := isFolderAt_put _ _ hfolder

/-- **A new file is the only change**: all others stay, and it has the text that is written. -/
theorem write_new (hnew : tree.content? path = none) (h : tree.write path text = .ok after) :
    tree.Extends after ∧ ∃ names, after.locate path = .ok names
      ∧ Path.ofNames names ∉ Keyed.keys tree.files
      ∧ after.files = Keyed.put tree.files (Path.ofNames names) text := by
  obtain ⟨names, hlocate, -, rfl⟩ := write_eq_ok.mp h
  have hnone : Keyed.get? tree.files (Path.ofNames names) = none := by
    cases hget : Keyed.get? tree.files (Path.ofNames names) with
    | none => rfl
    | some content =>
        rw [content?_eq_some.mpr ⟨names, hlocate, hget⟩] at hnew
        cases hnew
  have hextends := extends_put hnone text
  refine ⟨hextends, names, hextends.locate hlocate, fun hmem => ?_, rfl⟩
  rw [← Keyed.has_iff, Keyed.has, hnone] at hmem
  cases hmem

end FileTree

end RemoteNodes
