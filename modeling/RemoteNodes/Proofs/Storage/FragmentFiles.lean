import Mathlib.Tactic
import RemoteNodes.Proofs.Document.Defaults
import RemoteNodes.Proofs.Fetch.Outcomes
import RemoteNodes.Proofs.Storage.Tree
import RemoteNodes.Storage.DocumentFiles
/-!
The files of fragments: they are written once, and what is there is never touched.

* `outcome_fragmentFile`: what comes of the file of one type; `FileStep`: all that can come of it.
* `Returned`: a text that is returned for a file is what the file holds.
* `FilesRun`: what is kept while the files are seen to, one after the other. `FilesRun.of_step`: by
  one file; `fragmentFilesOf_run`: by all of them.
* `readFragmentFiles_twice`: **a second call reads what the first one has returned**.
* `readFragmentFiles_stable`: **fragment files are stable and never clobbered**, up to the ends of
  their lines, which reading turns into line feeds (`fragment_files_differ`).
-/

namespace RemoteNodes

variable {path type folder : String} {defaults : Thunk (Except Fault (Keyed String))}
  {tree before middle after : FileTree} {result : Except Fault String}

/-! ### One file -/

lemma outcome_changeFiles (path : String) (change : FileTree → Except StorageFault FileTree)
    (tree : FileTree) : (changeFiles path change).outcome tree = match change tree with
      | .ok after => (.ok (), after)
      | .error cause => (.error (.storage path cause), tree) := by
  have h : (changeFiles path change).outcome tree = Session.outcome (match change tree with
      | .ok after => set after
      | .error cause => throw (.storage path cause)) tree := rfl
  rw [h]
  cases change tree <;> rfl

/-- What comes of the file of a type, whatever the files are. -/
lemma outcome_fragmentFile (path type : String) (defaults : Thunk (Except Fault (Keyed String)))
    (tree : FileTree) :
    (fragmentFile path type defaults).outcome tree = match tree.content? path with
      | some content => (.ok (Text.unifyLines content), tree)
      | none =>
        if tree.isFolder path then (.error (.storage path .isFolder), tree)
        else match defaults.get with
          | .error fault => (.error fault, tree)
          | .ok texts => match Keyed.get? texts type with
            | none => (.error .malformed, tree)
            | some text => match tree.write path text with
              | .error cause => (.error (.storage path cause), tree)
              | .ok after => (.ok text, after) := by
  have htree : Session.outcome (getThe FileTree : Session FileTree FileTree) tree
      = (.ok tree, tree) := rfl
  rw [fragmentFile, Session.outcome_bind_ok htree, FileTree.read?_eq]
  cases tree.content? path with
  | some content => rfl
  | none =>
      dsimp only [Option.map_none]
      cases tree.isFolder path with
      | true => rfl
      | false =>
          cases defaults.get with
          | error fault => exact Session.outcome_bind_error (Session.outcome_lift _ _) _
          | ok texts =>
              refine (Session.outcome_bind_lift rfl _ _).trans ?_
              simp only [Bool.false_eq_true, if_false]
              cases Keyed.get? texts type with
              | none => rfl
              | some text =>
                  have hchange := outcome_changeFiles path (·.write path text) tree
                  dsimp only
                  cases hwrite : tree.write path text with
                  | error cause =>
                      rw [hwrite] at hchange
                      exact Session.outcome_bind_error hchange _
                  | ok after =>
                      rw [hwrite] at hchange
                      exact Session.outcome_bind_ok hchange _

/-- A file that is there is read. -/
lemma fragmentFile_of_content {content : String} (h : tree.content? path = some content) :
    (fragmentFile path type defaults).outcome tree = (.ok (Text.unifyLines content), tree) := by
  rw [outcome_fragmentFile, h]

/-- What can come of the file of a type: it is there and read, or is in the way, or the default
fragments fail, or the new file is not or is written. -/
inductive FileStep (path type : String) (defaults : Except Fault (Keyed String))
    (tree : FileTree) : Except Fault String → FileTree → Prop
  | kept {content : String} (h : tree.content? path = some content) :
      FileStep path type defaults tree (.ok (Text.unifyLines content)) tree
  | isFolder : FileStep path type defaults tree (.error (.storage path .isFolder)) tree
  | noDefaults {fault : Fault} (h : defaults = .error fault) :
      FileStep path type defaults tree (.error fault) tree
  | noDefault {texts : Keyed String} (h : defaults = .ok texts)
      (hnone : Keyed.get? texts type = none) :
      FileStep path type defaults tree (.error .malformed) tree
  | notWritten {cause : StorageFault} :
      FileStep path type defaults tree (.error (.storage path cause)) tree
  | written {texts : Keyed String} {text : String} {after : FileTree}
      (hnew : tree.content? path = none) (h : defaults = .ok texts)
      (htext : Keyed.get? texts type = some text) (hwrite : tree.write path text = .ok after) :
      FileStep path type defaults tree (.ok text) after

lemma fragmentFile_step (h : (fragmentFile path type defaults).outcome tree = (result, after)) :
    FileStep path type defaults.get tree result after := by
  rw [outcome_fragmentFile] at h
  split at h
  · rename_i content hcontent
    obtain ⟨rfl, rfl⟩ := Prod.mk.inj h
    exact .kept hcontent
  rename_i hnew
  split at h
  · obtain ⟨rfl, rfl⟩ := Prod.mk.inj h
    exact .isFolder
  split at h
  · rename_i fault hdefaults
    obtain ⟨rfl, rfl⟩ := Prod.mk.inj h
    exact .noDefaults hdefaults
  rename_i texts hdefaults
  split at h
  · rename_i hnone
    obtain ⟨rfl, rfl⟩ := Prod.mk.inj h
    exact .noDefault hdefaults hnone
  rename_i text htext
  split at h
  · obtain ⟨rfl, rfl⟩ := Prod.mk.inj h
    exact .notWritten
  · rename_i written hwrite
    obtain ⟨rfl, rfl⟩ := Prod.mk.inj h
    exact .written hnew hdefaults htext hwrite

/-! ### All files -/

/-- A text that is returned for a file, told by the file afterwards: what is read from it or, if the
file is new, just what has been written. -/
def Returned (before after : FileTree) (path text : String) : Prop :=
  ∃ names content, after.locate path = .ok names
    ∧ Keyed.get? after.files (Path.ofNames names) = some content
    ∧ (text = Text.unifyLines content
      ∨ text = content ∧ Path.ofNames names ∉ Keyed.keys before.files)

/-- What has been returned for a file stays right as the tree grows. -/
lemma Returned.of_later {text : String} (h : Returned before middle path text)
    (hgrows : middle.Extends after) : Returned before after path text := by
  obtain ⟨names, content, hlocate, hget, htext⟩ := h
  exact ⟨names, content, hgrows.locate hlocate, hgrows.files _ _ hget, htext⟩

lemma Returned.of_earlier {text : String} (h : Returned middle after path text)
    (hearlier : before.Extends middle) : Returned before after path text := by
  obtain ⟨names, content, hlocate, hget, htext⟩ := h
  exact ⟨names, content, hlocate, hget,
    htext.imp_right (And.imp_right (mt (hearlier.keys_subset ·)))⟩

/-- The file reads like the text that is returned for it. -/
lemma Returned.unifyLines_eq {text : String} (h : Returned before after path text) :
    ∃ content, after.content? path = some content
      ∧ Text.unifyLines content = Text.unifyLines text := by
  obtain ⟨names, content, hlocate, hget, htext⟩ := h
  refine ⟨content, FileTree.content?_eq_some.mpr ⟨names, hlocate, hget⟩, ?_⟩
  rcases htext with rfl | ⟨rfl, -⟩
  · rw [Text.unifyLines_unifyLines]
  · rfl

/-- What is kept while the files of types are seen to, one after the other: the tree only grows, by
files of these types, and only if there are default fragments; what is returned is what the files
hold; and nothing but the storage and the default fragments can fail. -/
structure FilesRun (folder : String) (defaults : Except Fault (Keyed String))
    (types : List String) (before after : FileTree)
    (result : Except Fault (List (String × String))) : Prop where
  grows : before.Extends after
  created : ∀ key ∈ Keyed.keys after.files, key ∈ Keyed.keys before.files
    ∨ ∃ type ∈ types, ∃ names, after.locate (typeFile folder type) = .ok names
      ∧ key = Path.ofNames names
  returned : ∀ pairs, result = .ok pairs → pairs.map (·.1) = types
    ∧ ∀ p ∈ pairs, Returned before after (typeFile folder p.1) p.2
  failed : ∀ fault, result = .error fault → (∃ path cause, fault = .storage path cause)
    ∨ defaults = .error fault
    ∨ ∃ texts, defaults = .ok texts ∧ ∃ type ∈ types, Keyed.get? texts type = none
  unchanged : ∀ fault, defaults = .error fault → after = before

namespace FilesRun

variable {defaults : Except Fault (Keyed String)} {types types' : List String}
  {pairs : List (String × String)} {fault : Fault}

lemma nil (tree : FileTree) : FilesRun folder defaults [] tree tree (.ok []) where
  grows := .refl tree
  created _ hkey := .inl hkey
  returned _ h := by cases h; exact ⟨rfl, fun _ hp => nomatch hp⟩
  failed _ h := nomatch h
  unchanged _ _ := rfl

/-- A run that leaves the tree alone. -/
lemma stay {type : String} {result : Except Fault String}
    (hreturned : ∀ text, result = .ok text → Returned tree tree (typeFile folder type) text)
    (hfailed : ∀ fault, result = .error fault → (∃ path cause, fault = .storage path cause)
      ∨ defaults = .error fault ∨ ∃ texts, defaults = .ok texts ∧ Keyed.get? texts type = none) :
    FilesRun folder defaults [type] tree tree (result.map fun text => [(type, text)]) where
  grows := .refl tree
  created _ hkey := .inl hkey
  returned pairs h := by
    cases result with
    | error fault => cases h
    | ok text =>
        cases h
        exact ⟨rfl, List.forall_mem_singleton.mpr (hreturned text rfl)⟩
  failed fault h := by
    cases result with
    | error fault' =>
        cases h
        refine (hfailed fault rfl).imp_right (Or.imp_right ?_)
        rintro ⟨texts, htexts, hnone⟩
        exact ⟨texts, htexts, type, List.mem_singleton_self _, hnone⟩
    | ok text => cases h
  unchanged _ _ := rfl

/-- One file. -/
lemma of_step {type : String} {result : Except Fault String}
    (h : FileStep (typeFile folder type) type defaults tree result after) :
    FilesRun folder defaults [type] tree after (result.map fun text => [(type, text)]) := by
  cases h with
  | @kept content h =>
      obtain ⟨names, hlocate, hget⟩ := FileTree.content?_eq_some.mp h
      refine stay (fun text heq => ?_) fun _ heq => nomatch heq
      cases heq
      exact ⟨names, content, hlocate, hget, .inl rfl⟩
  | isFolder =>
      refine stay (fun _ heq => nomatch heq) fun _ heq => ?_
      cases heq
      exact .inl ⟨_, _, rfl⟩
  | noDefaults h =>
      refine stay (fun _ heq => nomatch heq) fun _ heq => ?_
      cases heq
      exact .inr (.inl h)
  | noDefault h hnone =>
      exact stay (fun _ heq => nomatch heq) fun _ _ => .inr (.inr ⟨_, h, hnone⟩)
  | notWritten =>
      refine stay (fun _ heq => nomatch heq) fun _ heq => ?_
      cases heq
      exact .inl ⟨_, _, rfl⟩
  | @written texts text after hnew hdefaults htext hwrite =>
      obtain ⟨hgrows, names, hlocate, hnew, hfiles⟩ := FileTree.write_new hnew hwrite
      refine ⟨hgrows, fun key hkey => ?_, fun pairs heq => ?_, fun _ heq => (nomatch heq),
        fun fault hfault => ?_⟩
      · rw [hfiles, Keyed.keys_put, if_neg hnew] at hkey
        refine (List.mem_append.mp hkey).imp_right fun hkey => ?_
        exact ⟨type, List.mem_singleton_self _, names, hlocate, List.mem_singleton.mp hkey⟩
      · cases heq
        refine ⟨rfl, List.forall_mem_singleton.mpr ⟨names, text, hlocate, ?_, .inr ⟨rfl, hnew⟩⟩⟩
        rw [hfiles, Keyed.get?_put_self]
      · -- nothing is written before the default fragments of all types have been made
        rw [hdefaults] at hfault
        cases hfault

/-- A run that goes on. -/
lemma append {result : Except Fault (List (String × String))}
    (h : FilesRun folder defaults types before middle (.ok pairs))
    (h' : FilesRun folder defaults types' middle after result) :
    FilesRun folder defaults (types ++ types') before after (result.map (pairs ++ ·)) where
  grows := h.grows.trans h'.grows
  created key hkey := by
    rcases h'.created key hkey with hkey | ⟨type, htype, hplace⟩
    · refine (h.created key hkey).imp_right fun ⟨type, htype, names, hlocate, hname⟩ => ?_
      exact ⟨type, List.mem_append_left _ htype, names, h'.grows.locate hlocate, hname⟩
    · exact .inr ⟨type, List.mem_append_right _ htype, hplace⟩
  returned all heq := by
    cases result with
    | error fault => cases heq
    | ok pairs' =>
        cases heq
        obtain ⟨hnames, hreturned⟩ := h.returned pairs rfl
        obtain ⟨hnames', hreturned'⟩ := h'.returned pairs' rfl
        refine ⟨by rw [List.map_append, hnames, hnames'], List.forall_mem_append.mpr ⟨?_, ?_⟩⟩
        · exact fun p hp => (hreturned p hp).of_later h'.grows
        · exact fun p hp => (hreturned' p hp).of_earlier h.grows
  failed fault heq := by
    cases result with
    | error fault' =>
        cases heq
        refine (h'.failed fault rfl).imp_right (Or.imp_right ?_)
        rintro ⟨texts, htexts, type, htype, hnone⟩
        exact ⟨texts, htexts, type, List.mem_append_right _ htype, hnone⟩
    | ok pairs' => cases heq
  unchanged fault hfault := (h'.unchanged fault hfault).trans (h.unchanged fault hfault)

/-- A run that ends early. -/
lemma stop (h : FilesRun folder defaults types before after (.error fault))
    (types' : List String) :
    FilesRun folder defaults (types ++ types') before after (.error fault) where
  grows := h.grows
  created key hkey := by
    refine (h.created key hkey).imp_right fun ⟨type, htype, hplace⟩ => ?_
    exact ⟨type, List.mem_append_left _ htype, hplace⟩
  returned _ heq := nomatch heq
  failed fault' heq := by
    refine (h.failed fault' heq).imp_right (Or.imp_right ?_)
    rintro ⟨texts, htexts, type, htype, hnone⟩
    exact ⟨texts, htexts, type, List.mem_append_left _ htype, hnone⟩
  unchanged := h.unchanged

end FilesRun

/-- **What is kept while all files are seen to.** -/
theorem fragmentFilesOf_run {declarations : List NodeDeclaration}
    {result : Except Fault (List (String × String))}
    (h : (fragmentFilesOf folder defaults declarations).outcome before = (result, after)) :
    FilesRun folder defaults.get (declarations.map (·.type)) before after result := by
  induction declarations generalizing before result with
  | nil =>
      obtain ⟨rfl, rfl⟩ := Prod.mk.inj h
      exact .nil _
  | cons d ds ih =>
      rw [fragmentFilesOf] at h
      rcases hfirst : (fragmentFile (typeFile folder d.type) d.type defaults).outcome before with
        ⟨fault | text, middle⟩
      · rw [Session.outcome_bind_error hfirst] at h
        obtain ⟨rfl, rfl⟩ := Prod.mk.inj h
        exact (FilesRun.of_step (fragmentFile_step hfirst)).stop _
      · have hstep := FilesRun.of_step (fragmentFile_step hfirst)
        rw [Session.outcome_bind_ok hfirst] at h
        rcases hrest : (fragmentFilesOf folder defaults ds).outcome middle with
          ⟨fault | pairs, later⟩
        · rw [Session.outcome_bind_error hrest] at h
          obtain ⟨rfl, rfl⟩ := Prod.mk.inj h
          exact hstep.append (ih hrest)
        · rw [Session.outcome_bind_ok hrest] at h
          obtain ⟨rfl, rfl⟩ := Prod.mk.inj h
          exact hstep.append (ih hrest)

/-! ### A second time -/

/-- Where texts have been returned for files, they are read from them, and nothing is written. -/
lemma fragmentFilesOf_again {declarations : List NodeDeclaration}
    {pairs : List (String × String)} (hnames : declarations.map (·.type) = pairs.map (·.1))
    (hreturned : ∀ p ∈ pairs, Returned before after (typeFile folder p.1) p.2) :
    (fragmentFilesOf folder defaults declarations).outcome after
      = (.ok (pairs.map fun p => (p.1, Text.unifyLines p.2)), after) := by
  induction declarations generalizing pairs with
  | nil =>
      obtain rfl := List.map_eq_nil_iff.mp hnames.symm
      rfl
  | cons d ds ih =>
      obtain ⟨⟨name, text⟩, pairs, rfl, hname, hrest⟩ := List.map_eq_cons_iff.mp hnames.symm
      obtain rfl : name = d.type := hname
      obtain ⟨hfirst, hreturned⟩ := List.forall_mem_cons.mp hreturned
      obtain ⟨content, hcontent, hunify⟩ := hfirst.unifyLines_eq
      rw [fragmentFilesOf, Session.outcome_bind_ok (fragmentFile_of_content hcontent),
        Session.outcome_bind_ok (ih hrest.symm hreturned), hunify]
      rfl

/-! ### Fragment files -/

/-- Every declared type has a default fragment, if there are any. -/
lemma exists_defaultFragmentText {schema : Schema} {declarations : List NodeDeclaration}
    {aliases : Aliases} {resolvers : List ArgumentResolver} {texts : Keyed String}
    (h : defaultFragmentTexts schema declarations aliases resolvers = .ok texts)
    {d : NodeDeclaration} (hd : d ∈ declarations) :
    ∃ text, Keyed.get? texts d.type = some text := by
  obtain ⟨fragments, hfragments, h⟩ := bind_eq_ok.mp h
  cases h
  obtain ⟨_, -, -, -, hdefault⟩ := exists_of_defaultFragments hfragments
  obtain ⟨_, _, _, -, -, -, -, hget⟩ := hdefault d hd
  refine Option.isSome_iff_exists.mp (Keyed.has_iff.mpr ?_)
  have hkey := Keyed.mem_keys_of_get? hget
  rw [Keyed.keys] at hkey ⊢
  rwa [List.map_map]

section Read

variable {schema : Schema} {declarations : List NodeDeclaration} {aliases : Aliases}
  {resolvers : List ArgumentResolver}

/-- In the folder that is made the files are seen to. -/
lemma outcome_readFragmentFiles {made : FileTree} (hmade : before.makeFolder folder = .ok made) :
    (readFragmentFiles folder schema declarations aliases resolvers).outcome before
      = Prod.map (Except.map Keyed.ofPairs) id ((fragmentFilesOf folder
        (Thunk.mk fun _ => defaultFragmentTexts schema declarations aliases resolvers)
        declarations).outcome made) := by
  have hchange := outcome_changeFiles folder (·.makeFolder folder) before
  rw [hmade] at hchange
  rw [readFragmentFiles, Session.outcome_bind_ok hchange]
  rcases hrun : (fragmentFilesOf folder (Thunk.mk fun _ => defaultFragmentTexts schema
    declarations aliases resolvers) declarations).outcome made with ⟨fault | pairs, last⟩
  · rw [Session.outcome_bind_error hrun]
    rfl
  · rw [Session.outcome_bind_ok hrun]
    rfl

/-- The folder is not made, or it is made and the files are seen to. -/
lemma readFragmentFiles_cases {result : Except Fault (Keyed String)}
    (h : (readFragmentFiles folder schema declarations aliases resolvers).outcome before
      = (result, after)) :
    (∃ cause, result = .error (.storage folder cause) ∧ after = before)
    ∨ ∃ made run, before.makeFolder folder = .ok made ∧ run.map Keyed.ofPairs = result
      ∧ FilesRun folder (defaultFragmentTexts schema declarations aliases resolvers)
        (declarations.map (·.type)) made after run := by
  cases hmade : before.makeFolder folder with
  | error cause =>
      have hchange := outcome_changeFiles folder (·.makeFolder folder) before
      rw [hmade] at hchange
      rw [readFragmentFiles, Session.outcome_bind_error hchange] at h
      obtain ⟨rfl, rfl⟩ := Prod.mk.inj h
      exact .inl ⟨cause, rfl, rfl⟩
  | ok made =>
      rw [outcome_readFragmentFiles hmade] at h
      rcases hrun : (fragmentFilesOf folder (Thunk.mk fun _ => defaultFragmentTexts schema
        declarations aliases resolvers) declarations).outcome made with ⟨run, last⟩
      rw [hrun] at h
      obtain ⟨rfl, rfl⟩ := Prod.mk.inj h
      exact .inr ⟨made, run, rfl, rfl, fragmentFilesOf_run hrun⟩

/-- **A second call reads what the first one has returned**, and changes nothing. -/
theorem readFragmentFiles_twice {texts : Keyed String}
    (h : (readFragmentFiles folder schema declarations aliases resolvers).outcome before
      = (.ok texts, after)) {schema' : Schema} {declarations' : List NodeDeclaration}
    {aliases' : Aliases} {resolvers' : List ArgumentResolver}
    (htypes : declarations'.map (·.type) = declarations.map (·.type)) :
    (readFragmentFiles folder schema' declarations' aliases' resolvers').outcome after
      = (.ok (texts.map fun p => (p.1, Text.unifyLines p.2)), after) := by
  rcases readFragmentFiles_cases h with ⟨cause, heq, -⟩ | ⟨made, run, hmade, heq, hrun⟩
  · cases heq
  cases run with
  | error fault => cases heq
  | ok pairs =>
      cases heq
      obtain ⟨hnames, hreturned⟩ := hrun.returned pairs rfl
      obtain ⟨-, -, hagain⟩ := FileTree.makeFolder_eq_ok hmade
      rw [outcome_readFragmentFiles (hagain after hrun.grows),
        fragmentFilesOf_again (htypes.trans hnames.symm) hreturned, Prod.map_apply, Except.map,
        Keyed.ofPairs_map, id]

/-- **Fragment files are stable and never clobbered**, up to the ends of their lines. -/
theorem readFragmentFiles_stable {result : Except Fault (Keyed String)}
    (h : (readFragmentFiles folder schema declarations aliases resolvers).outcome before
      = (result, after)) :
    (∀ key text, Keyed.get? before.files key = some text → Keyed.get? after.files key = some text)
    ∧ (∀ key ∈ Keyed.keys after.files, key ∈ Keyed.keys before.files
      ∨ ∃ d ∈ declarations, ∃ names, after.locate (typeFile folder d.type) = .ok names
        ∧ key = Path.ofNames names)
    ∧ (∀ texts, result = .ok texts →
      (∀ d ∈ declarations, ∃ text, Keyed.get? texts d.type = some text
        ∧ Returned before after (typeFile folder d.type) text)
      ∧ ∀ schema' declarations' aliases' resolvers',
        declarations'.map (·.type) = declarations.map (·.type) → ∃ texts',
          (readFragmentFiles folder schema' declarations' aliases' resolvers').outcome after
            = (.ok texts', after)
          ∧ texts' = texts.map (fun p => (p.1, Text.unifyLines p.2))
          ∧ ((∀ p ∈ texts, '\r' ∉ p.2.toList) → texts' = texts))
    ∧ (∀ fault, result = .error fault → (∃ path cause, fault = .storage path cause)
      ∨ defaultFragmentTexts schema declarations aliases resolvers = .error fault)
    ∧ ∀ fault, defaultFragmentTexts schema declarations aliases resolvers = .error fault →
      after.files = before.files := by
  rcases readFragmentFiles_cases h with ⟨cause, rfl, rfl⟩ | ⟨made, run, hmade, rfl, hrun⟩
  · refine ⟨fun _ _ hget => hget, fun _ hkey => .inl hkey, fun _ heq => (nomatch heq),
      fun fault heq => ?_, fun _ _ => rfl⟩
    cases heq
    exact .inl ⟨_, _, rfl⟩
  obtain ⟨hgrows, hfiles, -⟩ := FileTree.makeFolder_eq_ok hmade
  refine ⟨(hgrows.trans hrun.grows).files, fun key hkey => ?_, fun texts heq => ?_,
    fun fault heq => ?_, fun fault hfault => ?_⟩
  · refine (hrun.created key hkey).imp (hfiles ▸ ·) fun ⟨type, htype, hplace⟩ => ?_
    obtain ⟨d, hd, rfl⟩ := List.mem_map.mp htype
    exact ⟨d, hd, hplace⟩
  · cases run with
    | error fault => cases heq
    | ok pairs =>
        cases heq
        obtain ⟨hnames, hreturned⟩ := hrun.returned pairs rfl
        refine ⟨fun d hd => ?_, fun schema' declarations' aliases' resolvers' htypes => ?_⟩
        · have hkey : d.type ∈ pairs.map (·.1) := hnames ▸ List.mem_map_of_mem hd
          obtain ⟨text, hget⟩ := Keyed.exists_get?_ofPairs hkey
          exact ⟨text, hget, (hreturned _ (Keyed.mem_of_get?_ofPairs hget)).of_earlier hgrows⟩
        · refine ⟨_, readFragmentFiles_twice h htypes, rfl, fun hbreaks => ?_⟩
          refine (List.map_congr_left fun p hp => ?_).trans (List.map_id _)
          rw [Text.unifyLines_eq_self.mpr (hbreaks p hp)]
          rfl
  · cases run with
    | ok pairs => cases heq
    | error fault' =>
        cases heq
        -- no type lacks a default fragment, since fragments are made for all of them at once
        refine (hrun.failed fault rfl).imp_right (Or.resolve_right · ?_)
        rintro ⟨texts, htexts, type, htype, hnone⟩
        obtain ⟨d, hd, rfl⟩ := List.mem_map.mp htype
        obtain ⟨text, htext⟩ := exists_defaultFragmentText htexts hd
        rw [htext] at hnone
        cases hnone
  · rw [hrun.unchanged fault hfault, hfiles]

end Read

/-! ### Files of one type -/

/-- A tree with nothing in it. -/
def emptyTree : FileTree := ⟨[], [], "/"⟩

/-- A tree with the folder of fragments. -/
def folderTree : FileTree := ⟨[], ["/fragments"], "/"⟩

/-- A tree with the file of one type in the folder. -/
def fooTree (text : String) : FileTree :=
  ⟨[("/fragments/Foo.graphql", text)], ["/fragments"], "/"⟩

/-- The folder of fragments after the default fragment has been made, or has not. -/
def treeWith : Except Fault String → FileTree
  | .error _ => folderTree
  | .ok text => fooTree text

lemma content?_folderTree : folderTree.content? (typeFile "fragments" "Foo") = none := by
  decide +kernel

lemma not_isFolder_folderTree : ¬ folderTree.isFolder (typeFile "fragments" "Foo") := by
  decide +kernel

lemma write_folderTree (text : String) :
    folderTree.write (typeFile "fragments" "Foo") text = .ok (fooTree text) := by
  refine FileTree.write_eq_ok.mpr ⟨["fragments", "Foo.graphql"], ?_, by decide +kernel, ?_⟩
  · decide +kernel
  · have hplace : Path.ofNames ["fragments", "Foo.graphql"] = "/fragments/Foo.graphql" := by
      decide +kernel
    rw [hplace]
    rfl

variable {schema : Schema} {d : NodeDeclaration} {aliases : Aliases}
  {resolvers : List ArgumentResolver} {text : String}

lemma makeFolder_emptyTree : emptyTree.makeFolder "fragments" = .ok folderTree := by cbv

/-- In the empty folder the file takes the default fragment, if there is one. -/
lemma fragmentFilesOf_folderTree (htype : d.type = "Foo") (made : Except Fault String)
    (h : defaults.get = made.map fun text => [("Foo", text)]) :
    (fragmentFilesOf "fragments" defaults [d]).outcome folderTree
      = (made.map fun text => [("Foo", text)], treeWith made) := by
  have hfile := outcome_fragmentFile (typeFile "fragments" "Foo") "Foo" defaults folderTree
  rw [content?_folderTree, if_neg not_isFolder_folderTree, h] at hfile
  rw [fragmentFilesOf, htype]
  cases made with
  | error fault => exact Session.outcome_bind_error hfile _
  | ok text =>
      have hget : Keyed.get? [("Foo", text)] "Foo" = some text := rfl
      simp only [Except.map, hget, write_folderTree] at hfile
      rw [Session.outcome_bind_ok hfile]
      rfl

/-- The folder is made, and the file as well if there is a default fragment. -/
lemma readFragmentFiles_emptyTree (htype : d.type = "Foo") (made : Except Fault String)
    (h : defaultFragmentTexts schema [d] aliases resolvers
      = made.map fun text => [("Foo", text)]) :
    (readFragmentFiles "fragments" schema [d] aliases resolvers).outcome emptyTree
      = (made.map fun text => [("Foo", text)], treeWith made) := by
  have hfiles : (fragmentFilesOf "fragments" (Thunk.mk fun _ =>
      defaultFragmentTexts schema [d] aliases resolvers) [d]).outcome folderTree
        = (made.map fun text => [("Foo", text)], treeWith made) :=
    fragmentFilesOf_folderTree htype made h
  rw [outcome_readFragmentFiles makeFolder_emptyTree, hfiles]
  cases made <;> rfl

/-- The file is read. -/
lemma readFragmentFiles_fooTree (htype : d.type = "Foo") :
    (readFragmentFiles "fragments" schema [d] aliases resolvers).outcome (fooTree text)
      = (.ok [("Foo", Text.unifyLines text)], fooTree text) := by
  obtain ⟨hgrows, names, hlocate, hnew, hfiles⟩ :=
    FileTree.write_new content?_folderTree (write_folderTree text)
  have hcontent : Keyed.get? (fooTree text).files (Path.ofNames names) = some text := by
    rw [hfiles, Keyed.get?_put_self]
  have hfolder := (FileTree.makeFolder_eq_ok makeFolder_emptyTree).2.2 _ hgrows
  have hnames : [d].map (·.type) = [("Foo", text)].map (·.1) := by
    rw [List.map_singleton, htype]
    rfl
  have hreturned : ∀ p ∈ [("Foo", text)],
      Returned folderTree (fooTree text) (typeFile "fragments" p.1) p.2 :=
    List.forall_mem_singleton.mpr ⟨names, text, hlocate, hcontent, .inr ⟨rfl, hnew⟩⟩
  rw [outcome_readFragmentFiles hfolder, fragmentFilesOf_again hnames hreturned]
  rfl

set_option maxRecDepth 10000 in
lemma defaultFragmentTexts_blank :
    defaultFragmentTexts fooSchema [⟨"Foo", ""⟩] [] []
      = .error (.configuration (.noQueries "Foo" 0)) := by
  cbv

/-- The fragment of the type is written, and later it is read again, for whatever schema. Queries
that cannot be read make the folder only. -/
theorem readFragmentFiles_stable_foo :
    ((readFragmentFiles "fragments" fooSchema [fooDeclaration] [] []).outcome emptyTree
        = (.ok [("Foo", (fooFragment none).text)], fooTree (fooFragment none).text)
      ∧ ∀ schema queries aliases resolvers,
        (readFragmentFiles "fragments" schema [⟨"Foo", queries⟩] aliases resolvers).outcome
            (fooTree (fooFragment none).text)
          = (.ok [("Foo", (fooFragment none).text)], fooTree (fooFragment none).text))
    ∧ (readFragmentFiles "fragments" fooSchema [⟨"Foo", ""⟩] [] []).outcome emptyTree
        = (.error (.configuration (.noQueries "Foo" 0)), folderTree)
      ∧ defaultFragmentTexts fooSchema [⟨"Foo", ""⟩] [] []
        = .error (.configuration (.noQueries "Foo" 0))
      ∧ folderTree.files = emptyTree.files := by
  have hmade : (readFragmentFiles "fragments" fooSchema [fooDeclaration] [] []).outcome emptyTree
      = (.ok [("Foo", (fooFragment none).text)], fooTree (fooFragment none).text) :=
    readFragmentFiles_emptyTree rfl (.ok _) (defaultFragmentTexts_foo rfl referenceFragments_foo)
  have hfailed : (readFragmentFiles "fragments" fooSchema [⟨"Foo", ""⟩] [] []).outcome emptyTree
      = (.error (.configuration (.noQueries "Foo" 0)), folderTree) :=
    readFragmentFiles_emptyTree rfl (.error _) defaultFragmentTexts_blank
  refine ⟨⟨hmade, fun schema queries aliases resolvers => ?_⟩, hfailed,
    ?_, (readFragmentFiles_stable hfailed).2.2.2.2 _ defaultFragmentTexts_blank⟩
  · obtain ⟨texts, hagain, -, hsame⟩ := ((readFragmentFiles_stable hmade).2.2.1 _ rfl).2 schema
      [⟨"Foo", queries⟩] aliases resolvers rfl
    have hbreaks : '\r' ∉ (fooFragment none).text.toList := by
      rw [text_fooFragment]
      decide +kernel
    rw [hagain, hsame (List.forall_mem_singleton.mpr hbreaks)]
  · rcases (readFragmentFiles_stable hfailed).2.2.2.1 _ rfl with ⟨path, cause, hcause⟩ | hdefaults
    · cases hcause
    · exact hdefaults

/-- A file whose lines end in carriage returns. -/
def crlfText : String := "fragment Foo on Foo \x7b\r\n  name\r\n\x7d"

set_option maxRecDepth 10000 in
lemma defaultFragmentTexts_break :
    defaultFragmentTexts fooSchema [fooDeclaration] [("name", "\r")] []
      = .ok [("Foo", (fooFragment (some "\r")).text)] := by
  have hfragments : defaultFragments fooSchema [fooDeclaration] [("name", "\r")] []
      = .ok [("Foo", fooFragment (some "\r"))] := by
    rw [defaultFragments, referenceFragments_foo]
    cbv
  rw [defaultFragmentTexts, hfragments]
  rfl

lemma text_break : (fooFragment (some "\r")).text
    = "fragment Foo on Foo \x7b\n  remoteId: id\n  \r: name\n\x7d" := by
  have hlines : selectionTexts (fooFragment (some "\r")).selections
      = ["remoteId: id", "\r: name"] := by
    decide +kernel
  have hbody : Token.shift 1 (Layout.join "\n" ["remoteId: id", "\r: name"]).toList
      = "remoteId: id\n  \r: name".toList := by
    decide +kernel
  rw [Fragment.text_of_lines rfl rfl hlines hbody]
  decide +kernel

/-- A file can hold something else than the text that is returned for it, if its lines end in
carriage returns. If one is written, a second call returns something else than the first one. -/
theorem fragment_files_differ :
    (∃ texts after text content,
      (readFragmentFiles "fragments" fooSchema [fooDeclaration] [] []).outcome (fooTree crlfText)
        = (.ok texts, after)
      ∧ Keyed.get? texts "Foo" = some text
      ∧ after.content? (typeFile "fragments" "Foo") = some content ∧ content ≠ text)
    ∧ ∃ texts texts' after,
      (readFragmentFiles "fragments" fooSchema [fooDeclaration] [("name", "\r")] []).outcome
        emptyTree = (.ok texts, after)
      ∧ (readFragmentFiles "fragments" fooSchema [fooDeclaration] [("name", "\r")] []).outcome
        after = (.ok texts', after)
      ∧ Keyed.get? texts' "Foo" ≠ Keyed.get? texts "Foo" := by
  have hread (text : String) (hbreak : '\r' ∈ text.toList) : Text.unifyLines text ≠ text :=
    fun heq => Text.unifyLines_eq_self.mp heq hbreak
  refine ⟨⟨_, _, _, _, readFragmentFiles_fooTree rfl, rfl, (by decide +kernel : _ = some crlfText),
    (hread crlfText (by decide +kernel)).symm⟩, _, _, _,
    readFragmentFiles_emptyTree rfl (.ok _) defaultFragmentTexts_break,
    readFragmentFiles_fooTree rfl, fun heq => hread _ ?_ (Option.some.inj heq)⟩
  rw [text_break]
  decide +kernel

end RemoteNodes
