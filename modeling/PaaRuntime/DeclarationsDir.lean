import PaaRuntime.DeclarationRules

/-!
# Loading a directory

`load_paa_declarations`: every file of the directory, in the order of the paths, and one declaration
for each task.
-/

namespace PaaRuntime

/-- A file of the directory: its path, and what YAML makes of its text, or the text of the
`YAMLError`. -/
structure DeclarationFile where
  path : String
  content : Except String (Value String)

/-- `yaml.safe_load` of a file. -/
def DeclarationFile.raw (file : DeclarationFile) : Load (Value String) :=
  match file.content with
  | .ok raw => .ok raw
  | .error exc => refuse [.text s!"{file.path}: invalid YAML: {exc}"]

/-- The loop of `load_paa_declarations`, with the declarations loaded so far. -/
def loadFiles (registry : List ProducerRegistration) :
    List PaaTaskDeclaration → List DeclarationFile → Load (List PaaTaskDeclaration)
  | declarations, [] => .ok declarations
  | declarations, file :: files => do
    let raw ← file.raw
    let declaration ← buildDeclaration raw file.path registry
    match declarations.find? (·.task = declaration.task) with
    | some existing => refuse [.text (s!"{file.path}: duplicate PAA declaration for task " ++
        s!"{pyRepr declaration.task} (already loaded at version "), .shown (.int existing.version),
        .text ")"]
    | none => loadFiles registry (declarations ++ [declaration]) files

/-- `load_paa_declarations` of a directory that is there or not, with its sorted `*.yaml` files. -/
def loadPaaDeclarations (dirPath : String) (isDir : Bool) (files : List DeclarationFile)
    (registry : List ProducerRegistration) : Load (List PaaTaskDeclaration) :=
  if isDir = false then refuse [.text s!"PAA declarations directory not found: {dirPath}"]
  else if files = [] then refuse [.text s!"no PAA task declarations found in {dirPath}"]
  else loadFiles registry [] files

section

variable {registry : List ProducerRegistration} {files : List DeclarationFile}
  {declarations ds : List PaaTaskDeclaration} {d : PaaTaskDeclaration}

/-- What has been loaded: one declaration for each task, each built from a document. -/
structure LoadedFrom (registry : List ProducerRegistration) (ds : List PaaTaskDeclaration) : Prop where
  tasks : (ds.map (·.task)).Nodup
  built : ∀ d ∈ ds, ∃ raw path, buildDeclaration raw path registry = .ok d

/-- One more declaration, of a task not seen. -/
theorem LoadedFrom.concat (h : LoadedFrom registry ds) {raw : Value String} {path : String}
    (hd : buildDeclaration raw path registry = .ok d) (hnew : ds.find? (·.task = d.task) = none) :
    LoadedFrom registry (ds ++ [d]) := by
  refine ⟨?_, fun e he => ?_⟩
  · rw [List.find?_eq_none] at hnew
    rw [List.map_append, List.map_singleton, List.nodup_append_comm, List.singleton_append,
      List.nodup_cons]
    refine ⟨fun hmem => ?_, h.tasks⟩
    obtain ⟨e, he, htask⟩ := List.mem_map.1 hmem
    exact hnew e he (by simpa using htask)
  · rcases List.mem_append.1 he with he | he
    · exact h.built e he
    · rw [List.mem_singleton.1 he]
      exact ⟨raw, path, hd⟩

theorem loadFiles_loaded (h : LoadedFrom registry declarations)
    (hok : loadFiles registry declarations files = .ok ds) : LoadedFrom registry ds := by
  induction files generalizing declarations with
  | nil =>
    cases hok
    exact h
  | cons file files ih =>
    obtain ⟨raw, -, hok⟩ := except_bind_ok.1 hok
    obtain ⟨declaration, hbuilt, hok⟩ := except_bind_ok.1 hok
    split at hok
    · exact absurd hok refuse_ne_ok
    · next hnew => exact ih (h.concat hbuilt hnew) hok

/-- What `load_paa_declarations` returns. -/
theorem loadPaaDeclarations_loaded {dirPath : String} {isDir : Bool}
    (h : loadPaaDeclarations dirPath isDir files registry = .ok ds) : LoadedFrom registry ds := by
  unfold loadPaaDeclarations at h
  split_ifs at h
  · exact absurd h refuse_ne_ok
  · exact absurd h refuse_ne_ok
  · exact loadFiles_loaded ⟨by simp, by simp⟩ h

/-- The declaration of a task is found under it. -/
theorem LoadedFrom.getPaaDeclaration (h : LoadedFrom registry ds) (config : RuntimeConfig) (hd : d ∈ ds) :
    getPaaDeclaration config (.ok ds) d.task = .ok d := by
  unfold PaaRuntime.getPaaDeclaration
  have hfind : ds.find? (·.task = d.task) = some d := by
    rcases hf : ds.find? (·.task = d.task) with _ | e
    · rw [List.find?_eq_none] at hf
      exact absurd (by simp) (hf d hd)
    · have htask : e.task = d.task := by simpa using List.find?_some hf
      rw [hf, List.inj_on_of_nodup_map h.tasks (List.mem_of_find?_eq_some hf) hd htask]
  simp only [hfind]

/-- A declaration that is loaded has a version from 1 on. -/
theorem LoadedFrom.one_le_version (h : LoadedFrom registry ds) (hd : d ∈ ds) : 1 ≤ d.version := by
  obtain ⟨raw, path, hbuilt⟩ := h.built d hd
  obtain ⟨fields, hfields, hrest⟩ := except_bind_ok.1 hbuilt
  obtain ⟨_, -, hpure⟩ := except_bind_ok.1 hrest
  obtain rfl := except_pure_ok.1 hpure
  exact (buildFields_ok.1 hfields).1.version.2

end

end PaaRuntime
