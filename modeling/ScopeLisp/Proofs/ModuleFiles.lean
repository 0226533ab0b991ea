/-
ScopeLisp.Proofs.ModuleFiles — which files a module may come from.

The places for a module are looked at in turn, up to the first that has a regular file
(`FileSystem.Tries`). What stands at these places settles what is loaded: the first
file decides, also when it cannot be read (`ModuleSearch.first_file_decides`).

A name that is not refused is, with the extension, the name of an entry right in a
search directory (`FileSystem.DirectChild`). The one exception is the empty name, which
an empty extension, or one that is a dot, makes into `.` or `..`; there stands no regular
file.
-/
import ScopeLisp.Module.Search

namespace ScopeLisp

/-! ## Places in a file system -/

namespace FileSystem

/-- A regular file stands at the path. -/
def HasFile (fs : FileSystem) (path : String) : Prop := ∃ content, fs path = some (.file content)

/-- The path is looked at in a search for the first regular file: no path before it has
one. -/
def Tries (fs : FileSystem) (paths : List String) (path : String) : Prop :=
  ∃ before after, paths = before ++ path :: after ∧ ∀ earlier ∈ before, ¬ fs.HasFile earlier

/-- The path is that of an entry right in the directory. -/
def DirectChild (directory path : String) : Prop :=
  ∃ name, name ≠ "" ∧ name ≠ "." ∧ name ≠ ".." ∧ '/' ∉ name.toList ∧
    path = joinPath directory name

/-- No regular file stands under the names of dots: those are directories. -/
def DotsAreNoFiles (fs : FileSystem) : Prop :=
  ∀ directory, ¬ fs.HasFile (joinPath directory ".") ∧ ¬ fs.HasFile (joinPath directory "..")

variable {fs fs' : FileSystem} {path : String} {paths : List String}

theorem Tries.mem (h : fs.Tries paths path) : path ∈ paths := by
  obtain ⟨before, after, rfl, -⟩ := h
  exact List.mem_append_right _ List.mem_cons_self

theorem tries_head (path : String) (paths : List String) : fs.Tries (path :: paths) path :=
  ⟨[], paths, rfl, List.forall_mem_nil _⟩

/-- After a path without a regular file the search goes on. -/
theorem Tries.cons {first : String} (none : ¬ fs.HasFile first) (h : fs.Tries paths path) :
    fs.Tries (first :: paths) path := by
  obtain ⟨before, after, rfl, earlier⟩ := h
  exact ⟨first :: before, after, rfl, List.forall_mem_cons.2 ⟨none, earlier⟩⟩

end FileSystem

namespace ModuleSearch

open FileSystem

variable {s : ModuleSearch} {fs fs' : FileSystem} {name path : String} {paths : List String}
  {content : ByteArray}

/-! ## The first file -/

theorem firstFile_of_file (h : fs path = some (.file content)) :
    firstFile fs (path :: paths) = some (path, content) := by
  simp only [firstFile, h]

theorem firstFile_of_no_file (h : ¬ fs.HasFile path) :
    firstFile fs (path :: paths) = firstFile fs paths := by
  rw [firstFile]
  split
  next content found => exact absurd ⟨content, found⟩ h
  next => rfl

theorem firstFile_of_tries (h : fs.Tries paths path) (found : fs path = some (.file content)) :
    firstFile fs paths = some (path, content) := by
  obtain ⟨before, after, rfl, earlier⟩ := h
  induction before with
  | nil => exact firstFile_of_file found
  | cons first before ih =>
    obtain ⟨none, earlier⟩ := List.forall_mem_cons.1 earlier
    exact (firstFile_of_no_file none).trans (ih earlier)

theorem firstFile_eq_none_iff : firstFile fs paths = none ↔ ∀ path ∈ paths, ¬ fs.HasFile path := by
  induction paths with
  | nil => simp [firstFile]
  | cons path paths ih =>
    rw [List.forall_mem_cons]
    by_cases file : fs.HasFile path
    · obtain ⟨content, found⟩ := file
      rw [firstFile_of_file found]
      exact ⟨nofun, fun h => absurd ⟨content, found⟩ h.1⟩
    · rw [firstFile_of_no_file file, ih, and_iff_right file]

/-- A search depends on the files alone, at the places that it looks at. -/
theorem firstFile_congr (same : ∀ path, fs.Tries paths path →
      ∀ content, fs' path = some (.file content) ↔ fs path = some (.file content)) :
    firstFile fs' paths = firstFile fs paths := by
  induction paths with
  | nil => rfl
  | cons path paths ih =>
    have here := same path (tries_head path paths)
    by_cases file : fs.HasFile path
    · obtain ⟨content, found⟩ := file
      rw [firstFile_of_file found, firstFile_of_file ((here content).2 found)]
    · have file' : ¬ fs'.HasFile path := fun ⟨content, found⟩ =>
        file ⟨content, (here content).1 found⟩
      rw [firstFile_of_no_file file, firstFile_of_no_file file']
      exact ih fun later tries => same later (tries.cons file)

/-! ## Places for a module -/

theorem refuses_iff : refuses name = true ↔
    '/' ∈ name.toList ∨ '\\' ∈ name.toList ∨ name.toList.head? = some '.' := by
  simp [refuses, or_assoc, exists_or, and_or_left]

theorem mem_candidates : path ∈ s.candidates name ↔
    ∃ directory ∈ s.directories, path = joinPath directory (name ++ "." ++ s.extension) := by
  simp [candidates, eq_comm]

/-- Only an empty name and an extension without any character but a dot make dots of the
name of the file. -/
theorem eq_empty_of_dots (accepted : refuses name = false)
    (dots : name ++ "." ++ s.extension = "." ∨ name ++ "." ++ s.extension = "..") :
    name = "" ∧ (s.extension = "" ∨ s.extension = ".") := by
  have no_dot : name.toList.head? ≠ some '.' := fun dot => by
    rw [refuses_iff.2 (.inr (.inr dot))] at accepted
    cases accepted
  cases chars : name.toList with
  | nil =>
    obtain rfl := String.toList_eq_nil_iff.1 chars
    simp only [← String.toList_inj, String.toList_append] at dots ⊢
    simpa using dots
  | cons c cs =>
    have first : (name ++ "." ++ s.extension).toList.head? = name.toList.head? := by
      simp [chars]
    rw [← first] at no_dot
    rcases dots with dots | dots <;> rw [dots] at no_dot <;> exact absurd rfl no_dot

/-- With a name that is not refused, a module can only stand right in a search
directory, but for the names of dots that an empty name may make. -/
theorem directChild_or_dots (accepted : refuses name = false) (plain : '/' ∉ s.extension.toList)
    (h : path ∈ s.candidates name) :
    ∃ directory ∈ s.directories, DirectChild directory path ∨
      (name = "" ∧ (s.extension = "" ∨ s.extension = ".")) ∧
        (path = joinPath directory "." ∨ path = joinPath directory "..") := by
  obtain ⟨directory, mem, rfl⟩ := mem_candidates.1 h
  refine ⟨directory, mem, ?_⟩
  by_cases dots : name ++ "." ++ s.extension = "." ∨ name ++ "." ++ s.extension = ".."
  · exact .inr ⟨eq_empty_of_dots accepted dots, dots.imp (congrArg _) (congrArg _)⟩
  · have no_slash : '/' ∉ name.toList := fun slash => by
      rw [refuses_iff.2 (.inl slash)] at accepted
      cases accepted
    have inside : '/' ∉ (name ++ "." ++ s.extension).toList := by
      simp [no_slash, plain]
    refine .inl ⟨_, ?_, mt .inl dots, mt .inr dots, inside, rfl⟩
    exact fun empty => by simpa using congrArg String.toList empty

/-- A file that a module may come from is right in a search directory. -/
theorem directChild_of_hasFile (accepted : refuses name = false)
    (plain : '/' ∉ s.extension.toList)
    (dots : name = "" ∧ (s.extension = "" ∨ s.extension = ".") → fs.DotsAreNoFiles)
    (h : path ∈ s.candidates name) (file : fs.HasFile path) :
    ∃ directory ∈ s.directories, DirectChild directory path := by
  obtain ⟨directory, mem, child | ⟨empty, rfl | rfl⟩⟩ := directChild_or_dots accepted plain h
  · exact ⟨directory, mem, child⟩
  · exact absurd file (dots empty directory).1
  · exact absurd file (dots empty directory).2

/-! ## Loading -/

theorem load_of_refused (refused : refuses name = true) : s.load fs name =
    .error (.moduleUnreadable name "module names cannot contain path separators") := by
  rw [load, ModuleSource.load, source, if_pos refused]
  rfl

/-- What a file gives: its text, or the reason that it has none. -/
def textOf (name path : String) (content : ByteArray) : Except RuntimeError String :=
  match String.fromUTF8? content with
  | some text => .ok text
  | none => .error (.moduleUnreadable name (path ++ ": stream did not contain valid UTF-8"))

theorem load_eq (accepted : refuses name = false) : s.load fs name =
    match firstFile fs (s.candidates name) with
    | none => .error (.moduleNotFound name)
    | some (path, content) => textOf name path content := by
  rw [load, ModuleSource.load, source, if_neg (by simp [accepted])]
  rcases firstFile fs (s.candidates name) with _ | ⟨path, content⟩
  · rfl
  · simp only [textOf]
    cases String.fromUTF8? content <;> rfl

theorem textOf_ne_notFound (name path : String) (content : ByteArray) :
    textOf name path content ≠ .error (.moduleNotFound name) := by
  rw [textOf]
  split <;> nofun

/-- **The first file decides**, in the order of the search directories. A name that
could lead elsewhere is refused, whatever there is in the file system. For another name
the places are looked at in turn, up to the first regular file; what is there gives the
text, or a failure if it is not UTF-8, and there is no module exactly if no place has a
regular file. File systems that agree at the places looked at give the same.

No place but the entries right in the search directories matters, if the extension has
no separator. Where an empty name and the extension make one of the names of dots, this is
so because no regular file has such a name. -/
theorem first_file_decides (s : ModuleSearch) (name : String) :
    let places := s.directories.map fun directory =>
      joinPath directory (name ++ "." ++ s.extension)
    let refused := '/' ∈ name.toList ∨ '\\' ∈ name.toList ∨ name.toList.head? = some '.'
    (refused → ∀ fs, s.load fs name =
        .error (.moduleUnreadable name "module names cannot contain path separators")) ∧
      (¬ refused → ∀ fs : FileSystem,
        (∀ path content, fs.Tries places path → fs path = some (.file content) →
            s.load fs name = textOf name path content) ∧
          (s.load fs name = .error (.moduleNotFound name) ↔ ∀ path ∈ places, ¬ fs.HasFile path) ∧
          (∀ fs' : FileSystem, (∀ path, fs.Tries places path → fs' path = fs path) →
            s.load fs' name = s.load fs name) ∧
          let dotted := name = "" ∧ (s.extension = "" ∨ s.extension = ".")
          ('/' ∉ s.extension.toList → (dotted → fs.DotsAreNoFiles) →
            (∀ path ∈ places, fs.HasFile path →
                ∃ directory ∈ s.directories, DirectChild directory path) ∧
              ∀ fs' : FileSystem, (dotted → fs'.DotsAreNoFiles) →
                (∀ directory ∈ s.directories, ∀ path, DirectChild directory path →
                  fs' path = fs path) →
                s.load fs' name = s.load fs name)) := by
  intro places refused
  refine ⟨fun h fs => load_of_refused (refuses_iff.2 h), fun h fs => ?_⟩
  have accepted : refuses name = false := by
    simpa using mt refuses_iff.1 h
  have loaded : ∀ fs : FileSystem, s.load fs name =
      match firstFile fs places with
      | none => .error (.moduleNotFound name)
      | some (path, content) => textOf name path content := fun _ => load_eq accepted
  have congr : ∀ fs' : FileSystem, firstFile fs' places = firstFile fs places →
      s.load fs' name = s.load fs name := fun fs' same => by
    rw [loaded, loaded, same]
  refine ⟨fun path content tries found => ?_, ⟨fun missing => ?_, fun none => ?_⟩,
    fun fs' same => ?_, ?_⟩
  · rw [loaded, firstFile_of_tries tries found]
  · refine firstFile_eq_none_iff.1 ?_
    cases found : firstFile fs places with
    | none => rfl
    | some place =>
      rw [loaded, found] at missing
      exact absurd missing (textOf_ne_notFound name place.1 place.2)
  · rw [loaded, firstFile_eq_none_iff.2 none]
  · refine congr fs' (firstFile_congr fun path tries content => ?_)
    rw [same path tries]
  · intro dotted plain dots
    have child : ∀ {fs : FileSystem} {path}, (dotted → fs.DotsAreNoFiles) → path ∈ places →
        fs.HasFile path → ∃ directory ∈ s.directories, DirectChild directory path :=
      fun dots mem => directChild_of_hasFile accepted plain dots mem
    refine ⟨fun path => child dots, fun fs' dots' same => ?_⟩
    refine congr fs' (firstFile_congr fun path tries content => ⟨fun found => ?_, fun found => ?_⟩)
    · obtain ⟨directory, mem, inside⟩ := child dots' tries.mem ⟨content, found⟩
      rw [← same directory mem path inside, found]
    · obtain ⟨directory, mem, inside⟩ := child dots tries.mem ⟨content, found⟩
      rw [same directory mem path inside, found]

/-- The first file is not UTF-8, and the next directory, which has another of the same
name, is not asked. -/
theorem first_file_decides_unreadable :
    let s : ModuleSearch := ⟨["none", "lib", "more/"], "eva"⟩
    let fs : FileSystem := fun path =>
      if path = "none/M.eva" then some .directory
      else if path = "lib/M.eva" then some (.file ⟨#[0xFF]⟩)
      else if path = "more/M.eva" then some (.file "1".toUTF8)
      else none
    let places := ["none/M.eva", "lib/M.eva", "more/M.eva"]
    fs.Tries places "lib/M.eva" ∧
      s.load fs "M" =
        .error (.moduleUnreadable "M" "lib/M.eva: stream did not contain valid UTF-8") ∧
      (∃ directory ∈ s.directories, DirectChild directory "lib/M.eva") ∧
      s.load fs "lib/M" =
        .error (.moduleUnreadable "lib/M" "module names cannot contain path separators") := by
  intro s fs places
  have tries : fs.Tries places "lib/M.eva" :=
    ⟨["none/M.eva"], ["more/M.eva"], rfl, by simp [HasFile, fs]⟩
  have found : fs "lib/M.eva" = some (.file ⟨#[0xFF]⟩) := rfl
  obtain ⟨-, accepted⟩ := first_file_decides s "M"
  obtain ⟨loaded, -, -, children⟩ := accepted (by decide) fs
  refine ⟨tries, (loaded _ _ tries found).trans (by cbv), ?_, ?_⟩
  · exact (children (by decide) nofun).1 _ tries.mem ⟨_, found⟩
  · exact (first_file_decides s "lib/M").1 (by decide) fs

end ModuleSearch

end ScopeLisp
