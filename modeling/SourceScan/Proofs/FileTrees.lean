import SourceScan.FileTree.Basic

/-!
# What operations leave in a file tree

An operation on files can change a tree in two ways. It makes directories where there was nothing,
or it puts a file where there is no directory. Both keep the directories of the tree
(`KeepsDirectories`), and where a path leads depends on the directories alone, so it is the same
afterwards (**`locate_mono`**).

* `Grows` is the first way: **`grows_makeDirectories`** holds whether or not all directories could
  be made.
* **`exists_of_writeBytes`** is the second: a file is written at the place that its path names.

`Names` says that a path leads to a place and may name a file there. Looking up such a path gives
what stands at the place (**`lookUp_of_names`**).
-/

namespace SourceScan.FileTree

variable {t u v : FileTree} {p : FilePath} {place other : Location}

/-- A sequence of two operations succeeds just when the first does and then the second. -/
theorem bind_eq_ok_iff {ε α β : Type} {x : Except ε α} {f : α → Except ε β} {b : β} :
    x >>= f = .ok b ↔ ∃ a, x = .ok a ∧ f a = .ok b := by
  cases x with
  | error e => exact ⟨nofun, nofun⟩
  | ok a => exact ⟨fun h => ⟨a, rfl, h⟩, fun ⟨_, rfl, h⟩ => h⟩

/-! ## Where paths lead -/

/-- Where a step from a directory leads, whatever stands there. -/
def stepFrom (place : Location) (name : String) : Except FileError Location :=
  if name = "." then .ok place
  else if name = ".." then .ok place.dropLast
  else if maxName < name.utf8ByteSize then .error .nameTooLong
  else .ok (place ++ [name])

/-- `directoryAt` returns the place itself, and only where a directory stands. -/
theorem directoryAt_eq_ok_iff :
    t.directoryAt place = .ok other ↔ t.entry? place = some .directory ∧ place = other := by
  unfold directoryAt
  split
  · next hentry => simp [hentry]
  · next hentry => simp [hentry]
  · next hentry => simp [hentry]

/-- **A step is taken in a directory,** and where it leads does not depend on the tree. -/
theorem follow_eq_ok_iff {name : String} : t.follow place name = .ok other ↔
    t.entry? place = some .directory ∧ stepFrom place name = .ok other := by
  show (t.directoryAt place >>= fun place => stepFrom place name) = .ok other ↔ _
  rw [bind_eq_ok_iff]
  constructor
  · rintro ⟨d, hd, hstep⟩
    obtain ⟨hentry, rfl⟩ := directoryAt_eq_ok_iff.1 hd
    exact ⟨hentry, hstep⟩
  · rintro ⟨hentry, hstep⟩
    exact ⟨place, directoryAt_eq_ok_iff.2 ⟨hentry, rfl⟩, hstep⟩

/-- **Where a path leads.** There need not be anything. -/
def locate (t : FileTree) (p : FilePath) : Except FileError Location := do
  p.steps.foldlM t.follow (← t.startOf p)

/-- **A path names a place** if it leads there and does not ask for a directory. -/
structure Names (t : FileTree) (p : FilePath) (place : Location) : Prop where
  locate_eq : t.locate p = .ok place
  endsInSlash_eq : p.endsInSlash = false

/-- A path that names a file finds it. -/
theorem lookUp_of_names {content : ByteArray} (h : t.Names p place)
    (hfile : t.entry? place = some (.file content)) : t.lookUp p = .ok (.file content) := by
  -- looking up goes the way of `locate`, and the path asks for no directory at the end of it
  obtain ⟨start, hstart, hplace⟩ := bind_eq_ok_iff.1 h.locate_eq
  refine bind_eq_ok_iff.2 ⟨start, hstart, bind_eq_ok_iff.2 ⟨place, hplace, ?_⟩⟩
  simp only [hfile, h.endsInSlash_eq]
  rfl

/-! ## Directories stay -/

/-- The directories of one tree are directories of another, and relative paths start in the same
place. -/
structure KeepsDirectories (t u : FileTree) : Prop where
  workingDirectory_eq : u.workingDirectory = t.workingDirectory
  keeps : ∀ place, t.entry? place = some .directory → u.entry? place = some .directory

theorem KeepsDirectories.trans (h : t.KeepsDirectories u) (h' : u.KeepsDirectories v) :
    t.KeepsDirectories v :=
  ⟨h'.workingDirectory_eq.trans h.workingDirectory_eq,
    fun place hdir => h'.keeps place (h.keeps place hdir)⟩

theorem KeepsDirectories.startOf_eq (h : t.KeepsDirectories u) (p : FilePath) :
    u.startOf p = t.startOf p := by
  rw [startOf, startOf, h.workingDirectory_eq]

/-- A step leads to the same place. -/
theorem follow_mono {name : String} (h : t.KeepsDirectories u)
    (hf : t.follow place name = .ok other) : u.follow place name = .ok other := by
  obtain ⟨hentry, hstep⟩ := follow_eq_ok_iff.1 hf
  exact follow_eq_ok_iff.2 ⟨h.keeps place hentry, hstep⟩

/-- Steps lead to the same place, by induction on them. -/
theorem foldlM_follow_mono {steps : List String} (h : t.KeepsDirectories u)
    (hf : steps.foldlM t.follow place = .ok other) : steps.foldlM u.follow place = .ok other := by
  induction steps generalizing place with
  | nil => exact hf
  | cons name steps ih =>
    rw [List.foldlM_cons, bind_eq_ok_iff] at hf ⊢
    obtain ⟨next, hnext, hrest⟩ := hf
    exact ⟨next, follow_mono h hnext, ih hrest⟩

/-- **Paths lead to where they led** as long as no directory is lost. -/
theorem locate_mono (h : t.KeepsDirectories u) (hl : t.locate p = .ok place) :
    u.locate p = .ok place := by
  obtain ⟨start, hstart, hplace⟩ := bind_eq_ok_iff.1 hl
  exact bind_eq_ok_iff.2 ⟨start, (h.startOf_eq p).trans hstart, foldlM_follow_mono h hplace⟩

/-- A path names the place that it named. -/
theorem Names.mono (h : t.KeepsDirectories u) (hn : t.Names p place) : u.Names p place :=
  ⟨locate_mono h hn.locate_eq, hn.endsInSlash_eq⟩

/-! ## Something else at one place -/

@[simp]
theorem entry?_set_self (t : FileTree) (place : Location) (entry : FileEntry) :
    entry? (t.set place entry) place = some entry := if_pos rfl

theorem entry?_set_of_ne {entry : FileEntry} (h : other ≠ place) :
    entry? (t.set place entry) other = t.entry? other := if_neg h

/-- A file can be put anywhere but in the place of a directory. -/
theorem keepsDirectories_set {content : ByteArray} (h : t.entry? place ≠ some .directory) :
    t.KeepsDirectories (t.set place (.file content)) := by
  refine ⟨rfl, fun other hother => ?_⟩
  have hne : other ≠ place := by
    rintro rfl
    exact h hother
  rw [entry?_set_of_ne hne, hother]

/-! ## Growing -/

/-- **A tree grows** when directories come up where there was nothing. All else is as it was. -/
structure Grows (t u : FileTree) : Prop where
  workingDirectory_eq : u.workingDirectory = t.workingDirectory
  entry_eq : ∀ place, u.entry? place = t.entry? place ∨
    t.entry? place = none ∧ u.entry? place = some .directory

namespace Grows

/-- A tree that stays as it is grows by nothing. -/
theorem refl (t : FileTree) : t.Grows t := ⟨rfl, fun _ => .inl rfl⟩

/-- A directory that comes up stays when others do. -/
theorem trans (h : t.Grows u) (h' : u.Grows v) : t.Grows v := by
  refine ⟨h'.workingDirectory_eq.trans h.workingDirectory_eq, fun place => ?_⟩
  rcases h'.entry_eq place with hsame | ⟨hnone, hdir⟩
  · rw [hsame]
    exact h.entry_eq place
  · rcases h.entry_eq place with hsame | ⟨-, hthere⟩
    · exact .inr ⟨hsame ▸ hnone, hdir⟩
    · rw [hnone] at hthere
      cases hthere

/-- What comes up takes the place of nothing. -/
theorem keepsDirectories (h : t.Grows u) : t.KeepsDirectories u := by
  refine ⟨h.workingDirectory_eq, fun place hdir => ?_⟩
  rcases h.entry_eq place with hsame | ⟨hnone, -⟩
  · rw [hsame, hdir]
  · rw [hnone] at hdir
    cases hdir

/-- What comes up are no files. -/
theorem file_iff (h : t.Grows u) (place : Location) (content : ByteArray) :
    u.entry? place = some (.file content) ↔ t.entry? place = some (.file content) := by
  rcases h.entry_eq place with hsame | ⟨hnone, hdir⟩
  · rw [hsame]
  · rw [hnone, hdir]
    exact ⟨nofun, nofun⟩

end Grows

/-- A tree grows by a directory. -/
theorem grows_set (h : t.entry? place = none) : t.Grows (t.set place .directory) := by
  refine ⟨rfl, fun other => ?_⟩
  by_cases hother : other = place
  · subst hother
    exact .inr ⟨h, entry?_set_self t other .directory⟩
  · exact .inl (entry?_set_of_ne hother)

/-- A directory is made where there is nothing: anything there is an error. -/
theorem grows_of_makeDirectory (h : t.makeDirectory p = .ok u) : t.Grows u := by
  obtain ⟨⟨directory, name?⟩, -, hmade⟩ := bind_eq_ok_iff.1 h
  cases name? with
  | none => cases hmade
  | some name =>
    obtain ⟨place, -, hset⟩ := bind_eq_ok_iff.1 hmade
    cases hentry : t.entry? place with
    | some entry =>
      simp only [hentry] at hset
      cases hset
    | none =>
      simp only [hentry] at hset
      cases hset
      exact grows_set hentry

/-- A directory that is there already is left as it is. -/
theorem grows_of_ensureDirectory (h : t.ensureDirectory p = .ok u) : t.Grows u := by
  unfold ensureDirectory at h
  split at h
  · next hmade =>
    cases h
    exact grows_of_makeDirectory hmade
  · split at h
    · cases h
      exact .refl t
    · cases h

/-- **Making directories lets a tree grow,** as far as it gets. The induction follows
`makeDirectories` to the directories above. -/
theorem grows_makeDirectories (t : FileTree) (p : FilePath) : t.Grows (t.makeDirectories p).1 := by
  fun_induction makeDirectories t p with
  | case1 => exact .refl t
  -- the directory itself can be made at once
  | case2 p _ made hmade => exact grows_of_ensureDirectory hmade
  | case3 => exact .refl t
  -- those above it could not all be made
  | case4 p _ _ above _ made e habove ih =>
    rw [habove] at ih
    exact ih
  -- they were made, and then the directory itself is, or is not
  | case5 p _ _ above _ made habove last hlast ih =>
    rw [habove] at ih
    exact ih.trans (grows_of_ensureDirectory hlast)
  | case6 p _ _ above _ made habove e _ ih =>
    rw [habove] at ih
    exact ih
  | case7 => exact .refl t

/-! ## Writing -/

/-- The directory of the last step, and where that step leads from it, is where the path leads. -/
theorem locate_of_lookUpLast {directory : Location} {name : String}
    (h : t.lookUpLast p = .ok (directory, some name))
    (hplace : t.follow directory name = .ok place) : t.locate p = .ok place := by
  obtain ⟨start, hstart, h⟩ := bind_eq_ok_iff.1 h
  obtain ⟨way, hway, h⟩ := bind_eq_ok_iff.1 h
  obtain ⟨d, hd, h⟩ := bind_eq_ok_iff.1 h
  obtain ⟨-, rfl⟩ := directoryAt_eq_ok_iff.1 hd
  obtain ⟨rfl, hname⟩ := Prod.mk.inj (Except.ok.inj h)
  -- the path leads along all steps but the last, and from there along that one
  have hsteps : p.steps = p.steps.dropLast ++ [name] := by
    obtain ⟨hlast, -⟩ := Option.filter_eq_some_iff.1 hname
    obtain ⟨before, hbefore⟩ := List.getLast?_eq_some_iff.1 hlast
    rw [hbefore, List.dropLast_concat]
  refine bind_eq_ok_iff.2 ⟨start, hstart, ?_⟩
  rw [hsteps, List.foldlM_append]
  refine bind_eq_ok_iff.2 ⟨way, hway, ?_⟩
  rw [List.foldlM_cons]
  exact bind_eq_ok_iff.2 ⟨place, hplace, rfl⟩

/-- **A file is written where its path leads,** and not in the place of a directory. -/
theorem exists_of_writeBytes {content : ByteArray} (h : t.writeBytes p content = .ok u) :
    ∃ place, t.Names p place ∧ t.entry? place ≠ some .directory ∧
      u = t.set place (.file content) := by
  obtain ⟨⟨directory, name?⟩, hlast, hwritten⟩ := bind_eq_ok_iff.1 h
  cases name? with
  -- without a last name, or with a slash behind it, the path can only mean a directory
  | none => cases hwritten
  | some name =>
    cases hslash : p.endsInSlash with
    | true =>
      simp only [hslash] at hwritten
      cases hwritten
    | false =>
      simp only [hslash] at hwritten
      obtain ⟨place, hplace, hset⟩ := bind_eq_ok_iff.1 hwritten
      refine ⟨place, ⟨locate_of_lookUpLast hlast hplace, hslash⟩, ?_, ?_⟩
      · intro hdir
        simp only [hdir] at hset
        cases hset
      · split at hset
        · cases hset
        · cases hset
          rfl

end SourceScan.FileTree
