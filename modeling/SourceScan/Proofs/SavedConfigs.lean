import SourceScan.Proofs.Decoding
import SourceScan.Proofs.FileTrees

/-!
# Configurations that were saved

A configuration that was saved is what is loaded from then on, until another is saved to the same
file. What else happens in between does not matter: loads, saves to other files, saves that fail on
the way, and directories that come up.

This holds of every `Codec` that `RoundTrips`. Its `encode` may fail, which is one more way for a
save to end early.

* **`save_cases`** is the one lemma that looks into `Codec.save`: the directories above the file let
  the tree grow, and then the file is put where its path leads, or nothing more is done.
* **`load_of_stores`**: whoever names the place of a file that `Stores` a configuration loads it.
* **`Stores.run`** and **`Stores.after`**: the file stays as it is through one `Access`, and through
  any number of them, if they spare its place.
-/

namespace SourceScan.Config

open FileTree

variable {k : Codec}

/-! ## Histories -/

/-- **One use of stored configurations.** -/
inductive Access where
  | save (p : FilePath) (c : Config)
  | load (p : FilePath)
  | loadOrDefault (directory : FilePath)

/-- What an access comes back with. -/
inductive Answer where
  | saved (result : Except ConfigError Unit)
  | loaded (l : Loaded)

section Histories

variable (k : Codec)

/-- The tree that an access leaves behind, and the answer. -/
def Access.run (t : FileTree) : Access → FileTree × Answer
  | save p c => ((k.save t p c).1, .saved (k.save t p c).2)
  | load p => (t, .loaded (k.load t p))
  | loadOrDefault directory => (t, .loaded (k.loadOrDefault t directory))

/-- The tree after a history of accesses. -/
def after (t : FileTree) (accesses : List Access) : FileTree :=
  accesses.foldl (fun t access => (access.run k t).1) t

/-- No access of a history saves to a place. Saves to it that fail may occur. -/
def Spares (place : Location) : FileTree → List Access → Prop
  | _, [] => True
  | t, access :: others =>
    (∀ p c, access = .save p c → (access.run k t).2 = .saved (.ok ()) →
      ¬ (access.run k t).1.Names p place) ∧ Spares place (access.run k t).1 others

end Histories

/-! ## Writing and reading -/

variable {t u : FileTree} {p : FilePath} {place : Location} {c : Config}

/-- A text of a configuration is what stands in a place of a tree. -/
def Stores (k : Codec) (t : FileTree) (place : Location) (c : Config) : Prop :=
  ∃ text, k.encode c = .ok text ∧ t.entry? place = some (.file text.toUTF8)

theorem fromUTF8?_toUTF8 (s : String) : String.fromUTF8? s.toUTF8 = some s := by
  rw [String.fromUTF8?, String.toUTF8_eq_toByteArray, dif_pos s.isValidUTF8]
  rfl

/-- **Whoever names the place of a configuration reads it.** -/
theorem load_of_stores (hk : k.RoundTrips) (hn : t.Names p place) (hs : Stores k t place c) :
    (k.load t p).result = .ok c := by
  obtain ⟨text, hencoded, hentry⟩ := hs
  have hlook := lookUp_of_names hn hentry
  have hread : k.read t p = .ok c := by
    have hpath : t.hasPath p = true := by rw [hasPath, hlook]; rfl
    have htext : t.readText p = .ok text := by
      refine bind_eq_ok_iff.2 ⟨_, hlook, ?_⟩
      simp only [fromUTF8?_toUTF8]
      rfl
    rw [Codec.read, if_pos hpath, htext]
    -- what was written is decoded as what it was written for
    show (k.decode text).mapError ConfigError.parse = .ok c
    rw [hk c text hencoded]
    rfl
  rw [Codec.load, hread]

/-- Loading says that a file is not there just when it cannot be looked up. -/
theorem load_of_not_hasPath (h : t.hasPath p = false) :
    k.load t p = ⟨.error (.notFound p.text), []⟩ := by
  simp [Codec.load, Codec.read, h]

theorem load_ne_notFound (h : t.hasPath p = true) (path : String) :
    (k.load t p).result ≠ .error (.notFound path) := by
  have hread : k.read t p ≠ .error (.notFound path) := by
    rw [Codec.read, if_pos h]
    -- reading fails with `io` and decoding with `parse`
    cases t.readText p with
    | error cause => nofun
    | ok text =>
      show (k.decode text).mapError ConfigError.parse ≠ _
      cases k.decode text with
      | error cause => nofun
      | ok c => nofun
  simp only [Codec.load]
  cases hr : k.read t p with
  | error e =>
    rintro ⟨⟩
    exact hread hr
  | ok c => nofun

/-- **A directory's configuration** is the default if the file cannot be looked up. Otherwise it is
whatever comes of loading the file, an error included. -/
theorem loadOrDefault_cases (k : Codec) (t : FileTree) (directory : FilePath) :
    (t.hasPath (directory.join fileName) = false ∧ (k.loadOrDefault t directory).result = .ok {}) ∨
    (t.hasPath (directory.join fileName) = true ∧
      k.loadOrDefault t directory = k.load t (directory.join fileName)) := by
  cases h : t.hasPath (directory.join fileName) with
  | false =>
    refine .inl ⟨rfl, ?_⟩
    simp only [Codec.loadOrDefault, load_of_not_hasPath h]
  | true =>
    refine .inr ⟨rfl, ?_⟩
    simp only [Codec.loadOrDefault]
    split
    · next path hresult => exact absurd hresult (load_ne_notFound h path)
    · rfl

theorem grows_makeAbove (t : FileTree) (p : FilePath) : t.Grows (Codec.makeAbove t p).1 := by
  unfold Codec.makeAbove
  split
  · next above _ => exact grows_makeDirectories t above
  · exact .refl t

/-- A file that could be written holds a text of the configuration, at the place its path names. -/
theorem exists_of_writeFile (h : k.writeFile t p c = .ok u) :
    ∃ place text, t.Names p place ∧ t.entry? place ≠ some .directory ∧ k.encode c = .ok text ∧
      u = t.set place (.file text.toUTF8) := by
  obtain ⟨text, htext, hwritten⟩ := bind_eq_ok_iff.1 h
  have hencoded : k.encode c = .ok text := Codec.mapError_eq_ok_iff.1 htext
  obtain ⟨place, hnames, hentry, rfl⟩ := exists_of_writeBytes (Codec.mapError_eq_ok_iff.1 hwritten)
  exact ⟨place, text, hnames, hentry, hencoded, rfl⟩

/-- **What a save does.** It lets the tree grow. Then it puts a text of the configuration where the
path leads, or it does nothing more. -/
theorem save_cases (k : Codec) (t : FileTree) (p : FilePath) (c : Config) :
    (∃ e, (k.save t p c).2 = .error e ∧ t.Grows (k.save t p c).1) ∨
    ((k.save t p c).2 = .ok () ∧ ∃ grown place text, t.Grows grown ∧ grown.Names p place ∧
      grown.entry? place ≠ some .directory ∧ k.encode c = .ok text ∧
      (k.save t p c).1 = grown.set place (.file text.toUTF8)) := by
  have hgrows := grows_makeAbove t p
  unfold Codec.save
  generalize Codec.makeAbove t p = begun at hgrows ⊢
  obtain ⟨grown, made⟩ := begun
  cases made with
  | error e => exact .inl ⟨e, rfl, hgrows⟩
  | ok _ =>
    cases hwritten : k.writeFile grown p c with
    | error e =>
      -- the text could not be made or not be written, and the directories are all that came up
      refine .inl ⟨e, ?_, ?_⟩
      · simp only [hwritten]
      · simpa only [hwritten] using hgrows
    | ok u =>
      obtain ⟨place, text, hnames, hentry, hencoded, rfl⟩ := exists_of_writeFile hwritten
      refine .inr ⟨?_, grown, place, text, hgrows, hnames, hentry, hencoded, ?_⟩
      · simp only [hwritten]
      · simp only [hwritten]

/-- **The working directory can be given a configuration** if it is there, and if no directory has
the name of the file. -/
theorem save_fileName {text : String} (hencoded : k.encode c = .ok text)
    (hdir : t.entry? t.workingDirectory = some .directory)
    (hfree : t.entry? (t.workingDirectory ++ [fileName]) ≠ some .directory) :
    (k.save t ⟨fileName, []⟩ c).2 = .ok () := by
  have habove : Codec.makeAbove t ⟨fileName, []⟩ = (t, .ok ()) := by
    have hparent : (FilePath.mk fileName []).parent? = some .empty := by decide +kernel
    simp only [Codec.makeAbove, hparent]
    rw [makeDirectories, if_pos rfl]
    rfl
  -- the path has one step, which starts in the working directory
  have hstart : t.startOf ⟨fileName, []⟩ = .ok t.workingDirectory := by
    rw [startOf, String.contains_char_eq]
    rfl
  have hlast : t.lookUpLast ⟨fileName, []⟩ = .ok (t.workingDirectory, some fileName) :=
    bind_eq_ok_iff.2 ⟨_, hstart, bind_eq_ok_iff.2 ⟨_, rfl,
      bind_eq_ok_iff.2 ⟨_, directoryAt_eq_ok_iff.2 ⟨hdir, rfl⟩, rfl⟩⟩⟩
  have hplace : t.follow t.workingDirectory fileName = .ok (t.workingDirectory ++ [fileName]) :=
    follow_eq_ok_iff.2 ⟨hdir, rfl⟩
  have hbytes : t.writeText ⟨fileName, []⟩ text =
      .ok (t.set (t.workingDirectory ++ [fileName]) (.file text.toUTF8)) := by
    refine bind_eq_ok_iff.2 ⟨_, hlast, bind_eq_ok_iff.2 ⟨_, hplace, ?_⟩⟩
    split
    · next hentry => exact absurd hentry hfree
    · rfl
  have hwritten : k.writeFile t ⟨fileName, []⟩ c =
      .ok (t.set (t.workingDirectory ++ [fileName]) (.file text.toUTF8)) :=
    bind_eq_ok_iff.2 ⟨text, Codec.mapError_eq_ok_iff.2 hencoded, Codec.mapError_eq_ok_iff.2 hbytes⟩
  simp only [Codec.save, habove, hwritten]

/-! ## What lasts -/

/-- No access loses a directory. -/
theorem keepsDirectories_run (k : Codec) (t : FileTree) (access : Access) :
    t.KeepsDirectories (access.run k t).1 := by
  cases access with
  | save p c =>
    rcases save_cases k t p c with
      ⟨_, -, hgrows⟩ | ⟨-, grown, place, _, hgrows, -, hentry, -, htree⟩
    · exact hgrows.keepsDirectories
    · show t.KeepsDirectories (k.save t p c).1
      rw [htree]
      exact hgrows.keepsDirectories.trans (keepsDirectories_set hentry)
  | load p | loadOrDefault directory => exact ⟨rfl, fun _ => id⟩

/-- What a successful save leaves: the configuration in the place that the path names, and all other
files as they were. -/
theorem stores_save (h : (k.save t p c).2 = .ok ()) : ∃ place, (k.save t p c).1.Names p place ∧
    Stores k (k.save t p c).1 place c ∧ ∀ other, other ≠ place → ∀ content,
      entry? (k.save t p c).1 other = some (.file content) ↔
        t.entry? other = some (.file content) := by
  rcases save_cases k t p c with
    ⟨_, hfailed, -⟩ | ⟨-, grown, place, text, hgrows, hnames, hentry, hencoded, htree⟩
  · rw [hfailed] at h
    cases h
  · rw [htree]
    -- the path still leads to the place, since putting a file there took no directory away
    refine ⟨place, hnames.mono (keepsDirectories_set hentry),
      ⟨text, hencoded, entry?_set_self ..⟩, ?_⟩
    intro other hother content
    rw [entry?_set_of_ne hother, hgrows.file_iff]

/-- A save that fails leaves all files as they were. -/
theorem grows_save {e : ConfigError} (h : (k.save t p c).2 = .error e) :
    t.Grows (k.save t p c).1 := by
  rcases save_cases k t p c with ⟨_, -, hgrows⟩ | ⟨hsaved, -⟩
  · exact hgrows
  · rw [hsaved] at h
    cases h

/-- **What is stored stays** through every access that does not save to its place. -/
theorem Stores.run {access : Access} (hs : Stores k t place c)
    (hspares : ∀ q d, access = .save q d → (access.run k t).2 = .saved (.ok ()) →
      ¬ (access.run k t).1.Names q place) : Stores k (access.run k t).1 place c := by
  obtain ⟨text, hencoded, hfile⟩ := hs
  refine ⟨text, hencoded, ?_⟩
  cases access with
  | load p | loadOrDefault directory => exact hfile
  | save q d =>
    show entry? (k.save t q d).1 place = _
    cases hresult : (k.save t q d).2 with
    | error e => exact ((grows_save hresult).file_iff place _).2 hfile
    | ok _ =>
      obtain ⟨other, hnames, -, hothers⟩ := stores_save hresult
      -- the save went to some other place
      have hne : place ≠ other := by
        rintro rfl
        exact hspares q d rfl (congrArg Answer.saved hresult) hnames
      exact (hothers place hne _).2 hfile

/-- The induction is on the accesses that follow, the first of them first. -/
theorem Stores.after {later : List Access} (hs : Stores k t place c)
    (hspares : Spares k place t later) :
    t.KeepsDirectories (after k t later) ∧ Stores k (after k t later) place c := by
  induction later generalizing t with
  | nil => exact ⟨⟨rfl, fun _ => id⟩, hs⟩
  | cons access later ih =>
    obtain ⟨hkeep, hstores⟩ := ih (hs.run hspares.1) hspares.2
    exact ⟨(keepsDirectories_run k t access).trans hkeep, hstores⟩

theorem loadOrDefault_of_stores {directory : FilePath} (hk : k.RoundTrips)
    (hn : t.Names (directory.join fileName) place) (hs : Stores k t place c) :
    (k.loadOrDefault t directory).result = .ok c := by
  rcases loadOrDefault_cases k t directory with ⟨hmissing, -⟩ | ⟨-, hload⟩
  · obtain ⟨_, -, hfile⟩ := hs
    rw [hasPath, lookUp_of_names hn hfile] at hmissing
    cases hmissing
  · rw [hload]
    exact load_of_stores hk hn hs

/-- **Saved configurations last, and failures corrupt nothing.** Let a codec satisfy
`Codec.RoundTrips`, and take the tree after any history of `Access`es. `Codec.load` and
`Codec.loadOrDefault` leave it as it is. A `Codec.save` that succeeds changes one file, in the place
that its path `Names`. Until an access saves to that place again (`Spares`), `Codec.load` gives the
configuration for every path that names the place, and `Codec.loadOrDefault` for every directory
whose `yatl.toml` does. A save that fails makes directories at most (`FileTree.Grows`). And
`Codec.loadOrDefault` gives the default only where the file cannot be looked up; otherwise it is
`Codec.load`, with whatever error this ends in. -/
theorem saved_configurations_last (k : Codec) (hk : k.RoundTrips) (start : FileTree)
    (history : List Access) :
    let t := after k start history
    (∀ p, ((Access.load p).run k t).1 = t) ∧
    (∀ directory, ((Access.loadOrDefault directory).run k t).1 = t) ∧
    (∀ p c, (k.save t p c).2 = .ok () → ∃ place, (k.save t p c).1.Names p place ∧
      (∀ other, other ≠ place → ∀ content,
        entry? (k.save t p c).1 other = some (.file content) ↔
          t.entry? other = some (.file content)) ∧
      ∀ later, Spares k place (k.save t p c).1 later →
        let u := after k (k.save t p c).1 later
        u.Names p place ∧ (∀ q, u.Names q place → (k.load u q).result = .ok c) ∧
          ∀ directory, u.Names (directory.join fileName) place →
            (k.loadOrDefault u directory).result = .ok c) ∧
    (∀ p c e, (k.save t p c).2 = .error e → t.Grows (k.save t p c).1 ∧ ∀ place content,
      entry? (k.save t p c).1 place = some (.file content) ↔ t.entry? place = some (.file content)) ∧
    ∀ directory,
      (t.hasPath (directory.join fileName) = false →
        (k.loadOrDefault t directory).result = .ok {}) ∧
      (t.hasPath (directory.join fileName) = true →
        k.loadOrDefault t directory = k.load t (directory.join fileName) ∧
          ∀ path, (k.load t (directory.join fileName)).result ≠ .error (.notFound path)) := by
  intro t
  refine ⟨fun p => rfl, fun directory => rfl, ?_, ?_, ?_⟩
  · intro p c hsaved
    obtain ⟨place, hnames, hstores, hothers⟩ := stores_save hsaved
    refine ⟨place, hnames, hothers, fun later hspares => ?_⟩
    obtain ⟨hkeep, hlast⟩ := hstores.after hspares
    exact ⟨hnames.mono hkeep, fun q hq => load_of_stores hk hq hlast,
      fun directory hd => loadOrDefault_of_stores hk hd hlast⟩
  · intro p c e hfailed
    have hgrows := grows_save hfailed
    exact ⟨hgrows, hgrows.file_iff⟩
  · intro directory
    rcases loadOrDefault_cases k t directory with ⟨hmissing, hdefault⟩ | ⟨hthere, hload⟩
    · exact ⟨fun _ => hdefault, fun hthere => absurd (hmissing.symm.trans hthere) nofun⟩
    · exact ⟨fun hmissing => absurd (hthere.symm.trans hmissing) nofun,
        fun _ => ⟨hload, load_ne_notFound hthere⟩⟩

/-- In an empty directory a configuration can be saved with `Codec.standard`, and it is loaded from
then on, by the name of its file and as that of the directory. -/
theorem saved_configurations_last_bare :
    let k := Codec.standard
    let file : FilePath := ⟨fileName, []⟩
    let c : Config := ⟨⟨true, true⟩⟩
    let saved := k.save (after k (.bare []) [.loadOrDefault .empty]) file c
    let u := after k saved.1 [.load file]
    k.RoundTrips ∧ saved.2 = .ok () ∧ (k.load u file).result = .ok c ∧
      (k.loadOrDefault u .empty).result = .ok c := by
  intro k file c saved u
  have hsaved : saved.2 = .ok () := save_fileName rfl rfl nofun
  obtain ⟨-, -, hsaves, -⟩ :=
    saved_configurations_last k Codec.standard_roundTrips (.bare []) [.loadOrDefault .empty]
  obtain ⟨place, -, -, hlast⟩ := hsaves file c hsaved
  obtain ⟨hnames, hload, hdefault⟩ := hlast [.load file] ⟨nofun, trivial⟩
  exact ⟨Codec.standard_roundTrips, hsaved, hload file hnames, hdefault .empty hnames⟩

end SourceScan.Config
