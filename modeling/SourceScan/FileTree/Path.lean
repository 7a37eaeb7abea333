/-!
# Paths

A path is a text cut at its slashes. It is printed as it was given. What it names is decided by
its steps, which are the pieces that are not empty; `.` and `..` are steps like any other. The
path that holds it, `parent?`, is found without looking at any files.
-/

namespace SourceScan

/-- **A path,** cut at its slashes: `a//b/` has the pieces `a`, nothing, `b`, nothing. -/
structure FilePath where
  first : String
  more : List String
deriving DecidableEq, Inhabited

namespace FilePath

/-- The pieces of a text between its slashes. -/
def pieces : List Char → List Char × List (List Char)
  | [] => ([], [])
  | c :: rest =>
    let (piece, more) := pieces rest
    if c = '/' then ([], piece :: more) else (c :: piece, more)

/-- The path that a text names. -/
def ofString (text : String) : FilePath :=
  let (first, more) := pieces text.toList
  ⟨String.ofList first, more.map String.ofList⟩

def text (p : FilePath) : String := "/".intercalate (p.first :: p.more)

instance : ToString FilePath := ⟨text⟩

def empty : FilePath := ⟨"", []⟩

def isAbsolute (p : FilePath) : Bool := p.first.isEmpty && !p.more.isEmpty

/-- The path ends in a slash, so it can only name a directory. -/
def endsInSlash (p : FilePath) : Bool := p.more.getLast?.any String.isEmpty

/-- **The steps of a path.** -/
def steps (p : FilePath) : List String := (p.first :: p.more).filter (!·.isEmpty)

/-- Goes on from a directory to a name in it. -/
def join (p : FilePath) (name : String) : FilePath :=
  if p = empty then ⟨name, []⟩
  else if p.endsInSlash then ⟨p.first, p.more.dropLast ++ [name]⟩
  else ⟨p.first, p.more ++ [name]⟩

/-! ## The path above -/

/-- A piece that leads nowhere. -/
def isIdle (piece : String) : Bool := piece.isEmpty || piece == "."

/-- What remains of some pieces when the last one that leads anywhere is dropped, together with
the idle ones next to it. -/
def withoutLast? (more : List String) : Option (List String) :=
  match more.reverse.dropWhile isIdle with
  | [] => none
  | _ :: before => some (before.dropWhile isIdle).reverse

/-- **The path that holds another.** It is empty for a single name. The root and the empty path
have none. -/
def parent? (p : FilePath) : Option FilePath :=
  match withoutLast? p.more with
  | some [] => if p.first.isEmpty then some ⟨"", [""]⟩ else some ⟨p.first, []⟩
  | some more => some ⟨p.first, more⟩
  | none => if p.first.isEmpty then none else some empty

/-- The pieces that lead anywhere. On the way up there is one less each time. -/
def depth (p : FilePath) : Nat :=
  p.more.countP (!isIdle ·) + if p.first.isEmpty then 0 else 1

theorem countP_dropWhile_isIdle (pieces : List String) :
    (pieces.dropWhile isIdle).countP (!isIdle ·) = pieces.countP (!isIdle ·) := by
  induction pieces with
  | nil => rfl
  | cons piece pieces ih => cases h : isIdle piece <;> simp [List.dropWhile, h, ih]

theorem countP_withoutLast? {more rest : List String} (h : withoutLast? more = some rest) :
    rest.countP (!isIdle ·) + 1 = more.countP (!isIdle ·) := by
  have hc := countP_dropWhile_isIdle more.reverse
  rw [List.countP_reverse] at hc
  unfold withoutLast? at h
  split at h
  · cases h
  · next last before hd =>
    injection h with h
    have hl : isIdle last = false := by
      have := List.head?_dropWhile_not isIdle more.reverse
      rw [hd] at this
      simpa using this
    rw [← hc, hd, ← h, List.countP_reverse, countP_dropWhile_isIdle,
      List.countP_cons_of_pos (by simp [hl])]

theorem depth_lt_of_parent? {p q : FilePath} (h : p.parent? = some q) : q.depth < p.depth := by
  unfold parent? at h
  split at h
  · next hw =>
    have hc := countP_withoutLast? hw
    rw [List.countP_nil] at hc
    split at h
    · injection h with h; subst h
      have : (FilePath.mk "" [""]).depth = 0 := by decide
      simp only [depth] at this ⊢; omega
    · next hf =>
      injection h with h; subst h
      simp only [depth, List.countP_nil]; omega
  · next more _ hw =>
    have hc := countP_withoutLast? hw
    injection h with h; subst h
    simp only [depth]; omega
  · split at h
    · cases h
    · next hf =>
      injection h with h; subst h
      have : empty.depth = 0 := by decide
      simp only [depth, if_neg hf] at this ⊢; omega

end FilePath

end SourceScan
