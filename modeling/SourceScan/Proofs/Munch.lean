import SourceScan.Proofs.Grammar

/-!
# Maximal munch

The rule by which a grammar cuts a text into pieces: take the longest prefix that belongs to some
class, and begin again behind it. Of two classes with the same longest prefix, `other` yields.

`Munches ahead p` says that `p` is what is taken from the front of `ahead`, with every competing
prefix of every length in the statement. `Lexes text pieces` repeats it through a whole text. Both
are relations, and neither says how the longest prefix is found.

* **`munches_iff`** finds it: whether `p` is the longest prefix depends on `p` itself and on at most
  two characters behind it, as `Piece.Ends` spells out class by class. **`Piece.ends_cons`** and
  **`Piece.Ends.append`** tell what else may stand there.
* **`Munches.unique`**, **`Lexes.unique`**: there is one way to cut a text.
-/

namespace SourceScan

/-- A stretch of source with the class it was taken for. -/
structure Piece where
  rule : Rule
  text : List Char
deriving DecidableEq

namespace Piece

/-- A piece belongs to its class, and stands as a stray character only if it is nothing else. -/
structure Proper (p : Piece) : Prop where
  matched : p.rule.Matches p.text
  lastResort : p.rule = .other → ∀ rule : Rule, rule.Matches p.text → rule = .other

theorem proper_word {kind : TokenKind} {text : List Char} (h : kind.Spells text) :
    Proper ⟨.word kind, text⟩ := ⟨h, nofun⟩

/-- **What must not follow a piece** for it to end where it does. -/
def Ends (p : Piece) (after : List Char) : Prop :=
  match p.rule with
  | .word .number =>
    after.head?.any Char.isDigit = false ∧
      ('.' ∉ p.text → after.head? = some '.' → after.tail.head?.any Char.isDigit = false)
  | .word .string => True
  | .word kind =>
    (kind.withEqual?.isSome = true → after.head? ≠ some '=') ∧
      (kind = .slash → after.head? ≠ some '/')
  | .comment => after = [] ∨ after.head? = some '\n'
  | .openString => after = []
  | .blank => True
  | .other => True

/-- `Ends` for a mark or operator. -/
theorem ends_mark {kind : TokenKind} {text after : List Char} (h : kind.isLiteral = false) :
    Ends ⟨.word kind, text⟩ after ↔ (kind.withEqual?.isSome = true → after.head? ≠ some '=') ∧
      (kind = .slash → after.head? ≠ some '/') := by
  cases kind with
  | string | number => cases h
  | _ => exact Iff.rfl

/-- Every piece ends at the end of the text. -/
theorem ends_nil (p : Piece) : p.Ends [] := by
  obtain ⟨rule, text⟩ := p
  cases rule with
  | word kind =>
    rcases kind.literal_cases with rfl | rfl | hkind
    · exact ⟨rfl, nofun⟩
    · trivial
    · exact (ends_mark hkind).2 ⟨nofun, nofun⟩
  | comment => exact .inl rfl
  | openString => rfl
  | blank | other => trivial

/-- **What a piece looks for behind itself:** a digit or a point, `=`, a second slash if it is one
slash, and anything but a newline if it is a comment. In front of another character it ends. -/
theorem ends_cons {p : Piece} {x : Char} {more : List Char} (hopen : p.rule ≠ .openString)
    (hdigit : x.isDigit = false) (hpoint : x ≠ '.') (hequal : x ≠ '=')
    (hslash : p.rule = .word .slash → x ≠ '/') (hcomment : p.rule = .comment → x = '\n') :
    p.Ends (x :: more) := by
  obtain ⟨rule, text⟩ := p
  cases rule with
  | word kind =>
    rcases kind.literal_cases with rfl | rfl | hkind
    · refine ⟨by simpa using hdigit, fun _ hx => ?_⟩
      exact absurd (Option.some.inj hx) hpoint
    · trivial
    · refine (ends_mark hkind).2 ⟨fun _ hx => hequal (Option.some.inj hx), fun hk hx => ?_⟩
      exact hslash (congrArg Rule.word hk) (Option.some.inj hx)
  | comment => exact .inr (congrArg some (hcomment rfl))
  | openString => exact absurd rfl hopen
  | blank | other => trivial

/-- What follows at the end of a text matters only to the piece that stands there, and to a number
with a point behind it. -/
theorem Ends.append {p : Piece} {after more : List Char} (h : p.Ends after)
    (hopen : p.rule ≠ .openString) (hlast : after = [] → p.Ends more)
    (hmore : more.head?.any Char.isDigit = false) : p.Ends (after ++ more) := by
  cases after with
  | nil => exact hlast rfl
  | cons x after =>
    obtain ⟨rule, text⟩ := p
    cases rule with
    | word kind =>
      rcases kind.literal_cases with rfl | rfl | hkind
      · refine ⟨h.1, fun hno hx => ?_⟩
        -- behind the point stands what stood there, or else the first character of what is added
        cases after with
        | nil => exact hmore
        | cons y after => exact h.2 hno hx
      · trivial
      · have hmark := (ends_mark hkind).1 h
        exact (ends_mark hkind).2 hmark
    | comment => exact .inr (h.resolve_left (List.cons_ne_nil x after))
    | openString => exact absurd rfl hopen
    | blank | other => trivial

end Piece

/-- **The longest match.** `p` is a prefix of what lies ahead, no prefix that belongs to a class is
longer, and `other` is only taken when nothing else is as long. -/
structure Munches (ahead : List Char) (p : Piece) : Prop extends p.Proper where
  taken : p.text <+: ahead
  longest : ∀ (rule : Rule) (text : List Char),
    rule.Matches text → text <+: ahead → text.length ≤ p.text.length

/-- **Cutting a text into pieces,** each the longest match of what is left. -/
inductive Lexes : List Char → List Piece → Prop where
  | nil : Lexes [] []
  | cons {text after : List Char} {p : Piece} {pieces : List Piece} (cut : text = p.text ++ after)
      (first : Munches text p) (others : Lexes after pieces) : Lexes text (p :: pieces)

/-! ## One bound per class

That a piece is the longest match is a bound on the length of every competitor. The first character
of the piece says which classes compete; within its own class a competitor would have to go on
where `Piece.Ends` forbids it. -/

/-- A prefix without `a` does not reach across an `a`. -/
theorem length_le_of_not_mem {a : Char} {text body after : List Char} (ha : a ∉ text)
    (h : text <+: body ++ a :: after) : text.length ≤ body.length := by
  obtain ⟨rest, heq⟩ := h
  rcases List.append_eq_append_iff.1 heq with ⟨extra, rfl, -⟩ | ⟨extra, rfl, htail⟩
  · simp
  · cases extra with
    | nil => simp
    | cons b extra =>
      cases htail
      simp at ha

/-- A prefix is inside the piece, or it is the piece and some of what follows. -/
theorem isPrefix_append_cases {text body after : List Char} (h : text <+: body ++ after) :
    text.length ≤ body.length ∨ ∃ c more, text = body ++ c :: more ∧ c :: more <+: after := by
  obtain ⟨rest, heq⟩ := h
  rcases List.append_eq_append_iff.1 heq with ⟨extra, rfl, -⟩ | ⟨extra, rfl, htail⟩
  · exact .inl (by simp)
  · cases extra with
    | nil => exact .inl (by simp)
    | cons c more => exact .inr ⟨c, more, rfl, rest, htail.symm⟩

/-- What a prefix says about the text that it is a prefix of. -/
theorem head?_of_isPrefix {c : Char} {more after : List Char} (h : c :: more <+: after) :
    after.head? = some c ∧ more <+: after.tail := by
  obtain ⟨rest, rfl⟩ := h
  exact ⟨rfl, rest, rfl⟩

section Bounds

variable {rule : Rule} {body text after : List Char}

/-- A stray character is no longer than any piece. -/
theorem length_le_of_other (h : Rule.other.Matches text) (hbody : body ≠ []) :
    text.length ≤ body.length := by
  obtain ⟨c, rfl⟩ := h
  exact List.length_pos_iff.2 hbody

/-- A competitor begins with the first character of the piece. -/
theorem begins_of_isPrefix {c : Char} {more : List Char} (h : rule.Matches text)
    (hpre : text <+: c :: more) : rule.Begins c := by
  obtain ⟨d, _, rfl, hd⟩ := h.begins
  obtain ⟨_, heq⟩ := hpre
  cases heq
  exact hd

/-- The competitors of a number are longer numbers. -/
theorem number_longest (hbody : (Rule.word .number).Matches body)
    (hends : Piece.Ends ⟨.word .number, body⟩ after) (h : rule.Matches text)
    (hpre : text <+: body ++ after) : text.length ≤ body.length := by
  obtain ⟨d, ds, hd, hdigit⟩ := hbody.begins
  have hb : rule.Begins d := begins_of_isPrefix h (hd ▸ hpre)
  rcases hb.of_digit hdigit with rfl | rfl
  · rcases isPrefix_append_cases hpre with hle | ⟨c, more, rfl, hmore⟩
    · exact hle
    -- a longer numeral goes on with a digit or with a point and a digit
    obtain ⟨hhead, htail⟩ := head?_of_isPrefix hmore
    exfalso
    rcases IsNumeral.continuation hbody h with hc | ⟨hp, rfl, hc⟩
    · simpa [hhead, hc] using hends.1
    · cases more with
      | nil => cases hc
      | cons e more =>
        have he : e.isDigit = true := by simpa using hc
        simpa [(head?_of_isPrefix htail).1, he] using hends.2 hp hhead
  · exact length_le_of_other h hbody.ne_nil

/-- The competitors of a string are strings and open strings, which have to end at the same quote or
before it. -/
theorem string_longest (hbody : (Rule.word .string).Matches body) (h : rule.Matches text)
    (hpre : text <+: body ++ after) : text.length ≤ body.length := by
  obtain ⟨content, hcontent, rfl⟩ := hbody
  have hb : rule.Begins '"' := begins_of_isPrefix h hpre
  -- up to its second quote a competitor is a prefix of the content
  have hbound {inside : List Char} (hq : '"' ∉ inside)
      (hin : '"' :: inside <+: '"' :: (content ++ ['"']) ++ after) :
      inside.length ≤ content.length := by
    rw [List.cons_append, List.append_assoc, List.singleton_append] at hin
    exact length_le_of_not_mem hq (List.cons_prefix_cons.1 hin).2
  rcases hb.of_quote with rfl | rfl | rfl
  · obtain ⟨inside, hq, rfl⟩ := h
    have hle := hbound hq ((List.prefix_append _ ['"']).trans hpre)
    simpa using hle
  · obtain ⟨inside, hq, rfl⟩ := h
    have hle := hbound hq hpre
    simp only [List.length_cons, List.length_append]
    omega
  · exact length_le_of_other h (by simp)

/-- The competitors of a mark are longer marks and, if it is a slash, comments. -/
theorem mark_longest {kind : TokenKind} (hkind : kind.isLiteral = false)
    (hbody : (Rule.word kind).Matches body) (hends : Piece.Ends ⟨.word kind, body⟩ after)
    (h : rule.Matches text) (hpre : text <+: body ++ after) : text.length ≤ body.length := by
  obtain ⟨hequal, hslash⟩ := (Piece.ends_mark hkind).1 hends
  rcases TokenKind.mark_forms ((TokenKind.spells_mark hkind).1 hbody) with
    ⟨c, rfl, hc⟩ | ⟨c, shorter, rfl, hc, -⟩
  · -- one character: a competitor would need an `=` or, for a slash, a second slash
    rcases (begins_of_isPrefix h hpre).of_mark hc with ⟨j, hj, rfl⟩ | ⟨rfl, rfl⟩ | rfl
    · rcases TokenKind.mark_forms ((TokenKind.spells_mark hj).1 h) with
        ⟨d, rfl, -⟩ | ⟨d, s, rfl, hd, hs⟩
      · simp
      · obtain ⟨hdc, htail⟩ := List.cons_prefix_cons.1 hpre
        cases hc.symm.trans (hdc ▸ hd)
        exact absurd (head?_of_isPrefix htail).1 (hequal (Option.isSome_of_eq_some hs))
    · obtain ⟨more, -, rfl⟩ := h
      obtain ⟨-, htail⟩ := List.cons_prefix_cons.1 hpre
      cases hc
      exact absurd (head?_of_isPrefix htail).1 (hslash rfl)
    · exact length_le_of_other h (by simp)
  · -- two characters: no mark is longer, and a comment has a slash where `=` stands
    rcases (begins_of_isPrefix h hpre).of_mark hc with ⟨j, hj, rfl⟩ | ⟨rfl, rfl⟩ | rfl
    · rcases TokenKind.mark_forms ((TokenKind.spells_mark hj).1 h) with
        ⟨d, rfl, -⟩ | ⟨d, s, rfl, -, -⟩
      · simp
      · simp
    · obtain ⟨more, -, rfl⟩ := h
      simp at hpre
    · exact length_le_of_other h (by simp)

/-- The competitors of a comment are comments, and they end before the newline. -/
theorem comment_longest (hbody : Rule.comment.Matches body)
    (hends : Piece.Ends ⟨.comment, body⟩ after) (h : rule.Matches text)
    (hpre : text <+: body ++ after) : text.length ≤ body.length := by
  obtain ⟨line, -, rfl⟩ := hbody
  have hslash : TokenKind.ofChar? '/' = some .slash := rfl
  rcases (begins_of_isPrefix h hpre).of_mark hslash with ⟨j, hj, rfl⟩ | ⟨-, rfl⟩ | rfl
  · rcases TokenKind.mark_forms ((TokenKind.spells_mark hj).1 h) with
      ⟨d, rfl, -⟩ | ⟨d, s, rfl, -, -⟩
    · simp
    · simp
  · obtain ⟨other, hnl, rfl⟩ := h
    have hin : other <+: line ++ after := by simpa using hpre
    rcases hends with rfl | hnext
    · simpa using hin.length_le
    · obtain ⟨rest, rfl⟩ := List.head?_eq_some_iff.1 hnext
      simpa using length_le_of_not_mem hnl hin
  · exact length_le_of_other h (by simp)

/-- Blanks have one character. -/
theorem blank_longest (hbody : Rule.blank.Matches body) (h : rule.Matches text)
    (hpre : text <+: body ++ after) : text.length ≤ body.length := by
  obtain ⟨c, more, rfl, hc⟩ := hbody.begins
  rcases (begins_of_isPrefix h hpre).of_blank hc with rfl | rfl
  · rcases h with rfl | rfl | rfl | rfl
    all_goals simp
  · exact length_le_of_other h (by simp)

/-- Where only `other` is left, nothing that begins with the stray character is longer. -/
theorem other_longest (hbody : Rule.other.Matches body)
    (hlast : ∀ r : Rule, r.Matches body → r = .other) (h : rule.Matches text)
    (hpre : text <+: body ++ after) : text.length ≤ body.length := by
  obtain ⟨c, rfl⟩ := hbody
  obtain ⟨r, hr, hother⟩ := (begins_of_isPrefix h hpre).single
  cases hother (hlast r hr)
  exact length_le_of_other h (by simp)

end Bounds

/-- The bounds of all classes together. -/
theorem Piece.Proper.longest {p : Piece} {after text : List Char} {rule : Rule} (hp : p.Proper)
    (hends : p.Ends after) (h : rule.Matches text) (hpre : text <+: p.text ++ after) :
    text.length ≤ p.text.length := by
  obtain ⟨hbody, hlast⟩ := hp
  obtain ⟨r, body⟩ := p
  -- `Piece.Ends` and the bounds have the same cases
  cases r with
  | word kind =>
    rcases kind.literal_cases with rfl | rfl | hkind
    · exact number_longest hbody hends h hpre
    · exact string_longest hbody h hpre
    · exact mark_longest hkind hbody hends h hpre
  | comment => exact comment_longest hbody hends h hpre
  | blank => exact blank_longest hbody h hpre
  | openString =>
    cases hends
    simpa using hpre.length_le
  | other => exact other_longest hbody (hlast rfl) h hpre

/-! ## The longest match ends where nothing follows that it could take in

The converse: each character that `Piece.Ends` forbids would make a longer match. -/

section Ends

variable {taken : Rule} {kind : TokenKind} {body after more : List Char}

/-- No class has a text made of the longest match and some of what follows it. -/
theorem Munches.not_longer (h : Munches (body ++ after) ⟨taken, body⟩) (rule : Rule)
    (hmore : more <+: after) (hne : more ≠ []) : ¬ rule.Matches (body ++ more) := by
  intro hm
  have hle := h.longest rule _ hm ((List.prefix_append_right_inj _).2 hmore)
  have hpos : 0 < more.length := List.length_pos_iff.2 hne
  simp only [List.length_append] at hle
  omega

theorem isPrefix_of_head? {c : Char} (h : after.head? = some c) : [c] <+: after := by
  obtain ⟨rest, rfl⟩ := List.head?_eq_some_iff.1 h
  exact ⟨rest, rfl⟩

/-- A digit behind a number would belong to it, and so would a point and a digit behind digits. -/
theorem number_ends (h : Munches (body ++ after) ⟨.word .number, body⟩) :
    Piece.Ends ⟨.word .number, body⟩ after := by
  have hnum : IsNumeral body := h.matched
  cases after with
  | nil => exact ⟨rfl, nofun⟩
  | cons c rest =>
    refine ⟨?_, ?_⟩
    · by_contra hdigit
      have hc : c.isDigit = true := by simpa using hdigit
      exact h.not_longer (.word .number) ⟨rest, rfl⟩ (List.cons_ne_nil c []) (hnum.append_digit hc)
    · intro hp hpoint
      cases hpoint
      cases rest with
      | nil => rfl
      | cons d rest =>
        by_contra hdigit
        have hd : d.isDigit = true := by simpa using hdigit
        exact h.not_longer (.word .number) ⟨rest, rfl⟩ (List.cons_ne_nil '.' [d])
          (hnum.append_point hp hd)

/-- An `=` behind a comparison operator would belong to it, and two slashes are a comment. -/
theorem mark_ends (hkind : kind.isLiteral = false)
    (h : Munches (body ++ after) ⟨.word kind, body⟩) : Piece.Ends ⟨.word kind, body⟩ after := by
  have hforms := TokenKind.mark_forms ((TokenKind.spells_mark hkind).1 h.matched)
  refine (Piece.ends_mark hkind).2 ⟨?_, ?_⟩
  · intro hlonger hequal
    obtain ⟨longer, hlonger⟩ := Option.isSome_iff_exists.1 hlonger
    rcases hforms with ⟨c, rfl, hc⟩ | ⟨c, shorter, rfl, hc, hs⟩
    · exact h.not_longer (.word longer) (isPrefix_of_head? hequal) (by simp)
        (TokenKind.spells_of_withEqual? hc hlonger)
    · -- a mark that already ends in `=` takes no second one
      rw [(TokenKind.of_withEqual? hs).2.1] at hlonger
      cases hlonger
  · rintro rfl hslash
    have htext : TokenKind.slash.text? = some (String.ofList body) := h.matched
    have hone : TokenKind.slash.text? = some (String.ofList ['/']) := TokenKind.text?_of_ofChar? rfl
    obtain rfl : body = ['/'] := String.ofList_injective (Option.some.inj (htext.symm.trans hone))
    exact h.not_longer .comment (isPrefix_of_head? hslash) (by simp) ⟨[], by simp, rfl⟩

/-- A comment takes in everything but a newline. -/
theorem comment_ends (h : Munches (body ++ after) ⟨.comment, body⟩) :
    Piece.Ends ⟨.comment, body⟩ after := by
  cases after with
  | nil => exact .inl rfl
  | cons c rest =>
    refine .inr ?_
    by_contra hc
    have hne : '\n' ≠ c := by simpa [eq_comm] using hc
    obtain ⟨line, hline, rfl⟩ := h.matched
    exact h.not_longer .comment ⟨rest, rfl⟩ (List.cons_ne_nil c [])
      ⟨line ++ [c], by simp [hline, hne], rfl⟩

/-- An open string takes in everything. -/
theorem openString_ends (h : Munches (body ++ after) ⟨.openString, body⟩) :
    Piece.Ends ⟨.openString, body⟩ after := by
  obtain ⟨content, hcontent, rfl⟩ := h.matched
  by_contra hne
  obtain ⟨c, rest, rfl⟩ := List.exists_cons_of_ne_nil hne
  -- the next character closes the string or belongs to it
  by_cases hc : '"' = c
  · subst hc
    exact h.not_longer (.word .string) ⟨rest, rfl⟩ (List.cons_ne_nil _ [])
      ⟨content, hcontent, rfl⟩
  · exact h.not_longer .openString ⟨rest, rfl⟩ (List.cons_ne_nil c [])
      ⟨content ++ [c], by simp [hcontent, hc], rfl⟩

end Ends

/-- **The longest match by looking ahead.** `Munches` compares a piece with every prefix of what
lies ahead. It is enough that the piece is `Proper` and `Ends` where it does, which looks at two
characters behind it. -/
theorem munches_iff {p : Piece} {after : List Char} :
    Munches (p.text ++ after) p ↔ p.Proper ∧ p.Ends after := by
  constructor
  · intro h
    refine ⟨h.toProper, ?_⟩
    obtain ⟨rule, body⟩ := p
    cases rule with
    | word kind =>
      rcases kind.literal_cases with rfl | rfl | hkind
      · exact number_ends h
      · trivial
      · exact mark_ends hkind h
    | comment => exact comment_ends h
    | openString => exact openString_ends h
    | blank | other => trivial
  · rintro ⟨hp, hends⟩
    exact ⟨hp, List.prefix_append _ _, fun _ _ => hp.longest hends⟩

/-! ## One way to cut

Two longest matches have the same length, hence the same text. Their classes agree because apart
from `other` the classes have no text in common. -/

theorem mark_not_comment {kind : TokenKind} {text : List Char} (hkind : kind.isLiteral = false)
    (h : (Rule.word kind).Matches text) : ¬ Rule.comment.Matches text := by
  rintro ⟨line, -, rfl⟩
  rcases TokenKind.mark_forms ((TokenKind.spells_mark hkind).1 h) with
    ⟨c, heq, -⟩ | ⟨c, shorter, heq, -, -⟩
  · cases heq
  · cases heq

theorem string_not_openString {text : List Char} (h : (Rule.word .string).Matches text) :
    ¬ Rule.openString.Matches text := by
  rintro ⟨content, hcontent, rfl⟩
  obtain ⟨inside, -, heq⟩ := h
  cases heq
  simp at hcontent

/-- Of the classes other than `other`, a text belongs to one at most. -/
theorem Rule.Matches.unique {r s : Rule} {text : List Char} (hr : r.Matches text)
    (hs : s.Matches text) (hro : r ≠ .other) (hso : s ≠ .other) : r = s := by
  obtain ⟨c, more, rfl, hrc⟩ := hr.begins
  have hsc : s.Begins c := begins_of_isPrefix hs (List.prefix_refl _)
  -- the first character leaves two classes for `s` besides `other`, and `r` is one of them
  cases r with
  | word kind =>
    rcases kind.literal_cases with rfl | rfl | hkind
    · rcases hsc.of_digit hrc with rfl | rfl
      · rfl
      · exact absurd rfl hso
    · cases hrc
      rcases hsc.of_quote with rfl | rfl | rfl
      · rfl
      · exact absurd hs (string_not_openString hr)
      · exact absurd rfl hso
    · obtain ⟨k, hk⟩ := Option.isSome_iff_exists.1 ((Rule.begins_mark hkind).1 hrc)
      rcases hsc.of_mark hk with ⟨j, hj, rfl⟩ | ⟨-, rfl⟩ | rfl
      · rw [TokenKind.eq_of_text? ((TokenKind.spells_mark hkind).1 hr)
          ((TokenKind.spells_mark hj).1 hs)]
      · exact absurd hs (mark_not_comment hkind hr)
      · exact absurd rfl hso
  | comment =>
    cases hrc
    have hslash : TokenKind.ofChar? '/' = some .slash := rfl
    rcases hsc.of_mark hslash with ⟨j, hj, rfl⟩ | ⟨-, rfl⟩ | rfl
    · exact absurd hr (mark_not_comment hj hs)
    · rfl
    · exact absurd rfl hso
  | blank =>
    rcases hsc.of_blank hrc with rfl | rfl
    · rfl
    · exact absurd rfl hso
  | openString =>
    cases hrc
    rcases hsc.of_quote with rfl | rfl | rfl
    · exact absurd hr (string_not_openString hs)
    · rfl
    · exact absurd rfl hso
  | other => exact absurd rfl hro

/-- **There is one longest match.** Two have the same length, and so the same text. -/
theorem Munches.unique {ahead : List Char} {p q : Piece} (hp : Munches ahead p)
    (hq : Munches ahead q) : p = q := by
  have hlength : p.text.length = q.text.length :=
    Nat.le_antisymm (hq.longest _ _ hp.matched hp.taken) (hp.longest _ _ hq.matched hq.taken)
  have htext : p.text = q.text :=
    (List.prefix_of_prefix_length_le hp.taken hq.taken hlength.le).eq_of_length hlength
  have hrule : p.rule = q.rule := by
    by_cases hpo : p.rule = .other
    · rw [hpo, hp.lastResort hpo q.rule (htext ▸ hq.matched)]
    by_cases hqo : q.rule = .other
    · exact absurd (hq.lastResort hqo p.rule (htext ▸ hp.matched)) hpo
    · exact hp.matched.unique (htext ▸ hq.matched) hpo hqo
  cases p
  cases q
  exact congrArg₂ Piece.mk hrule htext

/-- There is one way to cut a text. -/
theorem Lexes.unique {text : List Char} {pieces others : List Piece} (h : Lexes text pieces)
    (h' : Lexes text others) : pieces = others := by
  -- no piece is empty, so neither list ends before the other
  induction h generalizing others with
  | nil =>
    cases h' with
    | nil => rfl
    | cons cut first _ => exact absurd (List.append_eq_nil_iff.1 cut.symm).1 first.matched.ne_nil
  | cons cut first _ ih =>
    cases h' with
    | nil => exact absurd (List.append_eq_nil_iff.1 cut.symm).1 first.matched.ne_nil
    | cons cut' first' others' =>
      cases first.unique first'
      cases List.append_cancel_left (cut.symm.trans cut')
      rw [ih others']

/-- **Cutting a text in two.** The pieces of `a` and then those of `b` are the pieces of `a ++ b`,
if the last piece of `a` still `Ends` in front of `b`. No piece may be an open string, which ends
nowhere else, and `b` may not begin with a digit: this would go to a number in front of a point at
the end of `a`. -/
theorem Lexes.append {a b : List Char} {pieces others : List Piece} (ha : Lexes a pieces)
    (hb : Lexes b others) (hopen : ∀ p ∈ pieces, p.rule ≠ .openString)
    (hlast : ∀ p, pieces.getLast? = some p → p.Ends b) (hdigit : b.head?.any Char.isDigit = false) :
    Lexes (a ++ b) (pieces ++ others) := by
  induction ha with
  | nil => exact hb
  | @cons text after p pieces cut first rest ih =>
    obtain ⟨hp, hpieces⟩ := List.forall_mem_cons.1 hopen
    subst cut
    obtain ⟨hproper, hends⟩ := munches_iff.1 first
    -- `b` comes right behind `p` only if `p` is the last piece
    have hfollowed : p.Ends (after ++ b) := by
      refine hends.append hp (fun hnil => hlast p ?_) hdigit
      subst hnil
      rw [rest.unique .nil]
      rfl
    have hothers : Lexes (after ++ b) (pieces ++ others) := by
      refine ih hpieces fun q hq => hlast q ?_
      rw [List.getLast?_cons, hq]
      rfl
    rw [List.append_assoc]
    exact .cons rfl (munches_iff.2 ⟨hproper, hfollowed⟩) hothers

/-- No piece is empty. -/
theorem Lexes.text_ne_nil {text : List Char} {pieces : List Piece} (h : Lexes text pieces) :
    ∀ p ∈ pieces, p.text ≠ [] := by
  induction h with
  | nil => simp
  | cons _ first _ ih => exact List.forall_mem_cons.2 ⟨first.matched.ne_nil, ih⟩

/-- The pieces are the text, cut up. -/
theorem Lexes.flatMap_text {text : List Char} {pieces : List Piece} (h : Lexes text pieces) :
    pieces.flatMap Piece.text = text := by
  induction h with
  | nil => rfl
  | cons cut _ _ ih => rw [List.flatMap_cons, ih, cut]

theorem Lexes.proper {text : List Char} {pieces : List Piece} (h : Lexes text pieces) :
    ∀ p ∈ pieces, p.Proper := by
  induction h with
  | nil => simp
  | cons _ first _ ih => exact List.forall_mem_cons.2 ⟨first.toProper, ih⟩

/-- **Only the last piece can be an open string,** since an open string leaves nothing behind it. -/
theorem Lexes.exists_closed {text : List Char} {pieces : List Piece} (h : Lexes text pieces) :
    ∃ closed opened, pieces = closed ++ Option.toList opened ∧
      (∀ p ∈ closed, p.rule ≠ .openString) ∧ ∀ p ∈ opened, p.rule = .openString := by
  induction h with
  | nil => exact ⟨[], none, rfl, nofun, nofun⟩
  | @cons text after p pieces cut first others ih =>
    by_cases hopen : p.rule = .openString
    · have hends : p.Ends after := (munches_iff.1 (cut ▸ first)).2
      have hnil : after = [] := by rwa [Piece.Ends, hopen] at hends
      subst hnil
      obtain rfl := others.unique .nil
      exact ⟨[], some p, rfl, nofun, by simpa using hopen⟩
    · obtain ⟨closed, opened, rfl, hclosed, hopened⟩ := ih
      exact ⟨p :: closed, opened, rfl, List.forall_mem_cons.2 ⟨hopen, hclosed⟩, hopened⟩

end SourceScan
