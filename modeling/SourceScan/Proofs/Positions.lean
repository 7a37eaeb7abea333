import SourceScan.Proofs.Delivery

/-!
# Positions of tokens

The place of a cursor follows from the text it has passed, and a token has the place of the cursor
its reading began at. So the line and the column of a token count the newlines before it and the
characters since the last of them, wherever these newlines stand.

Lines and columns are counted in 32 bits. Neither count can be ahead of the characters read by more
than one, and so **`reads_start_fits`** keeps all of them in range, for sources that are not too
long. **`tokenize_positions`** puts both together.
-/

namespace SourceScan

/-- **A token stands behind a text:** it begins where the text ends, on the line and in the column
that the text leads to. -/
structure Token.Behind (t : Token) (before : List Char) : Prop where
  start_eq : t.span.start = (String.ofList before).utf8ByteSize
  line_eq : t.span.line = 1 + before.count '\n'
  column_eq : t.span.column = 1 + (before.rtakeWhile (· != '\n')).length

theorem Token.behind_of_place {t : Token} {before : List Char}
    (h : Place.mk t.span.start t.span.line t.span.column = Place.start.past before) :
    t.Behind before := by
  rw [Place.past_start] at h
  exact ⟨congrArg Place.offset h, congrArg Place.line h, congrArg Place.column h⟩

theorem behind_of_mem_tokensOf {text : List Char} {pieces : List Piece} {t : Token}
    (hcut : Lexes text pieces) (ht : t ∈ tokensOf pieces) :
    ∃ before after, text = before ++ t.lexeme.toList ++ after ∧ t.Behind before := by
  obtain ⟨before, word, after, htext, -, heq⟩ := mem_tokensOf hcut ht
  refine ⟨before, after, ?_, ?_⟩
  · rw [htext, heq, Token.new_lexeme, String.toList_ofList]
  · apply Token.behind_of_place
    rw [heq]
    rfl

/-- A token of a source is made with `Token.new`, from the span of its text. -/
theorem line_eq_of_mem_tokensOf {text : List Char} {pieces : List Piece} {t : Token}
    (hcut : Lexes text pieces) (ht : t ∈ tokensOf pieces) : t.line = t.span.line := by
  obtain ⟨before, word, -, -, -, heq⟩ := mem_tokensOf hcut ht
  rw [heq, Token.new_line, Token.new_span]

theorem endTokenOf_behind (source : String) : (endTokenOf source).Behind source.toList := by
  apply Token.behind_of_place
  rw [endTokenOf_eq]
  rfl

/-! ## Counting in 32 bits -/

namespace Cursor

variable {source : String} {d : Cursor source} {text : List Char}

theorem step_reads (c : Cursor source) (h : ¬ c.AtEnd) :
    ∃ taken, Reads c taken (c.step h).stop := by
  obtain ⟨p, hp⟩ := step_takes c h
  exact ⟨p.text, hp.walk⟩

/-- **No count leaves its range.** Before the end of a source of fewer than `2 ^ 32 - 1` characters,
there is room for one more line and one more column. -/
theorem reads_start_fits (hsize : source.length < UInt32.size - 1)
    (walk : Reads (start source) text d) (h : ¬ d.AtEnd) :
    d.line + 1 < UInt32.size ∧ d.column + 1 < UInt32.size := by
  have hplace : d.place = Place.start.past text := walk.place_eq
  -- at least the character ahead has not been read
  have hread : text.length + 1 ≤ source.length := by
    have hall : source.toList = text ++ (d.head h :: (d.next h).rest) := by
      rw [← rest_start, walk.rest_eq, rest_eq_cons d h]
    rw [← String.length_toList, hall, List.length_append, List.length_cons]
    omega
  have hline : d.place.line ≤ 1 + text.length := hplace ▸ (Place.past_start_le text).1
  have hcolumn : d.place.column ≤ 1 + text.length := hplace ▸ (Place.past_start_le text).2
  show d.place.line + 1 < UInt32.size ∧ d.place.column + 1 < UInt32.size
  omega

end Cursor

/-- **Positions are exact.** For `source.length < UInt32.size - 1` and a policy that does not panic
on errors, `tokenize` returns tokens of which each, the end of the input included, stands `Behind`
the text before its own and has the line of its span. At every cursor that `Reads` leads to from the
start, `line + 1` and `column + 1` are below `UInt32.size`, and a `step` from there is a `Reads`. -/
theorem tokenize_positions (source : String) (r : Reporter) (hsize : source.length < UInt32.size - 1)
    (hr : r.policy.panicOnError = false) :
    (∃ tokens eof, (tokenize source r).result = .ok (tokens ++ [eof]) ∧ eof.kind = .endOfInput ∧
      eof.span.start = source.utf8ByteSize ∧
      ∀ t ∈ tokens ++ [eof], t.line = t.span.line ∧ ∃ before after,
        source.toList = before ++ t.lexeme.toList ++ after ∧ t.Behind before) ∧
    ∀ (text : List Char) (d : Cursor source), Cursor.Reads (Cursor.start source) text d →
      ∀ h : ¬ d.AtEnd, d.line + 1 < UInt32.size ∧ d.column + 1 < UInt32.size ∧
        ∃ taken, Cursor.Reads d taken (d.step h).stop := by
  constructor
  · obtain ⟨pieces, hcut⟩ := exists_lexes source
    refine ⟨tokensOf pieces, endTokenOf source, tokenize_runs hcut (.inl hr), rfl, rfl, ?_⟩
    intro t ht
    rcases List.mem_append.1 ht with hword | hend
    · exact ⟨line_eq_of_mem_tokensOf hcut hword, behind_of_mem_tokensOf hcut hword⟩
    · cases List.mem_singleton.1 hend
      refine ⟨Token.new_line .., source.toList, [], ?_, endTokenOf_behind source⟩
      rw [endTokenOf, Token.new_lexeme, List.append_nil]
      exact (List.append_nil _).symm
  · intro text d walk h
    obtain ⟨hline, hcolumn⟩ := Cursor.reads_start_fits hsize walk h
    exact ⟨hline, hcolumn, d.step_reads h⟩

/-- A string over two lines, with a number in front of it and one behind it. -/
theorem tokenize_positions_two_lines :
    "1 \"a\nü\" 2".length < UInt32.size - 1 ∧ Reporter.new.policy.panicOnError = false ∧
    ∃ tokens, (tokenize "1 \"a\nü\" 2" Reporter.new).result = .ok tokens ∧
      tokens.map (fun t => (t.lexeme, t.span.start, t.line, t.span.column)) =
        [("1", 0, 1, 1), ("\"a\nü\"", 2, 1, 3), ("2", 9, 2, 4), ("", 10, 2, 5)] ∧
      ∀ t ∈ tokens, ∃ before after,
        "1 \"a\nü\" 2".toList = before ++ t.lexeme.toList ++ after ∧ t.Behind before := by
  obtain ⟨⟨tokens, eof, hresult, -, -, hexact⟩, -⟩ :=
    tokenize_positions "1 \"a\nü\" 2" Reporter.new (by decide) rfl
  have hrun : (tokenize "1 \"a\nü\" 2" Reporter.new).result.toOption.map
      (·.map fun t => (t.lexeme, t.span.start, t.line, t.span.column)) =
        some [("1", 0, 1, 1), ("\"a\nü\"", 2, 1, 3), ("2", 9, 2, 4), ("", 10, 2, 5)] := by
    decide +kernel
  rw [hresult] at hrun
  exact ⟨by decide, rfl, tokens ++ [eof], hresult, Option.some.inj hrun,
    fun t ht => (hexact t ht).2⟩

end SourceScan
