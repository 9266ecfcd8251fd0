import Mathlib.Data.Prod.Lex
import ObjectSpec.Proofs.Grammar.Fault
import ObjectSpec.Proofs.Text.Location
import ObjectSpec.Proofs.Token.Refusal

/-!
# Where errors stand

An error of a text stands between two characters of it, be it an error of the tokens or of the
grammar (`isBoundary_offset`). So the characters in front of it tell all there is to know of its
place: their number, the number of the line and that of the column (`Located`). Offsets and
places have the same order (`Location.locate_lt`).
-/

namespace ObjectSpec

open Text (byteCount byteCount_append IsBoundary lineBehind columnBehind)

/-! ## Places in a text -/

namespace Text

theorem before_of_le {text : List Char} {offset : Nat} (h : byteCount text ≤ offset) :
    before text offset = text := by
  induction text generalizing offset with
  | nil => rfl
  | cons c cs ih =>
    have hc := c.utf8Size_pos
    rw [byteCount] at h
    rw [before, if_neg (by omega), ih (by omega)]

/-- The line that a text ends in: what stands behind its last newline, or all of it if it has
none. -/
structure LastLine (text line : List Char) : Prop where
  free : '\n' ∉ line
  behind : text = line ∨ ∃ older, text = older ++ '\n' :: line

theorem columnBehind_of_lastLine {text line : List Char} (h : LastLine text line) :
    columnBehind text = line.length + 1 := by
  have hline : ∀ c ∈ line.reverse, (c != '\n') = true := by
    intro c hc
    rw [List.mem_reverse] at hc
    rw [bne_iff_ne]
    rintro rfl
    exact h.free hc
  rw [columnBehind]
  rcases h.behind with rfl | ⟨older, rfl⟩
  · rw [List.takeWhile_eq_self_iff.2 hline, List.length_reverse]
  · rw [List.reverse_append, List.reverse_cons, List.append_assoc,
      List.takeWhile_append_of_pos hline]
    simp

theorem exists_lastLine (text : List Char) : ∃ line, LastLine text line := by
  induction text using List.reverseRecOn with
  | nil => exact ⟨[], by simp, .inl rfl⟩
  | append_singleton text c ih =>
    obtain ⟨line, hfree, hbehind⟩ := ih
    by_cases hc : c = '\n'
    · exact ⟨[], by simp, .inr ⟨text, by rw [hc]⟩⟩
    · refine ⟨line ++ [c], by simp [hfree, Ne.symm hc], ?_⟩
      rcases hbehind with rfl | ⟨older, rfl⟩
      · exact .inl rfl
      · exact .inr ⟨older, by simp⟩

/-- One of two boundaries stands in front of the other with some text between them. -/
theorem IsBoundary.exists_between {text : List Char} {o p : Nat} (ho : IsBoundary text o)
    (hp : IsBoundary text p) (h : o < p) :
    ∃ front inner rest, text = front ++ inner ++ rest ∧ inner ≠ [] ∧ byteCount front = o ∧
      byteCount (front ++ inner) = p := by
  obtain ⟨front, rest, rfl, rfl⟩ := ho
  obtain ⟨whole, more, htext, rfl⟩ := hp
  rcases List.append_eq_append_iff.1 htext with ⟨inner, rfl, rfl⟩ | ⟨inner, rfl, -⟩
  · refine ⟨front, inner, more, by rw [List.append_assoc], ?_, rfl, rfl⟩
    rintro rfl
    rw [List.append_nil] at h
    exact Nat.lt_irrefl _ h
  · rw [byteCount_append] at h
    omega

end Text

namespace Location

/-- A later offset has a later place: a later line, or a later column of the same line. -/
theorem locate_lt {text : String} {o p : Nat} (ho : IsBoundary text.toList o)
    (hp : IsBoundary text.toList p) (h : o < p) :
    toLex ((locate text o).line, (locate text o).column) <
      toLex ((locate text p).line, (locate text p).column) := by
  obtain ⟨front, inner, rest, htext, hne, rfl, rfl⟩ := ho.exists_between hp h
  have hfront : text.toList = front ++ (inner ++ rest) := by rw [htext, List.append_assoc]
  rw [locate_append hfront, locate_append htext, Prod.Lex.toLex_lt_toLex]
  exact Text.lineBehind_append front hne

/-- An offset past the end stands for the end. -/
theorem locate_of_le {text : String} {offset : Nat} (h : byteCount text.toList ≤ offset) :
    locate text offset = locate text (byteCount text.toList) := by
  simp only [locate, Text.before_of_le h, Text.before_of_le (Nat.le_refl _), Nat.min_eq_right h,
    Nat.min_self]

end Location

/-! ## Places of errors -/

theorem Partition.isBoundary_startOf {source : String} {ts us : List Placed}
    (h : Partition source ts) (hsub : us ⊆ ts) :
    IsBoundary source.toList (startOf us (byteCount source.toList)) := by
  cases us with
  | nil => exact ⟨source.toList, [], (List.append_nil _).symm, rfl⟩
  | cons p us => exact (h.boundaries p (hsub List.mem_cons_self)).1

namespace ParseError

variable {limit : Nat} {source : String} {e : ParseError}

/-- An error stands between two characters of the text, or at one of its ends. -/
theorem isBoundary_offset (h : Tree.parse limit source = .error e) :
    IsBoundary source.toList e.offset := by
  cases htokens : tokenize source with
  | error x =>
    rw [Tree.parse, htokens] at h
    cases h
    obtain ⟨ps, rest, hreach, -⟩ := reaches_of_error htokens
    obtain ⟨front, hsource, hplace, -⟩ := hreach.reads_front
    exact ⟨front, rest, hsource, by rw [offset, hplace, Nat.zero_add]⟩
  | ok ts =>
    obtain ⟨x, rfl, hts⟩ := Tree.parse_error htokens h
    obtain ⟨s, hs⟩ := Tree.ofTokens_error hts
    obtain ⟨ps, qs, hrest, -, ho⟩ := Rule.spec_locates limit rfl hs
    have hsub : qs ⊆ ts := by
      rw [show ts = ps ++ qs from hrest]
      exact List.subset_append_right ps qs
    rw [offset, ho]
    exact (covers_of_tokenize htokens).partition.isBoundary_startOf hsub

/-- The place of an error, told by the characters in front of it. -/
structure Located (source : String) (e : ParseError) (front : List Char) : Prop where
  in_front : front <+: source.toList
  offset_eq : e.offset = byteCount front
  offset_le : e.offset ≤ byteCount source.toList
  charOffset_eq : e.charOffset source = front.length
  line_eq : (e.location source).line = front.count '\n' + 1
  column_eq : ∃ line, Text.LastLine front line ∧ (e.location source).column = line.length + 1
  location_eq : (e.location source).offset = e.offset

theorem located_of_isBoundary (h : IsBoundary source.toList e.offset) :
    ∃ front, Located source e front := by
  have hle := h.le
  obtain ⟨front, rest, hsource, hoffset⟩ := h
  have hlocation : e.location source =
      ⟨lineBehind front, columnBehind front, byteCount front⟩ := by
    rw [location, ← hoffset, Location.locate_append hsource]
  obtain ⟨line, hline⟩ := Text.exists_lastLine front
  refine ⟨front, ⟨rest, hsource.symm⟩, hoffset.symm, hle, ?_, ?_, ⟨line, hline, ?_⟩, ?_⟩
  · rw [charOffset, hsource, ← hoffset, Text.before_append]
  · rw [hlocation, lineBehind]
  · rw [hlocation, Text.columnBehind_of_lastLine hline]
  · rw [hlocation, hoffset]

/-- Places are faithful to the text. Of two offsets between characters the later one has the later
place, and what is past the end stands for the end. An error stands between two characters, and
its place is counted off those in front of it. -/
theorem location_faithful (source : String) :
    (∀ o p, IsBoundary source.toList o → IsBoundary source.toList p → o < p →
      toLex ((Location.locate source o).line, (Location.locate source o).column) <
        toLex ((Location.locate source p).line, (Location.locate source p).column)) ∧
    (∀ o, byteCount source.toList ≤ o →
      Location.locate source o = Location.locate source (byteCount source.toList)) ∧
    ∀ limit e, Tree.parse limit source = .error e → ∃ front, Located source e front :=
  ⟨fun _ _ => Location.locate_lt, fun _ => Location.locate_of_le,
    fun _ _ h => located_of_isBoundary (isBoundary_offset h)⟩

/-- A parenthesis on the second line, behind a character of three bytes. -/
theorem location_faithful_secondLine :
    let source := "['\u20ac',\n  )]"
    let e : ParseError := .grammar ⟨10, .value, .token (.mark .closeParen)⟩
    Tree.parse 1 source = .error e ∧ (∃ front, Located source e front) ∧
      e.charOffset source = 8 ∧ e.location source = ⟨2, 3, 10⟩ := by
  intro source e
  have htokens : tokenize source = .ok [⟨.mark .openBracket, ⟨0, 1⟩⟩,
      ⟨.quoted "'\u20ac'" "\u20ac" '\x27', ⟨1, 6⟩⟩, ⟨.mark .comma, ⟨6, 7⟩⟩,
      ⟨.mark .closeParen, ⟨10, 11⟩⟩, ⟨.mark .closeBracket, ⟨11, 12⟩⟩] :=
    tokenize_of_toOption (by decide +kernel)
  have hparse : Tree.parse 1 source = .error e := by
    rw [Tree.parse, htokens]
    rfl
  exact ⟨hparse, (location_faithful source).2.2 1 e hparse, by decide +kernel, by decide +kernel⟩

end ParseError

end ObjectSpec
