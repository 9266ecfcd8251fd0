import ObjectSpec.Diagnostic.Basic
import ObjectSpec.Proofs.Grammar.Expected
import ObjectSpec.Proofs.Grammar.Limit

/-!
# What the diagnostic of a text is about

An error of the grammar is told to be about nesting by three of its words. Only the error of a
nesting that is too deep has them: of all that the reader can expect no other text holds them,
and a type name of the text cannot bring them in, since there are blanks between the words and
none in a name (`Expectation.Raised.contains_iff`). So what a diagnostic is about is what a reader
without a limit would or would not have found as well (`diagnostic_classified`).
-/

namespace ObjectSpec

open ParseError (nestingWords)

namespace Text

/-- What stands in front of a character that is not in the second text stands in the first. -/
theorem infix_of_not_mem {c : Char} {front back first second : List Char}
    (h : front ++ c :: back <:+: first ++ second) (hc : c ∉ second) :
    front ++ [c] <:+: first := by
  obtain ⟨before, behind, h⟩ := h
  have hsplit : before ++ front ++ [c] ++ (back ++ behind) = first ++ second := by
    simpa using h
  rcases List.append_eq_append_iff.1 hsplit with ⟨mid, rfl, -⟩ | ⟨mid, hmid, rfl⟩
  · exact ⟨before, mid, by simp⟩
  · rcases mid.eq_nil_or_concat with rfl | ⟨inner, d, rfl⟩
    · exact ⟨before, [], by simpa using hmid⟩
    · -- The character would be the last one of what is left of the second text.
      rw [List.concat_eq_append, ← List.append_assoc] at hmid
      obtain rfl : c = d := by simpa using (List.append_inj' hmid rfl).2
      exact absurd (by simp) hc

end Text

/-! ## Texts of what is expected -/

namespace Expectation

theorem contains_nesting (limit : Nat) :
    Text.contains nestingWords.toList (text (.nesting limit)).toList = true := by
  have htext : text (.nesting limit) =
      "at most " ++ toString limit ++ " levels of nesting" := rfl
  have hwords : " levels of nesting".toList = " ".toList ++ nestingWords.toList := by rfl
  rw [Text.contains_iff, htext, String.toList_append, hwords]
  exact ⟨_, [], by rw [List.append_nil, List.append_assoc]⟩

/-- The name in the text of an expectation does not bring the words in. -/
theorem contains_arguments {typeName : String} (h : Token.IsTypeName typeName) :
    Text.contains nestingWords.toList (text (.arguments typeName)).toList = false := by
  have htext : text (.arguments typeName) = "'(' after type name '" ++ typeName ++ "'" := rfl
  have hwords : nestingWords.toList = "levels of".toList ++ ' ' :: "nesting".toList := by rfl
  have hblank : ' ' ∉ typeName.toList ++ "'".toList := by
    rw [List.mem_append]
    rintro (hmem | hmem)
    · exact absurd (h.isBlank hmem) (by decide)
    · exact absurd hmem (by decide)
  rw [Bool.eq_false_iff, ne_eq, Text.contains_iff, htext, String.toList_append,
    String.toList_append, List.append_assoc, hwords]
  intro hinfix
  have hfront := Text.contains_iff.2 (Text.infix_of_not_mem hinfix hblank)
  exact absurd hfront (by decide +kernel)

/-- Of all that the reader can expect, only no deeper nesting has the words. -/
theorem Raised.contains_iff {limit : Nat} {expected : Expectation} (h : expected.Raised limit) :
    Text.contains nestingWords.toList expected.text.toList = true ↔ expected = .nesting limit := by
  -- What is neither the nesting nor has a name in it is one of a few fixed texts.
  have hfixed : ∀ {e : Expectation}, e ≠ .nesting limit →
      Text.contains nestingWords.toList e.text.toList = false →
      (Text.contains nestingWords.toList e.text.toList = true ↔ e = .nesting limit) :=
    fun hne hfree => by simp [hne, hfree]
  cases h with
  | nesting => simp [contains_nesting]
  | arguments hname => exact hfixed (by simp) (contains_arguments hname)
  | @separator close _ => exact hfixed (by simp) (by cases close <;> decide +kernel)
  | value | endOfInput | key | colon | wholeLong | wideInteger | finiteDouble | narrowInteger =>
    exact hfixed (by simp) (by decide +kernel)

end Expectation

/-! ## Errors of a text -/

namespace Tree

variable {limit unlimited : Nat} {source : String} {ts : List Placed} {e : SyntaxError}

/-- A reader with a level for every token never comes to its limit. -/
theorem not_nested_of_enough (htokens : tokenize source = .ok ts)
    (hlength : ts.length ≤ unlimited) (h : parse unlimited source = .error (.grammar e)) (n : Nat) :
    e.expected ≠ .nesting n := by
  intro hn
  have hraised := raised_of_parse htokens h
  rw [parse_eq_of_enough (Nat.lt_succ_self unlimited) htokens hlength] at h
  have hraised' := raised_of_parse htokens h
  -- The error would name the limit and the next one.
  rw [hn] at hraised hraised'
  cases hraised
  cases hraised'

end Tree

namespace ParseError

variable {limit unlimited : Nat} {source : String} {e : ParseError}

/-- What a diagnostic is about, for a text that is no spec under a limit. -/
structure Classified (source : String) (limit unlimited : Nat) (e : ParseError) : Prop where
  hard : (e.diagnostic source).isHardError = true
  nesting_iff : (e.diagnostic source).topic = .nestingTooDeep ↔
    Tree.parse unlimited source ≠ .error e
  guard_iff : (e.diagnostic source).topic = .nestingTooDeep ↔ Tree.NestedTooDeep limit source e
  unterminated_iff : (e.diagnostic source).topic = .unterminatedLiteral ↔
    ∃ offset, tokenize source = .error ⟨.unterminatedRaw, offset⟩ ∨
      ∃ quote, tokenize source = .error ⟨.unterminatedText quote, offset⟩
  unexpected_iff : (e.diagnostic source).topic = .unexpectedChar ↔
    ∃ offset found, tokenize source = .error ⟨.unexpected found, offset⟩
  grammar_iff : (e.diagnostic source).topic = .grammar ↔
    (∃ ts, tokenize source = .ok ts) ∧ Tree.parse unlimited source = .error e

theorem isHardError (e : ParseError) (source : String) :
    (e.diagnostic source).isHardError = true := by
  have hhard : e.topic.isHard = true := by
    unfold topic
    cases e with
    | lexical e => rcases e with ⟨_ | _ | _, offset⟩ <;> rfl
    | grammar e =>
      dsimp only
      split <;> rfl
  unfold Diagnostic.isHardError
  rw [Bool.and_eq_true]
  exact ⟨rfl, hhard⟩

/-- A text without tokens has one error under every limit. -/
theorem classified_lexical {x : LexicalError} (h : tokenize source = .error x) :
    Classified source limit unlimited (.lexical x) := by
  have hparse : Tree.parse unlimited source = .error (.lexical x) := by rw [Tree.parse, h]
  have hdeep : ¬ Tree.NestedTooDeep limit source (.lexical x) := by
    rintro ⟨ts, p, hts, -⟩
    rw [h] at hts
    cases hts
  obtain ⟨cause, offset⟩ := x
  cases cause <;>
    exact ⟨isHardError _ _, by simp [diagnostic, topic, hparse], by simp [diagnostic, topic, hdeep],
      by simp [diagnostic, topic, h], by simp [diagnostic, topic, h],
      by simp [diagnostic, topic, h]⟩

section Grammar
variable {ts : List Placed} {x : SyntaxError}

/-- Too deep a nesting is what no larger limit would have found. -/
theorem nested_iff_of_enough (htokens : tokenize source = .ok ts)
    (hlength : ts.length ≤ unlimited) (hparse : Tree.parse limit source = .error (.grammar x)) :
    (x.expected = .nesting limit ↔ Tree.NestedTooDeep limit source (.grammar x)) ∧
      (x.expected = .nesting limit ↔ Tree.parse unlimited source ≠ .error (.grammar x)) := by
  have henough : ∀ us, tokenize source = .ok us → us.length ≤ unlimited := by
    intro us hus
    rw [htokens] at hus
    cases hus
    exact hlength
  have hnames : Tree.NestedTooDeep limit source (.grammar x) → x.expected = .nesting limit := by
    rintro ⟨_, p, -, -, hp, -⟩
    cases hp
    rfl
  have hfree : Tree.parse unlimited source = .error (.grammar x) → x.expected ≠ .nesting limit :=
    fun h => Tree.not_nested_of_enough htokens hlength h limit
  rcases Tree.parse_eq_or_nested limit henough with hsame | ⟨e, hdeep, he, -⟩
  · rw [hsame] at hparse
    have hne := hfree hparse
    exact ⟨⟨fun h => absurd h hne, hnames⟩, ⟨fun h => absurd h hne, fun h => absurd hparse h⟩⟩
  · rw [hparse] at he
    cases he
    exact ⟨⟨fun _ => hdeep, hnames⟩, ⟨fun h hsame => hfree hsame h, fun _ => hnames hdeep⟩⟩

theorem topic_grammar (htokens : tokenize source = .ok ts)
    (hparse : Tree.parse limit source = .error (.grammar x)) :
    topic (.grammar x) = if x.expected = .nesting limit then .nestingTooDeep else .grammar := by
  unfold topic
  simp only [(Tree.raised_of_parse htokens hparse).contains_iff]

theorem classified_grammar (htokens : tokenize source = .ok ts)
    (hlength : ts.length ≤ unlimited) (hparse : Tree.parse limit source = .error (.grammar x)) :
    Classified source limit unlimited (.grammar x) := by
  obtain ⟨hdeep, hsame⟩ := nested_iff_of_enough htokens hlength hparse
  have htopic : ((ParseError.grammar x).diagnostic source).topic =
      if x.expected = .nesting limit then .nestingTooDeep else .grammar :=
    topic_grammar htokens hparse
  have hlexical : ∀ y, tokenize source ≠ .error y := by simp [htokens]
  refine ⟨isHardError _ _, ?_, ?_, ?_, ?_, ?_⟩
  · rw [htopic, ← hsame]
    simp
  · rw [htopic, ← hdeep]
    simp
  · rw [htopic]
    split <;> simp [hlexical]
  · rw [htopic]
    split <;> simp [hlexical]
  · rw [htopic, ← not_not (a := Tree.parse unlimited source = _), ← ne_eq, ← hsame]
    simp [htokens]

end Grammar

/-- A diagnostic of a text that is no spec is a hard error, and about what is wrong with the text:
about nesting if the limit is, that is, if a reader with a level for every token would not have
stopped there in the same way; about a literal or a character if the text has no tokens; and about
the grammar else, whatever names and literals stand in the text. -/
theorem diagnostic_classified (source : String) (limit unlimited : Nat) (e : ParseError)
    (hparse : Tree.parse limit source = .error e)
    (henough : ∀ ts, tokenize source = .ok ts → ts.length ≤ unlimited) :
    Classified source limit unlimited e := by
  cases htokens : tokenize source with
  | error x =>
    rw [Tree.parse, htokens] at hparse
    cases hparse
    exact classified_lexical htokens
  | ok ts =>
    obtain ⟨x, rfl, -⟩ := Tree.parse_error htokens hparse
    exact classified_grammar htokens (henough ts htokens) hparse

/-- A name made of the words, without its parentheses: the error names it and is about the
grammar. -/
theorem diagnostic_classified_wordsInName :
    let source := "levels.of.nesting[1]"
    let e : ParseError := .grammar ⟨17, .arguments "levels.of.nesting", .token (.mark .openBracket)⟩
    Tree.parse 1 source = .error e ∧ (∀ ts, tokenize source = .ok ts → ts.length ≤ 4) ∧
      Classified source 1 4 e ∧ (e.diagnostic source).topic = .grammar := by
  intro source e
  have htokens : tokenize source = .ok [⟨.name "levels.of.nesting", ⟨0, 17⟩⟩,
      ⟨.mark .openBracket, ⟨17, 18⟩⟩, ⟨.number "1", ⟨18, 19⟩⟩, ⟨.mark .closeBracket, ⟨19, 20⟩⟩] :=
    tokenize_of_toOption (by decide +kernel)
  have hparse : ∀ limit, limit = 1 ∨ limit = 4 → Tree.parse limit source = .error e := by
    rintro limit (rfl | rfl)
    · rw [Tree.parse, htokens]
      rfl
    · rw [Tree.parse, htokens]
      rfl
  have henough : ∀ ts, tokenize source = .ok ts → ts.length ≤ 4 := by
    intro ts hts
    rw [htokens] at hts
    cases hts
    decide
  have hclassified := diagnostic_classified source 1 4 e (hparse 1 (.inl rfl)) henough
  exact ⟨hparse 1 (.inl rfl), henough, hclassified,
    hclassified.grammar_iff.2 ⟨⟨_, htokens⟩, hparse 4 (.inr rfl)⟩⟩

end ParseError

end ObjectSpec
