import ObjectSpec.Proofs.Spec.Canonical
import ObjectSpec.Proofs.Token.Replacement

/-!
# Texts that are one raw text

A raw text with nothing but blanks around it (`Encloses`) is the only text that is read as a raw
text (`Tree.parse_raw`), whatever the limit of nesting is. Its content ends at the first marker
behind the opening one, so that quotes may start it but none may end it. A spec of such a text keeps
it as it is, and is built to its content without a call of a constructor (`rawText_spec`).
-/

namespace ObjectSpec

open Text (byteCount allBlank)

/-! ## The one token -/

/-- The text is a raw text of this content with nothing but blanks around it. -/
def Encloses (source content : String) : Prop :=
  ∃ before written after : String, source = before ++ written ++ after ∧
    allBlank before.toList = true ∧ allBlank after.toList = true ∧ Token.IsRaw written content

theorem Encloses.splits {source content : String} (h : Encloses source content) :
    ∃ written, Splits source.toList [.raw written content] := by
  obtain ⟨before, written, after, rfl, hbefore, hafter, hraw⟩ := h
  have hbehind : Splits after.toList [] := .done (Text.skipBlank_eq_nil_iff.2 hafter)
  have hends : Ends after.toList := hbehind.ends (by simp)
  refine ⟨written, ?_⟩
  rw [String.toList_append, String.toList_append, List.append_assoc]
  apply Splits.gap hbefore
  exact (Token.stable_raw hraw).spells after.toList [] hends hbehind

theorem Splits.encloses {source written content : String}
    (h : Splits source.toList [.raw written content]) : Encloses source content := by
  have hraw : Token.IsRaw written content := h.wellFormed _ List.mem_cons_self
  cases h with
  | @token _ c cs t rest ts hskip hnext hrest =>
    cases hrest with
    | done hblank =>
      obtain ⟨gap, hsource, hgap, -⟩ := Text.exists_gap hskip
      refine ⟨String.ofList gap, written, String.ofList rest, ?_, ?_, ?_, hraw⟩
      · apply String.toList_inj.1
        rw [hsource, (Token.written_of_next hnext).1, Token.written]
        simp
      · rwa [String.toList_ofList]
      · rw [String.toList_ofList]
        exact Text.skipBlank_eq_nil_iff.1 hblank

/-- The tokens of a text are one raw text just if nothing but blanks stand around it. -/
theorem tokenize_raw_iff {source content : String} :
    (∃ written s, tokenize source = .ok [⟨.raw written content, s⟩]) ↔
      Encloses source content := by
  constructor
  · rintro ⟨written, s, h⟩
    exact (splits_iff.2 ⟨_, h, rfl⟩ : Splits source.toList [.raw written content]).encloses
  · intro h
    obtain ⟨written, hsplits⟩ := h.splits
    obtain ⟨ps, hps, htokens⟩ := splits_iff.1 hsplits
    obtain ⟨⟨t, s⟩, rfl, rfl⟩ := List.map_eq_singleton_iff.1 htokens
    exact ⟨written, s, hps⟩

/-! ## The tree -/

/-- A raw text is derived by its own token alone. -/
theorem Derives.tokens_of_raw {ps : List Placed} {written content : String} {span : Span}
    (h : Derives ps (.raw written content span)) : ps = [⟨.raw written content, span⟩] := by
  cases h
  rfl

/-- The root of a tree is a raw text just if the text is one raw text with blanks around it: the
node then stands for the whole text. -/
theorem Tree.parse_raw {limit : Nat} {source written content : String} {span : Span} :
    parse limit source = .ok (.raw written content span) ↔
      written = source ∧ span = ⟨0, byteCount source.toList⟩ ∧ Encloses source content := by
  rw [parse_ok, ← tokenize_raw_iff]
  constructor
  · rintro ⟨ps, hps, hd, -⟩
    rcases hd.raw_or with ⟨w, c, s, rfl, ht⟩ | ⟨hne, hderives⟩
    · cases ht
      exact ⟨rfl, rfl, w, s, hps⟩
    · -- A raw text takes one token, and that was excluded.
      exact absurd hderives.tokens_of_raw (hne written content span)
  · rintro ⟨rfl, rfl, w, s, hps⟩
    exact ⟨_, hps, rfl, Nat.zero_le limit⟩

/-! ## The spec -/

/-- The spec keeps the text as it is, and its instances are the content. No constructor is called,
so that the state stays as it is. -/
structure Spec.Keeps {σ : Type} (source content : String) (spec : Spec σ) : Prop where
  root_eq : spec.root = .raw source content ⟨0, byteCount source.toList⟩
  text_eq : spec.text = source
  instantiate_eq : ∀ (context : Context) (s : σ),
    spec.instantiate context s = .ok (.text content) s
  calls_eq : ∀ (context : Context) (s : σ), spec.calls context s = []

theorem Spec.keeps_of_root {σ : Type} {source content : String} {spec : Spec σ}
    (h : spec.root = .raw source content ⟨0, byteCount source.toList⟩) :
    spec.Keeps source content := by
  refine ⟨h, ?_, fun context s => ?_, fun context s => ?_⟩
  · rw [text, h, Tree.render]
  · rw [instantiate, h, Tree.build]
    rfl
  · rw [calls, h, Tree.calls]

/-- Under every limit, the root of a tree is a raw text just if the text is one raw text with
nothing but blanks around it. It then stands for the whole text, and every repository makes a spec
of it that keeps the text and is built to the content without a call. -/
theorem rawText_spec (source content : String) :
    (∀ (limit : Nat) (written : String) (span : Span),
      Tree.parse limit source = .ok (.raw written content span) ↔
        written = source ∧ span = ⟨0, byteCount source.toList⟩ ∧ Encloses source content) ∧
    (Encloses source content → ∀ {σ : Type} (repo : Repo σ) (owner : Urn),
      ∃ spec, repo.make owner source = .ok spec ∧ spec.Keeps source content) := by
  refine ⟨fun limit written span => Tree.parse_raw, fun h σ repo owner => ?_⟩
  have hparse : Tree.parse repo.settings.maxDepth source =
      .ok (.raw source content ⟨0, byteCount source.toList⟩) := Tree.parse_raw.2 ⟨rfl, rfl, h⟩
  exact ⟨_, Repo.make_ok.2 ⟨_, hparse, rfl⟩, Spec.keeps_of_root rfl⟩

/-- Blanks of one and of three bytes around a content that starts with two quotes, and has another
one behind a backslash. -/
def quotesFirst : String := "\n\"\"\"\"\"a\\\"b\"\"\"\u3000"

theorem rawText_spec_quotesFirst :
    Encloses quotesFirst "\"\"a\\\"b" ∧
    ∃ spec, (⟨.standard, ⟨0, []⟩⟩ : Repo Unit).make .anonymous quotesFirst = .ok spec ∧
      spec.Keeps quotesFirst "\"\"a\\\"b" := by
  have hraw : Token.IsRaw "\"\"\"\"\"a\\\"b\"\"\"" "\"\"a\\\"b" :=
    ⟨rfl, by decide +kernel, by decide⟩
  have hencloses : Encloses quotesFirst "\"\"a\\\"b" :=
    ⟨"\n", _, "\u3000", rfl, by decide, by decide, hraw⟩
  exact ⟨hencloses, (rawText_spec _ _).2 hencloses _ _⟩

end ObjectSpec
