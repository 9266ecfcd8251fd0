import ObjectSpec.Proofs.Double.Notation
import ObjectSpec.Proofs.Grammar.Acceptance

/-!
# Reading undoes writing

A tree is written as a row of tokens, with a space after some of them. Each token is
read back from its own text, since a mark or the end of the text follows it
(`spells_render`), and the row derives the tree again (`derives_tokens`).

This holds of the trees that can be written at all: their doubles are finite, their
type names are paths, and their raw texts end at their own markers.
-/

namespace ObjectSpec

/-! ## Trees that can be written -/

namespace Tree

/-- The tree has a text that stands for it. -/
inductive WellFormed : Tree → Prop
  | literal {l} : (∀ d, l = .double d → d.isFinite = true) → WellFormed (.literal l)
  | construct {typeName args span} : Token.IsTypeName typeName → (∀ a ∈ args, WellFormed a) →
      WellFormed (.construct typeName args span)
  | array {items span} : (∀ a ∈ items, WellFormed a) → WellFormed (.array items span)
  | map {entries span} : (∀ e ∈ entries, WellFormed e.2) → WellFormed (.map entries span)
  | raw {written content span} : Token.IsRaw written content →
      WellFormed (.raw written content span)

end Tree

/-! ## The tokens of the canonical text -/

/-- The token that a literal is written as. -/
def Literal.token (l : Literal) : Token :=
  match l with
  | .boolean b => .boolean b
  | .string text => .quoted (Text.quote text) text '\x22'
  | _ => .number l.render

namespace Tree

/-- An opening mark, parts with commas between them, and the closing mark. -/
def encloseTokens (openMark closeMark : Mark) (parts : List (List Token)) : List Token :=
  .mark openMark :: ([.mark .comma].intercalate parts ++ [.mark closeMark])

mutual

/-- The tokens of the canonical text. -/
def tokens : Tree → List Token
  | .literal l => [l.token]
  | .construct typeName args _ =>
    .name typeName :: encloseTokens .openParen .closeParen (tokensList args)
  | .array items _ => encloseTokens .openBracket .closeBracket (tokensList items)
  | .map entries _ => encloseTokens .openBrace .closeBrace (tokensEntries entries)
  | .raw written content _ => [.raw written content]

def tokensList : List Tree → List (List Token)
  | [] => []
  | t :: ts => tokens t :: tokensList ts

def tokensEntries : List (String × Tree) → List (List Token)
  | [] => []
  | (key, t) :: es =>
    (.quoted (Text.quote key) key '\x22' :: .mark .colon :: tokens t) :: tokensEntries es

end

theorem tokensList_eq (ts : List Tree) : tokensList ts = ts.map tokens := by
  induction ts with
  | nil => rfl
  | cons t ts ih => rw [tokensList, ih, List.map_cons]

theorem tokensEntries_eq (es : List (String × Tree)) :
    tokensEntries es =
      es.map fun e => .quoted (Text.quote e.1) e.1 '\x22' :: .mark .colon :: tokens e.2 := by
  induction es with
  | nil => rfl
  | cons e es ih => rw [tokensEntries, ih, List.map_cons]

theorem renderList_eq (ts : List Tree) : renderList ts = ts.map render := by
  induction ts with
  | nil => rfl
  | cons t ts ih => rw [renderList, ih, List.map_cons]

theorem renderEntries_eq (es : List (String × Tree)) :
    renderEntries es = es.map fun e => Text.quote e.1 ++ ": " ++ e.2.render := by
  induction es with
  | nil => rfl
  | cons e es ih => rw [renderEntries, ih, List.map_cons]

end Tree

/-! ## Reading the tokens off the text -/

section Lists
variable {α : Type} {text : α → List Char} {parts : α → List Token} {items : List α}

/-- A comma and blanks between the texts are a comma between the tokens. -/
theorem spells_intercalate {gap : List Char} (hgap : Text.allBlank gap = true)
    (h : ∀ a ∈ items, Spells (text a) (parts a)) :
    Spells ((',' :: gap).intercalate (items.map text))
      ([.mark .comma].intercalate (items.map parts)) := by
  induction items with
  | nil =>
    intro rest more _ hs
    exact hs
  | cons a items ih =>
    have ha := h a List.mem_cons_self
    have hitems := ih fun b hb => h b (List.mem_cons_of_mem a hb)
    cases items with
    | nil => simpa using ha
    | cons b items =>
      intro rest more hr hs
      rw [List.map_cons, List.map_cons, List.intercalate_cons_cons, List.map_cons, List.map_cons,
        List.intercalate_cons_cons]
      simp only [List.append_assoc, List.cons_append]
      -- The comma ends the last token of the first text.
      exact ha _ _ (.mark .comma _) (.mark .comma (.gap hgap (hitems rest more hr hs)))

theorem spells_enclosed (openMark closeMark : Mark) (gap : List Char)
    (hgap : Text.allBlank gap = true)
    (h : ∀ a ∈ items, Spells (text a) (parts a)) :
    Spells (openMark.char :: ((',' :: gap).intercalate (items.map text) ++ [closeMark.char]))
      (Tree.encloseTokens openMark closeMark (items.map parts)) := by
  intro rest more _ hs
  have hlist := spells_intercalate hgap h (closeMark.char :: rest) (.mark closeMark :: more)
    (.mark closeMark rest) (hs.mark closeMark)
  rw [Tree.encloseTokens]
  simp only [List.cons_append, List.append_assoc]
  exact hlist.mark openMark

/-- The name ends where the arguments are opened. -/
theorem spells_call {typeName : String} (hname : Token.IsTypeName typeName) (gap : List Char)
    (hgap : Text.allBlank gap = true) (h : ∀ a ∈ items, Spells (text a) (parts a)) :
    Spells (typeName.toList ++
        Mark.openParen.char :: ((',' :: gap).intercalate (items.map text) ++ [Mark.closeParen.char]))
      (.name typeName :: Tree.encloseTokens .openParen .closeParen (items.map parts)) := by
  intro rest more hr hs
  have hlist := spells_enclosed .openParen .closeParen gap hgap h rest more hr hs
  rw [List.append_assoc]
  exact (Token.stable_name hname).spells _ _ (.mark .openParen _) hlist

theorem spells_entry (key : String) (gap : List Char) (hgap : Text.allBlank gap = true)
    {value : List Char} {ts : List Token} (h : Spells value ts) :
    Spells ((Text.quote key).toList ++ Mark.colon.char :: (gap ++ value))
      (.quoted (Text.quote key) key '\x22' :: .mark .colon :: ts) := by
  intro rest more hr hs
  have hvalue : Splits (Mark.colon.char :: (gap ++ (value ++ rest))) _ :=
    (Splits.gap hgap (h rest more hr hs)).mark .colon
  rw [List.append_assoc, List.cons_append, List.append_assoc]
  exact (Token.stable_quote key).spells _ _ (.mark .colon _) hvalue

theorem enclose_toList (openMark closeMark : Mark) (text : α → String) (items : List α) :
    (Tree.enclose openMark closeMark (items.map text)).toList =
      openMark.char :: ([',', ' '].intercalate (items.map fun a => (text a).toList) ++
        [closeMark.char]) := by
  simp only [Tree.enclose, Tree.separator, Char.toString, String.toList_append,
    String.toList_singleton, String.toList_intercalate, List.map_map, List.cons_append]
  rfl

end Lists

namespace Literal

theorem written_token (l : Literal) : l.token.written = l.render := by cases l <;> rfl

theorem numeric_or {l : Literal} (h : ∀ d, l = .double d → d.isFinite = true) :
    (l.Numeric ∧ l.token = .number l.render) ∨ (∃ b, l = .boolean b) ∨ ∃ s, l = .string s := by
  cases l with
  | integer n => exact .inl ⟨.integer n, rfl⟩
  | long n => exact .inl ⟨.long n, rfl⟩
  | double d => exact .inl ⟨.double (h d rfl), rfl⟩
  | boolean b => exact .inr (.inl ⟨b, rfl⟩)
  | string s => exact .inr (.inr ⟨s, rfl⟩)

theorem stable_token {l : Literal} (h : ∀ d, l = .double d → d.isFinite = true) :
    l.token.Stable := by
  rcases numeric_or h with ⟨hn, ht⟩ | ⟨b, rfl⟩ | ⟨s, rfl⟩
  · rw [ht]
    exact Token.stable_number (isNumeral_render hn)
  · exact Token.stable_boolean b
  · exact Token.stable_quote s

theorem derives_token {l : Literal} (h : ∀ d, l = .double d → d.isFinite = true) (s : Span) :
    Derives [⟨l.token, s⟩] (.literal l) := by
  rcases numeric_or h with ⟨hn, ht⟩ | ⟨b, rfl⟩ | ⟨text, rfl⟩
  · rw [ht]
    exact .number (ofNumeral_render hn)
  · exact .boolean
  · exact .string

end Literal

/-- The canonical text of a tree that can be written gives the tokens of the tree. -/
theorem Tree.spells_render {t : Tree} (h : t.WellFormed) : Spells t.render.toList t.tokens := by
  -- What follows the tree is left open, so that it may be the rest of a larger one.
  induction t with
  | literal l =>
    cases h with
    | literal hl =>
      rw [Tree.render, Tree.tokens, ← Literal.written_token]
      exact (Literal.stable_token hl).spells
  | construct typeName args span ih =>
    cases h with
    | construct hname hargs =>
      rw [Tree.render, Tree.tokens, renderList_eq, tokensList_eq, String.toList_append,
        enclose_toList]
      exact spells_call hname [' '] rfl fun a ha => ih a ha (hargs a ha)
  | array items span ih =>
    cases h with
    | array hitems =>
      rw [Tree.render, Tree.tokens, renderList_eq, tokensList_eq, enclose_toList]
      exact spells_enclosed .openBracket .closeBracket [' '] rfl fun a ha => ih a ha (hitems a ha)
  | map entries span ih =>
    cases h with
    | map hentries =>
      rw [Tree.render, Tree.tokens, renderEntries_eq, tokensEntries_eq, enclose_toList]
      refine spells_enclosed .openBrace .closeBrace [' '] rfl fun e he => ?_
      have hcolon : (Text.quote e.1 ++ ": " ++ e.2.render).toList =
          (Text.quote e.1).toList ++ ':' :: ([' '] ++ e.2.render.toList) := by
        rw [String.toList_append, String.toList_append, List.append_assoc]
        rfl
      rw [hcolon]
      exact spells_entry e.1 [' '] rfl (ih e he (hentries e he))
  | raw written content span =>
    cases h with
    | raw hraw => exact (Token.stable_raw hraw).spells

/-! ## Deriving the tree from the tokens -/

section Lists
variable {α β γ : Type} {part : List Placed → β → Prop} {parts : α → List Token}
  {f : α → γ} {g : β → γ} {items : List α}

/-- A row that is spelled like a list of items, wherever its tokens stand, is a list of parts that
are like the items. -/
theorem separated_of_tokens (hne : items ≠ [])
    (h : ∀ a ∈ items, ∀ ps : List Placed, ps.map Placed.token = parts a →
      ∃ b, part ps b ∧ g b = f a)
    {ps : List Placed} (hps : ps.map Placed.token = [.mark .comma].intercalate (items.map parts)) :
    ∃ bs, Separated part ps bs ∧ bs.map g = items.map f := by
  induction items generalizing ps with
  | nil => exact absurd rfl hne
  | cons a items ih =>
    have ha := h a List.mem_cons_self
    cases items with
    | nil =>
      obtain ⟨b, hb, hg⟩ := ha ps (by simpa using hps)
      exact ⟨[b], .one hb, by rw [List.map_singleton, List.map_singleton, hg]⟩
    | cons c items =>
      rw [List.map_cons, List.map_cons, List.intercalate_cons_cons, List.append_assoc,
        List.map_eq_append_iff] at hps
      obtain ⟨first, tail, rfl, hfirst, htail⟩ := hps
      rw [List.singleton_append, List.map_eq_cons_iff] at htail
      obtain ⟨⟨token, s⟩, rest, rfl, hcomma, hrest⟩ := htail
      obtain rfl : token = .mark .comma := hcomma
      obtain ⟨b, hb, hg⟩ := ha first hfirst
      obtain ⟨bs, hbs, hgs⟩ := ih (by simp) (fun d hd => h d (List.mem_cons_of_mem a hd)) hrest
      refine ⟨b :: bs, .more hb hbs, ?_⟩
      rw [List.map_cons, hg, hgs]
      rfl

theorem listed_of_tokens
    (h : ∀ a ∈ items, ∀ ps : List Placed, ps.map Placed.token = parts a →
      ∃ b, part ps b ∧ g b = f a)
    {ps : List Placed} (hps : ps.map Placed.token = [.mark .comma].intercalate (items.map parts)) :
    ∃ bs, Listed part ps bs ∧ bs.map g = items.map f := by
  by_cases hne : items = []
  · subst hne
    obtain rfl : ps = [] := List.map_eq_nil_iff.1 hps
    exact ⟨[], .none, rfl⟩
  · obtain ⟨bs, hbs, hgs⟩ := separated_of_tokens hne h hps
    exact ⟨bs, .some hbs, hgs⟩

theorem enclosed_of_tokens {openMark closeMark : Mark}
    (h : ∀ a ∈ items, ∀ ps : List Placed, ps.map Placed.token = parts a →
      ∃ b, part ps b ∧ g b = f a)
    {ps : List Placed}
    (hps : ps.map Placed.token = Tree.encloseTokens openMark closeMark (items.map parts)) :
    ∃ s e ts bs, ps = ⟨.mark openMark, s⟩ :: (ts ++ [⟨.mark closeMark, e⟩]) ∧
      Listed part ts bs ∧ bs.map g = items.map f := by
  rw [Tree.encloseTokens, List.map_eq_cons_iff] at hps
  obtain ⟨⟨_, s⟩, tail, rfl, rfl, htail⟩ := hps
  obtain ⟨ts, last, rfl, hts, hlast⟩ := List.map_eq_append_iff.1 htail
  obtain ⟨⟨_, e⟩, rfl, rfl⟩ := List.map_eq_singleton_iff.1 hlast
  obtain ⟨bs, hbs, hgs⟩ := listed_of_tokens h hts
  exact ⟨s, e, ts, bs, rfl, hbs, hgs⟩

end Lists

section Nodes
variable {α : Type} {parts : α → List Token} {f : α → Tree} {items : List α}

theorem construct_of_tokens {typeName : String}
    (h : ∀ a ∈ items, ∀ ps : List Placed, ps.map Placed.token = parts a →
      ∃ u, Derives ps u ∧ u.shape = (f a).shape)
    {ps : List Placed} (hps : ps.map Placed.token =
      .name typeName :: Tree.encloseTokens .openParen .closeParen (items.map parts)) (span : Span) :
    ∃ u, Derives ps u ∧ u.shape = (Tree.construct typeName (items.map f) span).shape := by
  obtain ⟨⟨_, s⟩, tail, rfl, rfl, htail⟩ := List.map_eq_cons_iff.1 hps
  obtain ⟨p, e, ts, us, rfl, hts, hus⟩ := enclosed_of_tokens h htail
  refine ⟨_, .construct hts, ?_⟩
  rw [Tree.shape_construct, Tree.shape_construct, hus, List.map_map]
  rfl

theorem array_of_tokens
    (h : ∀ a ∈ items, ∀ ps : List Placed, ps.map Placed.token = parts a →
      ∃ u, Derives ps u ∧ u.shape = (f a).shape)
    {ps : List Placed} (hps : ps.map Placed.token =
      Tree.encloseTokens .openBracket .closeBracket (items.map parts)) (span : Span) :
    ∃ u, Derives ps u ∧ u.shape = (Tree.array (items.map f) span).shape := by
  obtain ⟨s, e, ts, us, rfl, hts, hus⟩ := enclosed_of_tokens h hps
  refine ⟨_, .array hts, ?_⟩
  rw [Tree.shape_array, Tree.shape_array, hus, List.map_map]
  rfl

theorem map_of_tokens (key : α → String)
    (h : ∀ a ∈ items, ∀ ps : List Placed, ps.map Placed.token = parts a →
      ∃ u, Derives ps u ∧ u.shape = (f a).shape)
    {ps : List Placed} (hps : ps.map Placed.token = Tree.encloseTokens .openBrace .closeBrace
      (items.map fun a => .quoted (Text.quote (key a)) (key a) '\x22' :: .mark .colon :: parts a))
    (span : Span) :
    ∃ u, Derives ps u ∧ u.shape = (Tree.map (items.map fun a => (key a, f a)) span).shape := by
  have hentry : ∀ a ∈ items, ∀ ps : List Placed,
      ps.map Placed.token =
        .quoted (Text.quote (key a)) (key a) '\x22' :: .mark .colon :: parts a →
      ∃ b, Entry Derives ps b ∧ (b.1, b.2.shape) = (key a, (f a).shape) := by
    intro a ha ps hps
    obtain ⟨⟨_, k⟩, tail, rfl, rfl, htail⟩ := List.map_eq_cons_iff.1 hps
    obtain ⟨⟨_, p⟩, rest, rfl, rfl, hrest⟩ := List.map_eq_cons_iff.1 htail
    obtain ⟨u, hu, hshape⟩ := h a ha rest hrest
    exact ⟨(key a, u), .mk hu, by rw [hshape]⟩
  obtain ⟨s, e, ts, us, rfl, hts, hus⟩ := enclosed_of_tokens hentry hps
  refine ⟨_, .map hts, ?_⟩
  rw [Tree.shape_map, Tree.shape_map, hus, List.map_map]
  rfl

end Nodes

/-- Tokens like those of a tree derive the tree, but for the spans. -/
theorem Tree.derives_tokens {t : Tree} (h : t.WellFormed) {ps : List Placed}
    (hps : ps.map Placed.token = t.tokens) : ∃ u, Derives ps u ∧ u.shape = t.shape := by
  induction t generalizing ps with
  | literal l =>
    cases h with
    | literal hl =>
      obtain ⟨⟨_, s⟩, rfl, rfl⟩ := List.map_eq_singleton_iff.1 hps
      exact ⟨_, Literal.derives_token hl s, rfl⟩
  | construct typeName args span ih =>
    cases h with
    | construct _ hargs =>
      rw [tokens, tokensList_eq] at hps
      have hu := construct_of_tokens (f := id) (fun a ha ps hps => ih a ha (hargs a ha) hps) hps span
      rwa [List.map_id] at hu
  | array items span ih =>
    cases h with
    | array hitems =>
      rw [tokens, tokensList_eq] at hps
      have hu := array_of_tokens (f := id) (fun a ha ps hps => ih a ha (hitems a ha) hps) hps span
      rwa [List.map_id] at hu
  | map entries span ih =>
    cases h with
    | map hentries =>
      rw [tokens, tokensEntries_eq] at hps
      have hu := map_of_tokens (f := Prod.snd) Prod.fst
        (fun e he ps hps => ih e he (hentries e he) hps) hps span
      rwa [List.map_id''] at hu
      exact fun e => rfl
  | raw written content span =>
    obtain ⟨⟨_, s⟩, rfl, rfl⟩ := List.map_eq_singleton_iff.1 hps
    exact ⟨_, .raw, rfl⟩

/-! ## The round trip -/

/-- A derivation is one of a whole spec, if a raw text alone is the whole text. -/
theorem Derives.spec {ps : List Placed} {t : Tree} (h : Derives ps t) {source : String}
    (hraw : ∀ written content s, t = .raw written content s → written = source) :
    ∃ u, DerivesSpec source ps u ∧ u.shape = t.shape := by
  cases h with
  | @raw written content s =>
    refine ⟨_, rfl, ?_⟩
    rw [← hraw written content s rfl]
    rfl
  | construct h => exact ⟨_, (derivesSpec_of_ne_raw (by simp)).2 (.construct h), rfl⟩
  | array h => exact ⟨_, (derivesSpec_of_ne_raw (by simp)).2 (.array h), rfl⟩
  | map h => exact ⟨_, (derivesSpec_of_ne_raw (by simp)).2 (.map h), rfl⟩
  | string => exact ⟨_, (derivesSpec_of_ne_raw (by simp)).2 .string, rfl⟩
  | boolean => exact ⟨_, (derivesSpec_of_ne_raw (by simp)).2 .boolean, rfl⟩
  | number h => exact ⟨_, (derivesSpec_of_ne_raw (by simp)).2 (.number h), rfl⟩

namespace Tree

/-- The canonical text has tokens, and they derive the tree. -/
theorem tokenize_render {t : Tree} (h : t.WellFormed) :
    ∃ ps u, tokenize t.render = .ok ps ∧ DerivesSpec t.render ps u ∧ u.shape = t.shape := by
  obtain ⟨ps, hps, htokens⟩ := splits_iff.1 (spells_render h).splits
  obtain ⟨u, hu, hshape⟩ := derives_tokens h htokens
  have hraw : ∀ written content s, u = .raw written content s → written = t.render := by
    rintro written content s rfl
    rw [← render_eq_of_shape hshape]
    rfl
  obtain ⟨v, hv, hvshape⟩ := hu.spec hraw
  exact ⟨ps, v, hps, hv, hvshape.trans hshape⟩

/-- The canonical text of a tree is read as that tree, but for the spans, under every limit that
the tree keeps. -/
theorem parse_render {t : Tree} (h : t.WellFormed) {limit : Nat} (hd : t.depth ≤ limit) :
    ∃ u, parse limit t.render = .ok u ∧ u.shape = t.shape := by
  obtain ⟨ps, u, hps, hu, hshape⟩ := tokenize_render h
  refine ⟨u, parse_ok.2 ⟨ps, hps, hu, ?_⟩, hshape⟩
  rw [depth_eq_of_shape hshape]
  exact hd

/-- A construct of two levels: negative zero, and a map with one key for an empty text and for a
raw one. -/
def mixedCall : Tree :=
  .construct "a.B" [.literal (.double ⟨0x8000000000000000⟩),
    .map [("k", .literal (.string "")), ("k", .raw "\"\"\"x\"\"\"" "x" {})] {}] {}

theorem parse_render_mixedCall :
    mixedCall.render = "a.B(-0.0, \x7b\"k\": \"\", \"k\": \"\"\"x\"\"\"\x7d)" ∧
    mixedCall.WellFormed ∧ mixedCall.depth ≤ 2 ∧
    ∃ u, parse 2 mixedCall.render = .ok u ∧ u.shape = mixedCall.shape := by
  have hname : Token.IsTypeName "a.B" := by
    refine ⟨⟨[['a'], ['B']], by simp, ?_, by decide⟩, by decide⟩
    simp only [List.mem_cons, List.not_mem_nil, or_false, forall_eq_or_imp, forall_eq]
    exact ⟨⟨'a', [], rfl, rfl, by simp⟩, ⟨'B', [], rfl, rfl, by simp⟩⟩
  have hraw : Token.IsRaw "\"\"\"x\"\"\"" "x" := ⟨by decide, by decide, by decide⟩
  have hzero : WellFormed (.literal (.double ⟨0x8000000000000000⟩)) := .literal fun d hd => by
    cases hd
    decide
  have htext : WellFormed (.literal (.string "")) := .literal fun d hd => by cases hd
  have hwf : mixedCall.WellFormed := by
    refine .construct hname fun a ha => ?_
    simp only [List.mem_cons, List.not_mem_nil, or_false] at ha
    rcases ha with rfl | rfl
    · exact hzero
    · refine .map fun e he => ?_
      simp only [List.mem_cons, List.not_mem_nil, or_false] at he
      rcases he with rfl | rfl
      · exact htext
      · exact .raw hraw
  have hdepth : mixedCall.depth ≤ 2 := by decide
  exact ⟨by decide +kernel, hwf, hdepth, parse_render hwf hdepth⟩

end Tree

end ObjectSpec
