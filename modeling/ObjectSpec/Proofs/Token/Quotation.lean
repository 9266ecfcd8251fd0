import ObjectSpec.Proofs.Token.Scanning

/-!
# Quoted and raw texts as tokens

A quoted text ends at its own closing quote, because every such quote in it has a
backslash in front of it (`closeQuote?_eq_some`). A raw text knows no escape, so it can
only hold what has no marker in it and does not run into the closing one: that is
`RawContent`, and reading gives nothing else (`closeRaw?_eq_some`).
-/

namespace ObjectSpec

namespace Text

/-! ## Quoted texts -/

theorem ne_backslash_of_quote {q : Char} (h : q = '\x22' ∨ q = '\x27') : q ≠ '\\' := by
  rintro rfl
  exact absurd h (by decide)

theorem isBlank_of_quote {q : Char} (h : q = '\x22' ∨ q = '\x27') : isBlank q = false := by
  rcases h with rfl | rfl <;> decide

theorem closeQuote?_quote {q : Char} (hq : q ≠ '\\') (rest : List Char) :
    closeQuote? q (q :: rest) = some ([], rest) := by
  cases rest <;> simp [closeQuote?, hq]

theorem closeQuote?_cons {q c : Char} (hc : c ≠ '\\') (hcq : c ≠ q) (cs : List Char) :
    closeQuote? q (c :: cs) =
      (closeQuote? q cs).map fun (body, rest) => (c :: body, rest) := by
  cases cs <;> simp [closeQuote?, hc, hcq]

/-- What can stand between two quotes: no such quote, unless a backslash stands before it. -/
inductive QuoteBody (q : Char) : List Char → Prop
  | nil : QuoteBody q []
  | pair {d body} : QuoteBody q body → QuoteBody q ('\\' :: d :: body)
  | char {c body} : c ≠ '\\' → c ≠ q → QuoteBody q body → QuoteBody q (c :: body)

/-- A quoted text is read up to its closing quote just if it can stand between quotes. -/
theorem closeQuote?_eq_some {q : Char} (hq : q ≠ '\\') {cs body rest : List Char} :
    closeQuote? q cs = some (body, rest) ↔ cs = body ++ q :: rest ∧ QuoteBody q body := by
  constructor
  · intro h
    refine ⟨eq_of_closeQuote? h, ?_⟩
    fun_induction closeQuote? q cs generalizing body rest with
    | case1 => cases h
    | case2 =>
      cases h
      exact .nil
    | case3 => cases h
    | case4 d cs ih =>
      obtain ⟨⟨b, r⟩, hb, he⟩ := Option.map_eq_some_iff.1 h
      cases he
      exact .pair (ih hb)
    | case5 =>
      cases h
      exact .nil
    | case6 c d cs hc hcq ih =>
      obtain ⟨⟨b, r⟩, hb, he⟩ := Option.map_eq_some_iff.1 h
      cases he
      exact .char hc hcq (ih hb)
  · rintro ⟨rfl, h⟩
    induction h with
    | nil => exact closeQuote?_quote hq rest
    | pair _ ih =>
      rw [List.cons_append, List.cons_append, closeQuote?, if_pos rfl, ih]
      rfl
    | char hc hcq _ ih =>
      rw [List.cons_append, closeQuote?_cons hc hcq, ih]
      rfl

theorem quoteBody_escape (cs : List Char) : QuoteBody '\x22' (escape cs) := by
  induction cs with
  | nil => exact .nil
  | cons c cs ih =>
    by_cases h : c = '\x22' ∨ c = '\\'
    · rw [escape, if_pos h]
      exact .pair ih
    · rw [escape, if_neg h]
      exact .char (fun e => h (.inr e)) (fun e => h (.inl e)) ih

/-- A quoted text starts like a raw one just if it is empty and a quote follows. -/
theorem rawMarker_prefix_quoted {q : Char} {body rest : List Char} (h : QuoteBody q body) :
    rawMarker <+: q :: (body ++ q :: rest) ↔ q = '\x22' ∧ body = [] ∧ '\x22' ∈ rest.head? := by
  constructor
  · rintro ⟨tail, ht⟩
    simp only [rawMarker, List.cons_append, List.nil_append, List.cons.injEq] at ht
    obtain ⟨rfl, ht⟩ := ht
    -- The second quote of the marker can only be the closing one.
    cases h with
    | nil =>
      rw [List.nil_append, List.cons.injEq] at ht
      exact ⟨rfl, rfl, by rw [← ht.2]; rfl⟩
    | pair _ => exact absurd (List.cons.inj ht).1 (by decide)
    | char _ hq _ => exact absurd (List.cons.inj ht).1.symm hq
  · rintro ⟨rfl, rfl, hrest⟩
    obtain ⟨tail, rfl⟩ := List.head?_eq_some_iff.1 hrest
    exact ⟨tail, rfl⟩

/-! ## Raw texts -/

/-- What can stand between raw markers. -/
structure RawContent (content : List Char) : Prop where
  free : ¬ rawMarker <:+: content
  last : content.getLast? ≠ some '\x22'

theorem RawContent.tail {c : Char} {cs : List Char} (h : RawContent (c :: cs)) :
    RawContent cs := by
  refine ⟨fun hi => h.free (hi.trans (List.suffix_cons c cs).isInfix), fun hl => h.last ?_⟩
  rw [List.getLast?_cons, hl]
  rfl

/-- The marker behind a content is the first one. -/
theorem RawContent.not_prefix {c : Char} {cs : List Char} (h : RawContent (c :: cs))
    (rest : List Char) : ¬ rawMarker <+: c :: cs ++ rawMarker ++ rest := by
  rintro ⟨tail, ht⟩
  -- The marker would lie in the content, or its first quotes would be the last of the content.
  match cs with
  | [] =>
    apply h.last
    simp only [rawMarker, List.cons_append, List.cons.injEq] at ht
    rw [← ht.1]
    rfl
  | [d] =>
    apply h.last
    simp only [rawMarker, List.cons_append, List.cons.injEq] at ht
    rw [← ht.2.1]
    rfl
  | d :: e :: more =>
    apply h.free
    simp only [rawMarker, List.cons_append, List.nil_append, List.cons.injEq] at ht
    obtain ⟨rfl, rfl, rfl, -⟩ := ht
    exact ⟨[], more, rfl⟩

theorem RawContent.cons {c : Char} {cs rest : List Char} (h : RawContent cs)
    (hp : ¬ rawMarker <+: c :: cs ++ rawMarker ++ rest) : RawContent (c :: cs) := by
  constructor
  · intro hi
    rcases List.infix_cons_iff.1 hi with hpre | hi
    · exact hp ((hpre.trans (List.prefix_append _ _)).trans (List.prefix_append _ _))
    · exact h.free hi
  · intro hl
    cases cs with
    | nil =>
      obtain rfl : c = '\x22' := by simpa using hl
      exact hp ⟨'\x22' :: rest, rfl⟩
    | cons d ds =>
      rw [List.getLast?_cons_cons] at hl
      exact h.last hl

/-- A raw text is read up to its closing marker just if it can stand between markers. -/
theorem closeRaw?_eq_some {cs content rest : List Char} :
    closeRaw? cs = some (content, rest) ↔
      cs = content ++ rawMarker ++ rest ∧ RawContent content := by
  constructor
  · intro h
    refine ⟨eq_of_closeRaw? h, ?_⟩
    fun_induction closeRaw? cs generalizing content rest with
    | case1 => cases h
    | case2 c cs hp =>
      cases h
      exact ⟨by simp [rawMarker], by simp⟩
    | case3 c cs hp ih =>
      obtain ⟨⟨b, r⟩, hb, he⟩ := Option.map_eq_some_iff.1 h
      cases he
      have hp' : ¬ rawMarker <+: c :: b ++ rawMarker ++ rest := fun hpre => by
        apply hp
        rw [eq_of_closeRaw? hb]
        exact List.isPrefixOf_iff_prefix.2 (by simpa using hpre)
      exact (ih hb).cons hp'
  · rintro ⟨rfl, h⟩
    induction content with
    | nil => simp [rawMarker, closeRaw?]
    | cons c cs ih =>
      have hp : ¬ rawMarker.isPrefixOf (c :: (cs ++ rawMarker ++ rest)) := fun hpre =>
        h.not_prefix rest (List.isPrefixOf_iff_prefix.1 hpre)
      rw [List.cons_append, List.cons_append, closeRaw?, if_neg hp, ih h.tail]
      rfl

end Text

namespace Token

/-- A raw text as written, and what it stands for. -/
structure IsRaw (written content : String) : Prop where
  written_eq : written = String.ofList (Text.rawMarker ++ content.toList ++ Text.rawMarker)
  content : Text.RawContent content.toList

/-- A raw text is read whatever follows it. -/
theorem next_raw {content : List Char} (h : Text.RawContent content) (rest : List Char) :
    next '\x22' ('\x22' :: '\x22' :: (content ++ Text.rawMarker ++ rest)) =
      .ok (.raw (String.ofList (Text.rawMarker ++ content ++ Text.rawMarker))
        (String.ofList content), rest) := by
  have hclose : Text.closeRaw? (content ++ Text.rawMarker ++ rest) = some (content, rest) :=
    Text.closeRaw?_eq_some.2 ⟨rfl, h⟩
  exact next_iff.2 (.raw ⟨_, rfl⟩ hclose)

theorem stable_raw {written content : String} (h : IsRaw written content) :
    (Token.raw written content).Stable := by
  refine ⟨'\x22', '\x22' :: '\x22' :: content.toList ++ Text.rawMarker, ?_, by decide, ?_⟩
  · rw [Token.written, h.written_eq, String.toList_ofList]
    rfl
  · intro rest _
    have hnext := next_raw h.content rest
    rw [← h.written_eq, String.ofList_toList] at hnext
    exact hnext

theorem next_quoted {q : Char} {body rest : List Char} (hq : q = '\x22' ∨ q = '\x27')
    (h : Text.QuoteBody q body) (hraw : ¬ Text.rawMarker <+: q :: (body ++ q :: rest)) :
    next q (body ++ q :: rest) = .ok (.quoted (String.ofList (q :: body ++ [q]))
      (String.ofList (Text.unescape q body)) q, rest) := by
  have hclose : Text.closeQuote? q (body ++ q :: rest) = some (body, rest) :=
    (Text.closeQuote?_eq_some (Text.ne_backslash_of_quote hq)).2 ⟨rfl, h⟩
  exact next_iff.2 (.quoted hraw hq hclose)

theorem stable_quoted {q : Char} {body : List Char} (hq : q = '\x22' ∨ q = '\x27')
    (h : Text.QuoteBody q body) :
    (Token.quoted (String.ofList (q :: body ++ [q]))
      (String.ofList (Text.unescape q body)) q).Stable := by
  refine ⟨q, body ++ [q], ?_, Text.isBlank_of_quote hq, fun rest hr => ?_⟩
  · rw [Token.written, String.toList_ofList]
    rfl
  · have hraw : ¬ Text.rawMarker <+: q :: (body ++ q :: rest) := fun hp => by
      have hstops : Stops (· == '\x22') rest := hr.stops_char (by decide) (by decide)
      cases hstops _ ((Text.rawMarker_prefix_quoted h).1 hp).2.2
    rw [List.append_assoc, List.singleton_append]
    exact next_quoted hq h hraw

theorem stable_quote (text : String) :
    (Token.quoted (Text.quote text) text '\x22').Stable := by
  have h := stable_quoted (.inl rfl) (Text.quoteBody_escape text.toList)
  rwa [Text.unescape_escape, String.ofList_toList] at h

end Token

end ObjectSpec
