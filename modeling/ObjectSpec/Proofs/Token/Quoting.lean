import Mathlib.Algebra.Group.Nat.Even
import Mathlib.Data.List.Induction
import ObjectSpec.Proofs.Token.Quotation
import ObjectSpec.Proofs.Token.Refusal

/-!
# Quoting and reading back

A text is quoted for one reader, but by two rules of it: the closing quote is found by pairing
backslashes (`closeQuote?`), and the text between the quotes is read off by `unescape`. What may
stand between two quotes is told by the pairs alone (`quoteBody_iff`), and a backslash is in a pair
by the parity of its run (`paired_iff`). So a quoted text is read back whatever follows it, and
between any two quotes just what fits there is read (`quoting_faithful`).
-/

namespace ObjectSpec

open Text (byteCount rawMarker)

namespace Text

variable {q c : Char} {cs : List Char}

/-! ## Runs of backslashes -/

theorem not_paired_backslash : ¬ Paired ['\\'] := by
  intro h
  cases h with
  | char hc _ => exact hc rfl

theorem paired_pair : Paired ('\\' :: c :: cs) ↔ Paired cs := by
  constructor
  · intro h
    cases h with
    | pair h => exact h
    | char hc _ => exact absurd rfl hc
  · exact .pair

theorem paired_char (hc : c ≠ '\\') : Paired (c :: cs) ↔ Paired cs := by
  constructor
  · intro h
    cases h with
    | pair _ => exact absurd rfl hc
    | char _ h => exact h
  · exact .char hc

/-- A last character other than a backslash is in a pair or beside one. -/
theorem paired_concat (c : Char) : ∀ cs, Paired (cs ++ [c]) ↔ (c = '\\' → ¬ Paired cs)
  | [] => by
    by_cases hc : c = '\\'
    · simp [hc, not_paired_backslash, Paired.nil]
    · simp [hc, paired_char hc, Paired.nil]
  | [d] => by
    by_cases hd : d = '\\'
    · subst hd
      simp [paired_pair, not_paired_backslash, Paired.nil]
    · rw [List.singleton_append, paired_char hd, paired_char hd]
      exact paired_concat c []
  | d :: e :: cs => by
    by_cases hd : d = '\\'
    · subst hd
      rw [List.cons_append, List.cons_append, paired_pair, paired_pair]
      exact paired_concat c cs
    · rw [List.cons_append, paired_char hd, paired_char hd]
      exact paired_concat c (e :: cs)

/-- How many backslashes a text ends in. -/
def trailing (cs : List Char) : Nat := (cs.reverse.takeWhile (· == '\\')).length

/-- A text ends outside of a pair if it ends in an even number of backslashes. -/
theorem paired_iff (cs : List Char) : Paired cs ↔ Even (trailing cs) := by
  induction cs using List.reverseRecOn with
  | nil => simp [trailing, Paired.nil]
  | append_singleton cs c ih =>
    rw [paired_concat, ih, trailing, trailing, List.reverse_append, List.reverse_singleton]
    by_cases hc : c = '\\'
    · simp [hc, Nat.even_add_one]
    · simp [hc]

instance (cs : List Char) : Decidable (Paired cs) := decidable_of_iff _ (paired_iff cs).symm

/-! ## What stands between two quotes -/

theorem QuoteBody.noQuote (hq : q ≠ '\\') (h : QuoteBody q cs) : NoQuote q cs := by
  induction h with
  | nil =>
    intro body rest hcs
    simp at hcs
  | pair _ ih =>
    intro body rest hcs hbody
    cases hbody with
    | nil => exact hq (List.cons.inj hcs).1.symm
    | pair hbody =>
      simp only [List.cons_append, List.cons.injEq] at hcs
      exact ih _ rest hcs.2.2 hbody
    | char hc _ => exact hc (List.cons.inj hcs).1.symm
  | char hc hcq _ ih =>
    intro body rest hcs hbody
    cases hbody with
    | nil => exact hcq (List.cons.inj hcs).1
    | pair _ => exact hc (List.cons.inj hcs).1
    | char _ hbody => exact ih _ rest (List.cons.inj hcs).2 hbody

theorem Paired.quoteBody (h : Paired cs) (hno : NoQuote q cs) : QuoteBody q cs := by
  induction h with
  | nil => exact .nil
  | @pair d cs _ ih =>
    refine .pair (ih fun body rest hcs hbody => ?_)
    exact hno ('\\' :: d :: body) rest (by rw [hcs]; rfl) (.pair hbody)
  | @char c cs hc _ ih =>
    refine .char hc ?_ (ih fun body rest hcs hbody => ?_)
    · rintro rfl
      exact hno [] cs rfl .nil
    · exact hno (c :: body) rest (by rw [hcs]; rfl) (.char hc hbody)

/-- Between two quotes stands what has quotes in pairs only and ends outside of a pair. -/
theorem quoteBody_iff (hq : q ≠ '\\') : QuoteBody q cs ↔ NoQuote q cs ∧ Paired cs :=
  ⟨fun h => ⟨h.noQuote hq, h.paired⟩, fun h => h.2.quoteBody h.1⟩

end Text

namespace Token

/-- The text starts with the token, and `rest` is left. -/
def Leads (t : Token) (text rest : List Char) : Prop :=
  ∃ c cs, text = c :: cs ∧ next c cs = .ok (t, rest)

/-- Such a token is the first one, wherever the text stands. -/
theorem Leads.tokensFrom {t : Token} {text rest : List Char} (h : Leads t text rest)
    (hblank : text.head?.any Text.isBlank = false) (offset : Nat) :
    tokensFrom offset text =
      (tokensFrom (offset + byteCount t.written.toList) rest).map
        (⟨t, ⟨offset, offset + byteCount t.written.toList⟩⟩ :: ·) := by
  obtain ⟨c, cs, rfl, hnext⟩ := h
  have hfrom := @tokensFrom_gap offset [] cs c rfl hblank
  rw [hnext] at hfrom
  exact hfrom

variable {q : Char} {body rest : List Char}

/-- A token that ends with the second quote is what stands between the two. -/
theorem quoted_of_leads {written value : String} {p : Char} (hq : q = '\x22' ∨ q = '\x27')
    (h : Leads (.quoted written value p) (q :: (body ++ q :: rest)) rest) :
    (Text.QuoteBody q body ∧ ¬ rawMarker <+: q :: (body ++ q :: rest)) ∧
      written = String.ofList (q :: (body ++ [q])) ∧
        value = String.ofList (Text.unescape q body) ∧ p = q := by
  obtain ⟨_, _, htext, hnext⟩ := h
  obtain ⟨rfl, rfl⟩ := List.cons.inj htext
  rw [next] at hnext
  split at hnext
  · split at hnext
    · cases hnext
    · cases hnext
  next hraw =>
  split at hnext
  · next hclose =>
    cases hnext
    obtain ⟨hbody, hqb⟩ := (Text.closeQuote?_eq_some (Text.ne_backslash_of_quote hq)).1 hclose
    obtain rfl := List.append_cancel_right hbody
    exact ⟨⟨hqb, fun hp => hraw (List.isPrefixOf_iff_prefix.2 hp)⟩, rfl, rfl, rfl⟩
  · cases hnext

/-- Between two quotes just what fits there is read, unless the text starts as a raw one. -/
theorem leads_quoted_iff (hq : q = '\x22' ∨ q = '\x27') :
    (∃ written value p, Leads (.quoted written value p) (q :: (body ++ q :: rest)) rest) ↔
      Text.NoQuote q body ∧ Text.Paired body ∧ ¬ rawMarker <+: q :: (body ++ q :: rest) := by
  have hiff := @Text.quoteBody_iff q body (Text.ne_backslash_of_quote hq)
  constructor
  · rintro ⟨written, value, p, h⟩
    obtain ⟨⟨hbody, hraw⟩, -⟩ := quoted_of_leads hq h
    exact ⟨(hiff.1 hbody).1, (hiff.1 hbody).2, hraw⟩
  · rintro ⟨hno, hpaired, hraw⟩
    exact ⟨_, _, _, q, _, rfl, next_quoted hq (hiff.2 ⟨hno, hpaired⟩) hraw⟩

theorem leads_quote {s : String} (h : s = "" → rest.head? ≠ some '\x22') :
    Leads (.quoted (Text.quote s) s '\x22') ((Text.quote s).toList ++ rest) rest := by
  have hbody := Text.quoteBody_escape s.toList
  have hraw : ¬ rawMarker <+: '\x22' :: (Text.escape s.toList ++ '\x22' :: rest) := by
    intro hp
    obtain ⟨-, hempty, hhead⟩ := (Text.rawMarker_prefix_quoted hbody).1 hp
    refine h (String.toList_inj.1 ?_) hhead
    rw [← Text.unescape_escape s.toList, hempty]
    rfl
  have hnext := next_quoted (.inl rfl) hbody hraw
  rw [Text.unescape_escape, String.ofList_toList] at hnext
  refine ⟨'\x22', _, ?_, hnext⟩
  rw [Text.quote, String.toList_ofList]
  simp

/-- A quoted text is read back whatever follows it, and between two quotes just what fits there is
read. -/
theorem quoting_faithful :
    (∀ (s : String) (rest : List Char), (s = "" → rest.head? ≠ some '\x22') →
      Leads (.quoted (Text.quote s) s '\x22') ((Text.quote s).toList ++ rest) rest ∧
        ∀ offset, ObjectSpec.tokensFrom offset ((Text.quote s).toList ++ rest) =
          (ObjectSpec.tokensFrom (offset + byteCount (Text.quote s).toList) rest).map
            (⟨.quoted (Text.quote s) s '\x22',
              ⟨offset, offset + byteCount (Text.quote s).toList⟩⟩ :: ·)) ∧
    (∀ s : String, ∃ body, (Text.quote s).toList = '\x22' :: (body ++ ['\x22']) ∧
      Text.unescape '\x22' body = s.toList) ∧
    ∀ (q : Char) (body rest : List Char), q = '\x22' ∨ q = '\x27' →
      ((∃ written value p, Leads (.quoted written value p) (q :: (body ++ q :: rest)) rest) ↔
        Text.NoQuote q body ∧ Text.Paired body ∧ ¬ rawMarker <+: q :: (body ++ q :: rest)) ∧
      ∀ written value p, Leads (.quoted written value p) (q :: (body ++ q :: rest)) rest →
        written = String.ofList (q :: (body ++ [q])) ∧
          value = String.ofList (Text.unescape q body) ∧ p = q := by
  have hquote : ∀ s : String, (Text.quote s).toList =
      '\x22' :: (Text.escape s.toList ++ ['\x22']) := by
    intro s
    rw [Text.quote, String.toList_ofList]
    rfl
  refine ⟨fun s rest h => ?_, fun s => ?_, fun q body rest hq => ⟨leads_quoted_iff hq, ?_⟩⟩
  · have hlead := leads_quote h
    refine ⟨hlead, hlead.tokensFrom ?_⟩
    rw [hquote]
    rfl
  · exact ⟨_, hquote s, Text.unescape_escape s.toList⟩
  · intro written value p h
    exact (quoted_of_leads hq h).2

/-- A backslash and a quote, with a quote behind the closing one; and three backslashes, of which
the last is in a pair with the quote behind them. -/
theorem quoting_faithful_runs :
    Leads (.quoted (Text.quote "\\\"") "\\\"" '\x22') "\"\\\\\\\"\"\"".toList ['\x22'] ∧
      ¬ ∃ written value p, Leads (.quoted written value p)
        ('\x27' :: (['\\', '\\', '\\'] ++ '\x27' :: ['\x27'])) ['\x27'] := by
  constructor
  · exact (quoting_faithful.1 "\\\"" ['\x22'] (by decide)).1
  · intro h
    have hpaired := (((quoting_faithful.2.2 '\x27' _ ['\x27'] (.inr rfl)).1).1 h).2.1
    exact absurd hpaired (by decide)

end Token

end ObjectSpec
