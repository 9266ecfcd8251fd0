import Mathlib.Algebra.BigOperators.Group.Finset.Basic
import ObjectSpec.Proofs.Grammar.Acceptance
import ObjectSpec.Proofs.Text.Slice
import ObjectSpec.Proofs.Token.Replacement

/-!
# Blanks between tokens

Between two tokens any blanks may be put in, and also in front of the first and behind the last
(`Spacing`). Where a blank is put in behind a token, it is read as before, since a blank ends
every token. Where none is, it stands in front of the same character as before, and it looks no
further, because no token starts with a point (`Splits.not_point`). So each token only moves by
the bytes put in front of it (`Spacing.tokenize_text`), and the text is read as the same tree but
for the spans and for a raw text that is all of the text (`Tree.parse_spacing`).
-/

namespace ObjectSpec

open Text (byteCount byteCount_append allBlank IsBoundary)

/-! ## Room behind a token -/

theorem Splits.not_point {text : List Char} {ts : List Token} (h : Splits text ts) :
    '.' ∉ text.head? := by
  intro hdot
  obtain ⟨rest, rfl⟩ := List.head?_eq_some_iff.1 hdot
  have hskip : Text.skipBlank ('.' :: rest) = '.' :: rest := by
    rw [Text.skipBlank, List.dropWhile_cons_of_neg (by decide)]
  cases h with
  | done hb =>
    rw [hskip] at hb
    cases hb
  | token hb hn _ =>
    rw [hskip] at hb
    cases hb
    rw [Token.next_point] at hn
    cases hn

/-- A token in front of others is read the same way in front of what may follow a token, and of
any text that starts as the one behind it does. -/
theorem Token.next_in_front {c : Char} {cs rest other : List Char} {t : Token} {ts : List Token}
    (h : next c (cs ++ rest) = .ok (t, rest)) (hrest : Splits rest ts)
    (hother : Ends other ∨ other.head? = rest.head?) : next c (cs ++ other) = .ok (t, other) := by
  rcases hother with hends | hhead
  · obtain ⟨d, ds, hw, -, hnext⟩ := stable_of_next h
    obtain ⟨more, hmore, hcs⟩ := exists_written_of_next h
    obtain rfl := List.append_cancel_right hcs
    obtain ⟨rfl, rfl⟩ := List.cons.inj (hw.symm.trans hmore)
    exact hnext other hends
  · exact next_of_yields h (.of_head hhead hrest.not_point)

/-! ## Blanks put into a text -/

/-- The text from `offset` on, with `extra o` put in at each of its offsets `o`. -/
def Text.spread (extra : Nat → List Char) (offset : Nat) : List Char → List Char
  | [] => extra offset
  | c :: cs => extra offset ++ c :: spread extra (offset + c.utf8Size) cs

/-- Blanks to be put into a text with the given tokens, at each offset those of `extra`. None are
put into a token. -/
structure Spacing (source : String) (ts : List Placed) where
  extra : Nat → List Char
  blank : ∀ o, allBlank (extra o) = true
  boundary : ∀ o, extra o ≠ [] → IsBoundary source.toList o
  outside : ∀ o, extra o ≠ [] → ∀ p ∈ ts, o ≤ p.span.start ∨ p.span.stop ≤ o

namespace Text

variable {extra : Nat → List Char} {offset : Nat}

/-- Where nothing is put in, the text is kept. -/
theorem spread_append {front : List Char} (rest : List Char)
    (h : ∀ o, offset ≤ o → o < offset + byteCount front → extra o = []) :
    spread extra offset (front ++ rest) =
      front ++ spread extra (offset + byteCount front) rest := by
  induction front generalizing offset with
  | nil => rfl
  | cons c cs ih =>
    have hc := c.utf8Size_pos
    have hcs := @ih (offset + c.utf8Size) fun o hlow hhigh =>
      h o (by omega) (by rw [byteCount]; omega)
    rw [List.cons_append, spread, h offset (Nat.le_refl _) (by rw [byteCount]; omega), hcs,
      byteCount, ← Nat.add_assoc]
    rfl

/-- What is put in at the offset stands in front, or the text starts as it did. -/
theorem ends_spread (hblank : allBlank (extra offset) = true) (rest : List Char) :
    Ends (spread extra offset rest) ∨ (spread extra offset rest).head? = rest.head? := by
  cases hextra : extra offset with
  | nil =>
    right
    cases rest with
    | nil => rw [spread, hextra]
    | cons c cs => rw [spread, hextra]; rfl
  | cons g gap =>
    left
    rw [hextra] at hblank
    have hg : isBlank g = true := (Bool.and_eq_true_iff.1 hblank).1
    cases rest with
    | nil =>
      rw [spread, hextra]
      exact .blank hg gap
    | cons c cs =>
      rw [spread, hextra]
      exact .blank hg _

end Text

namespace Spacing

variable {source : String} {ts : List Placed} (s : Spacing source ts)

/-- The text with the blanks. -/
def text : String := String.ofList (Text.spread s.extra 0 source.toList)

/-- The bytes put in at offsets less than this one. -/
def added (offset : Nat) : Nat := ∑ o ∈ Finset.range offset, byteCount (s.extra o)

/-- The token where it stands in the text with the blanks. -/
def move (p : Placed) : Placed := p.shift (s.added (p.span.start + 1))

theorem added_succ (offset : Nat) :
    s.added (offset + 1) = s.added offset + byteCount (s.extra offset) :=
  Finset.sum_range_succ _ _

theorem added_of_clear {a b : Nat} (hab : a ≤ b) (h : ∀ o, a ≤ o → o < b → s.extra o = []) :
    s.added b = s.added a := by
  induction b, hab using Nat.le_induction with
  | base => rfl
  | succ b hb ih =>
    rw [added_succ, ih fun o hlow hhigh => h o hlow (by omega), h b hb (Nat.lt_succ_self b)]
    rfl

/-- Nothing is put into a character. -/
theorem clear {front rest : List Char} {c : Char} (h : source.toList = front ++ c :: rest) :
    ∀ o, byteCount front + 1 ≤ o → o < byteCount front + c.utf8Size → s.extra o = [] := by
  intro o hlow hhigh
  by_contra hne
  obtain ⟨before, behind, htext, rfl⟩ := s.boundary o hne
  rw [h] at htext
  rcases List.append_eq_append_iff.1 htext with ⟨more, rfl, hmore⟩ | ⟨more, rfl, -⟩
  · cases more with
    | nil =>
      rw [List.append_nil] at hlow
      omega
    | cons d more =>
      obtain ⟨rfl, -⟩ := List.cons.inj hmore
      rw [byteCount_append, byteCount] at hhigh
      omega
  · rw [byteCount_append] at hlow
    omega

/-- Blanks with more blanks put in are blanks. -/
theorem spread_gap {front gap rest : List Char} (h : source.toList = front ++ (gap ++ rest))
    (hgap : allBlank gap = true) :
    ∃ wide, Text.spread s.extra (byteCount front) (gap ++ rest) =
        wide ++ Text.spread s.extra (byteCount front + byteCount gap) rest ∧
      allBlank wide = true ∧ s.added (byteCount front) + byteCount wide =
        byteCount gap + s.added (byteCount front + byteCount gap) := by
  induction gap generalizing front with
  | nil => exact ⟨[], rfl, rfl, by rw [byteCount, Nat.zero_add]; rfl⟩
  | cons c gap ih =>
    obtain ⟨hc, hgap⟩ := Bool.and_eq_true_iff.1 hgap
    have hfront : byteCount (front ++ [c]) = byteCount front + c.utf8Size := by
      rw [byteCount_append, byteCount, byteCount, Nat.add_zero]
    have hadded : s.added (byteCount front + c.utf8Size) =
        s.added (byteCount front) + byteCount (s.extra (byteCount front)) := by
      have hpos := c.utf8Size_pos
      rw [s.added_of_clear (by omega) (s.clear h), added_succ]
    obtain ⟨wide, hspread, hwide, hcount⟩ := @ih (front ++ [c]) (by simpa using h) hgap
    rw [hfront] at hspread hcount
    refine ⟨s.extra (byteCount front) ++ c :: wide, ?_, ?_, ?_⟩
    · rw [List.cons_append, Text.spread, hspread, byteCount, ← Nat.add_assoc]
      simp
    · exact Text.allBlank_append.2 ⟨s.blank _, Bool.and_eq_true_iff.2 ⟨hc, hwide⟩⟩
    · rw [byteCount_append, byteCount, byteCount, ← Nat.add_assoc (byteCount front)]
      omega

/-- A token has what is put in at its start in front of it, and is whole. -/
theorem spread_word {start : Nat} {c : Char} {more : List Char} (rest : List Char)
    (h : ∀ o, start < o → o < start + byteCount (c :: more) → s.extra o = []) :
    Text.spread s.extra start (c :: (more ++ rest)) = s.extra start ++
        c :: (more ++ Text.spread s.extra (start + byteCount (c :: more)) rest) ∧
      s.added (start + byteCount (c :: more)) = s.added (start + 1) := by
  have hpos := c.utf8Size_pos
  rw [byteCount, ← Nat.add_assoc] at h ⊢
  constructor
  · rw [Text.spread, Text.spread_append rest fun o hlow hhigh => h o (by omega) hhigh]
  · exact s.added_of_clear (by omega) h

end Spacing

/-- Token by token, each in front of what it stood in front of, or of a blank. -/
theorem Reads.spread {source : String} {ts : List Placed} (s : Spacing source ts) {offset : Nat}
    {front text : List Char} {ps : List Placed} (h : Reads offset text ps)
    (hsource : source.toList = front ++ text) (hoffset : byteCount front = offset)
    (hmem : ∀ p ∈ ps, p ∈ ts) :
    Reads (offset + s.added offset) (Text.spread s.extra offset text) (ps.map s.move) := by
  induction h generalizing front with
  | @done offset gap hgap =>
    subst hoffset
    rw [← List.append_nil gap] at hsource ⊢
    obtain ⟨wide, hspread, hwide, -⟩ := s.spread_gap hsource hgap
    rw [hspread, Text.spread]
    exact .done (Text.allBlank_append.2 ⟨hwide, s.blank _⟩)
  | @token offset gap c cs t rest ps hgap hc hn hrest ih =>
    subst hoffset
    obtain ⟨more, hword, rfl⟩ := Token.exists_written_of_next hn
    obtain ⟨wide, hspread, hwide, hcount⟩ := s.spread_gap hsource hgap
    rw [hword] at hrest ih hmem ⊢
    generalize hstart : byteCount front + byteCount gap = start at *
    have hinside : ∀ o, start < o → o < start + byteCount (c :: more) → s.extra o = [] := by
      intro o hlow hhigh
      by_contra hne
      have := s.outside o hne _ (hmem _ List.mem_cons_self)
      simp only at this
      omega
    obtain ⟨htext, hadded⟩ := s.spread_word rest hinside
    have hothers := @ih (front ++ gap ++ c :: more) (by simp [hsource])
      (by rw [byteCount_append, byteCount_append, hstart])
      fun p hp => hmem p (List.mem_cons_of_mem _ hp)
    have hroom := Text.ends_spread (s.blank (start + byteCount (c :: more))) rest
    generalize Text.spread s.extra (start + byteCount (c :: more)) rest = other at *
    have hplace : byteCount front + s.added (byteCount front) + byteCount (wide ++ s.extra start) =
        start + s.added (start + 1) := by
      rw [byteCount_append, s.added_succ]
      omega
    rw [hadded, Nat.add_right_comm, ← hplace] at hothers
    have hreads := Reads.token (Text.allBlank_append.2 ⟨hwide, s.blank start⟩) hc
      (Token.next_in_front hn hrest.splits hroom) (by rw [hword]; exact hothers)
    rw [hword, hplace, Nat.add_right_comm] at hreads
    rw [hspread, htext, ← List.append_assoc]
    exact hreads

/-- With blanks between its tokens a text has the same tokens, each moved by the bytes put in front
of it. -/
theorem Spacing.tokenize_text {source : String} {ts : List Placed} (h : tokenize source = .ok ts)
    (s : Spacing source ts) : tokenize s.text = .ok (ts.map s.move) := by
  have hsource : source.toList = [] ++ source.toList := rfl
  have hreads := (reads_iff.2 h).spread s hsource rfl fun p hp => hp
  rw [tokenize, text, String.toList_ofList]
  exact reads_iff.1 hreads

/-! ## The same tree -/

namespace Tree

/-- Two texts with the same tokens are both read, or neither of them is, under every limit. -/
theorem parse_of_tokens {source other : String} {ts us : List Placed} {limit : Nat} {t : Tree}
    (hts : tokenize source = .ok ts) (hus : tokenize other = .ok us)
    (htokens : us.map Placed.token = ts.map Placed.token) (h : parse limit source = .ok t) :
    ∃ u, parse limit other = .ok u ∧
      ((∀ written content span, ts ≠ [⟨.raw written content, span⟩]) → u.shape = t.shape) := by
  obtain ⟨ts', hts', ht, hdepth⟩ := parse_ok.1 h
  obtain rfl := Except.ok.inj (hts.symm.trans hts')
  rcases ht.raw_or with ⟨written, content, span, rfl, -⟩ | ⟨hne, hderives⟩
  · obtain ⟨span', rfl⟩ := Placed.singleton_of_tokens htokens
    refine ⟨_, parse_ok.2 ⟨_, hus, rfl, Nat.zero_le _⟩, fun hne => ?_⟩
    exact absurd rfl (hne written content span)
  · obtain ⟨u, hu, hshape⟩ := hderives.of_tokens htokens
    refine ⟨u, parse_ok.2 ⟨us, hus, (derivesSpec_of_ne_raw ?_).2 hu, ?_⟩, fun _ => hshape⟩
    · rintro written content span rfl
      obtain ⟨span', hspan⟩ := Placed.singleton_of_tokens htokens.symm
      exact hne written content span' hspan
    · rw [depth_eq_of_shape hshape]
      exact hdepth

/-- With any blanks put in between its tokens, in front of them and behind them, a text has the
same tokens, each moved by the bytes put in front of it. Under every limit either both texts are
read or neither is, and the trees are the same but for the spans; only a raw text that is all of
its text is written as the whole text that it was read from. -/
theorem parse_spacing {source : String} {ts : List Placed} (h : tokenize source = .ok ts)
    (s : Spacing source ts) (limit : Nat) :
    tokenize s.text = .ok (ts.map s.move) ∧
    ((∃ t, parse limit source = .ok t) ↔ ∃ u, parse limit s.text = .ok u) ∧
    ∀ t u, parse limit source = .ok t → parse limit s.text = .ok u →
      ((∀ written content span, ts ≠ [⟨.raw written content, span⟩]) → u.shape = t.shape) ∧
      ∀ written content span, ts = [⟨.raw written content, span⟩] →
        t = .raw source content ⟨0, byteCount source.toList⟩ ∧
        u = .raw s.text content ⟨0, byteCount s.text.toList⟩ := by
  have htext := s.tokenize_text h
  have htokens : (ts.map s.move).map Placed.token = ts.map Placed.token := by
    rw [List.map_map]
    rfl
  refine ⟨htext, ⟨?_, ?_⟩, fun t u ht hu => ⟨fun hne => ?_, ?_⟩⟩
  · rintro ⟨t, ht⟩
    obtain ⟨u, hu, -⟩ := parse_of_tokens h htext htokens ht
    exact ⟨u, hu⟩
  · rintro ⟨u, hu⟩
    obtain ⟨t, ht, -⟩ := parse_of_tokens htext h htokens.symm hu
    exact ⟨t, ht⟩
  · obtain ⟨v, hv, hshape⟩ := parse_of_tokens h htext htokens ht
    obtain rfl := Except.ok.inj (hu.symm.trans hv)
    exact hshape hne
  · rintro written content span rfl
    obtain ⟨_, hts, ht, -⟩ := parse_ok.1 ht
    obtain ⟨_, hus, hu, -⟩ := parse_ok.1 hu
    obtain rfl := Except.ok.inj (h.symm.trans hts)
    obtain rfl := Except.ok.inj (htext.symm.trans hus)
    exact ⟨ht, hu⟩

/-- The tokens of a call with an empty text. -/
def denseCall : List Placed :=
  [⟨.name "a.B", ⟨0, 3⟩⟩, ⟨.mark .openParen, ⟨3, 4⟩⟩, ⟨.quoted "\"\"" "" '\x22', ⟨4, 6⟩⟩,
    ⟨.mark .closeParen, ⟨6, 7⟩⟩]

/-- A line break and a space of two bytes behind the name, and a tab at the end. -/
def spacedCall : Spacing "a.B(\"\")" denseCall where
  extra o := if o = 3 then ['\n', '\u00a0'] else if o = 7 then ['\t'] else []
  blank o := by split_ifs <;> rfl
  boundary o h := by
    by_cases h3 : o = 3
    · exact ⟨"a.B".toList, "(\"\")".toList, rfl, by rw [h3]; rfl⟩
    by_cases h7 : o = 7
    · exact ⟨"a.B(\"\")".toList, [], rfl, by rw [h7]; rfl⟩
    · simp [h3, h7] at h
  outside o h := by
    by_cases h3 : o = 3
    · subst h3
      decide
    by_cases h7 : o = 7
    · subst h7
      decide
    · simp [h3, h7] at h

theorem parse_spacing_spacedCall :
    tokenize "a.B(\"\")" = .ok denseCall ∧ spacedCall.text = "a.B\n\u00a0(\"\")\t" ∧
    tokenize spacedCall.text = .ok [⟨.name "a.B", ⟨0, 3⟩⟩, ⟨.mark .openParen, ⟨6, 7⟩⟩,
      ⟨.quoted "\"\"" "" '\x22', ⟨7, 9⟩⟩, ⟨.mark .closeParen, ⟨9, 10⟩⟩] ∧
    ∃ t u, parse 1 "a.B(\"\")" = .ok t ∧ parse 1 spacedCall.text = .ok u ∧ u.shape = t.shape := by
  have htokens : tokenize "a.B(\"\")" = .ok denseCall := tokenize_of_toOption (by decide +kernel)
  have hderives : Derives denseCall (.construct "a.B" [.literal (.string "")] ⟨0, 7⟩) :=
    Derives.construct (.some (.one .string))
  have hsource : parse 1 "a.B(\"\")" = .ok (.construct "a.B" [.literal (.string "")] ⟨0, 7⟩) :=
    parse_ok.2 ⟨_, htokens, hderives, by decide⟩
  obtain ⟨htext, hboth, hsame⟩ := parse_spacing htokens spacedCall 1
  obtain ⟨u, hu⟩ := hboth.1 ⟨_, hsource⟩
  refine ⟨htokens, by decide +kernel, htext, _, u, hsource, hu, (hsame _ u hsource hu).1 ?_⟩
  intro written content span hraw
  cases hraw

end Tree

end ObjectSpec
