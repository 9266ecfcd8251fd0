import Mathlib.Data.List.TakeWhile
import ObjectSpec.Token.Lexer

/-!
# Splitting as a relation

`Reads offset text ps` says what `tokenize` does as a relation: blanks and tokens in turn,
each token with its place (`reads_iff`). `Splits text ts` leaves out the places
(`splits_iff`).

Tokens are read one by one, so the tokens of a text that is put together are found
piece by piece: `Spells text ts` says that `text` gives `ts` in front of whatever may
follow a token, with any more tokens after it.
-/

namespace ObjectSpec

open Text (byteCount)

/-! ## Blanks in front -/

namespace Text

theorem skipBlank_eq_nil_iff {text : List Char} : skipBlank text = [] ↔ allBlank text = true := by
  rw [skipBlank, List.dropWhile_eq_nil_iff, allBlank, List.all_eq_true]

theorem allBlank_append {a b : List Char} :
    allBlank (a ++ b) = true ↔ allBlank a = true ∧ allBlank b = true := by
  rw [allBlank, List.all_append, Bool.and_eq_true, allBlank, allBlank]

theorem skipBlank_gap {gap cs : List Char} {c : Char} (hgap : allBlank gap = true)
    (hc : isBlank c = false) :
    (gap ++ c :: cs).takeWhile isBlank = gap ∧ skipBlank (gap ++ c :: cs) = c :: cs := by
  have hall := List.all_eq_true.1 hgap
  have hstop : ¬ isBlank c = true := by simp [hc]
  constructor
  · rw [List.takeWhile_append_of_pos hall, List.takeWhile_cons_of_neg hstop, List.append_nil]
  · rw [skipBlank, List.dropWhile_append_of_pos hall, List.dropWhile_cons_of_neg hstop]

theorem exists_gap {text cs : List Char} {c : Char} (h : skipBlank text = c :: cs) :
    ∃ gap, text = gap ++ c :: cs ∧ allBlank gap = true ∧ isBlank c = false := by
  refine ⟨text.takeWhile isBlank, ?_, List.all_takeWhile, ?_⟩
  · rw [← h]
    exact List.takeWhile_append_dropWhile.symm
  · have hstop := List.head?_dropWhile_not isBlank text
    rw [show text.dropWhile isBlank = c :: cs from h] at hstop
    exact hstop

end Text

/-! ## Tokens with their places -/

/-- Reading off a text, whose first character stands at `offset`, gives the tokens. -/
inductive Reads : Nat → List Char → List Placed → Prop
  | done {offset gap} : Text.allBlank gap = true → Reads offset gap []
  | token {offset gap c cs t rest ps} : Text.allBlank gap = true → Text.isBlank c = false →
      Token.next c cs = .ok (t, rest) →
      Reads (offset + byteCount gap + byteCount t.written.toList) rest ps →
      Reads offset (gap ++ c :: cs)
        (⟨t, ⟨offset + byteCount gap, offset + byteCount gap + byteCount t.written.toList⟩⟩ :: ps)

theorem tokensFrom_blank {offset : Nat} {gap : List Char} (hgap : Text.allBlank gap = true) :
    tokensFrom offset gap = .ok [] := by
  unfold tokensFrom
  split
  · rfl
  · next h =>
    rw [Text.skipBlank_eq_nil_iff.2 hgap] at h
    cases h

/-- Behind blanks the first token is read, and then those of the text behind it. -/
theorem tokensFrom_gap {offset : Nat} {gap cs : List Char} {c : Char}
    (hgap : Text.allBlank gap = true) (hc : Text.isBlank c = false) :
    tokensFrom offset (gap ++ c :: cs) =
      match Token.next c cs with
      | .error cause => .error ⟨cause, offset + byteCount gap⟩
      | .ok (t, rest) =>
        (tokensFrom (offset + byteCount gap + byteCount t.written.toList) rest).map
          (⟨t, ⟨offset + byteCount gap,
            offset + byteCount gap + byteCount t.written.toList⟩⟩ :: ·) := by
  obtain ⟨hgap', hskip⟩ := Text.skipBlank_gap hgap hc
  rw [tokensFrom]
  split
  · next hb =>
    rw [hskip] at hb
    cases hb
  · next hb =>
    rw [hskip] at hb
    cases hb
    rw [hgap']
    split
    · next hn => rw [hn]
    · next hn => rw [hn]

/-- A text is read off token by token. -/
theorem reads_iff {offset : Nat} {text : List Char} {ps : List Placed} :
    Reads offset text ps ↔ tokensFrom offset text = .ok ps := by
  constructor
  · intro h
    induction h with
    | done hgap => exact tokensFrom_blank hgap
    | token hgap hc hn _ ih =>
      rw [tokensFrom_gap hgap hc, hn]
      dsimp only
      rw [ih]
      rfl
  · intro h
    fun_induction tokensFrom offset text generalizing ps with
    | case1 offset text hb =>
      cases h
      exact .done (Text.skipBlank_eq_nil_iff.1 hb)
    | case2 => cases h
    | case3 offset text c cs hb start t rest hn stop =>
      rename_i ih
      cases hrest : tokensFrom stop rest with
      | error e =>
        rw [hrest] at h
        cases h
      | ok qs =>
        rw [hrest] at h
        cases h
        obtain ⟨gap, rfl, hgap, hc⟩ := Text.exists_gap hb
        have hreads := ih hrest
        dsimp only [stop, start] at hreads ⊢
        rw [(Text.skipBlank_gap hgap hc).1] at hreads ⊢
        exact .token hgap hc hn hreads

/-! ## Tokens alone -/

/-- Reading off `text` gives the tokens `ts`. -/
inductive Splits : List Char → List Token → Prop
  | done {text} : Text.skipBlank text = [] → Splits text []
  | token {text c cs t rest ts} : Text.skipBlank text = c :: cs →
      Token.next c cs = .ok (t, rest) → Splits rest ts → Splits text (t :: ts)

theorem Reads.splits {offset : Nat} {text : List Char} {ps : List Placed}
    (h : Reads offset text ps) : Splits text (ps.map Placed.token) := by
  induction h with
  | done hgap => exact .done (Text.skipBlank_eq_nil_iff.2 hgap)
  | token hgap hc hn _ ih => exact .token (Text.skipBlank_gap hgap hc).2 hn ih

theorem Splits.reads {text : List Char} {ts : List Token} (h : Splits text ts)
    (offset : Nat) : ∃ ps, Reads offset text ps ∧ ps.map Placed.token = ts := by
  induction h generalizing offset with
  | done hb => exact ⟨[], .done (Text.skipBlank_eq_nil_iff.1 hb), rfl⟩
  | token hb hn _ ih =>
    obtain ⟨gap, rfl, hgap, hc⟩ := Text.exists_gap hb
    obtain ⟨ps, hps, rfl⟩ := ih _
    exact ⟨_, .token hgap hc hn hps, rfl⟩

/-- Splitting is what `tokenize` does, less the spans. -/
theorem splits_iff {source : String} {ts : List Token} :
    Splits source.toList ts ↔ ∃ ps, tokenize source = .ok ps ∧ ps.map Placed.token = ts := by
  constructor
  · intro h
    obtain ⟨ps, hps, hts⟩ := h.reads 0
    exact ⟨ps, reads_iff.1 hps, hts⟩
  · rintro ⟨ps, hps, rfl⟩
    exact (reads_iff.2 hps).splits

/-- The tokens of a given text can be computed. -/
theorem tokenize_of_toOption {source : String} {ps : List Placed}
    (h : (tokenize source).toOption = some ps) : tokenize source = .ok ps := by
  cases hs : tokenize source with
  | error e =>
    rw [hs] at h
    cases h
  | ok qs =>
    rw [hs] at h
    cases h
    rfl

/-! ## What may follow a token -/

theorem Mark.mem_all (m : Mark) : m ∈ Mark.all := by cases m <;> decide

/-- What is true of all marks can be found out. -/
instance Mark.decidableForall {P : Mark → Prop} [DecidablePred P] : Decidable (∀ m, P m) :=
  decidable_of_iff (Mark.all.all (fun m => decide (P m)) = true) (by simp [Mark.mem_all])

/-- A mark, a blank, or nothing. -/
inductive Ends : List Char → Prop
  | finish : Ends []
  | mark (m : Mark) (cs : List Char) : Ends (m.char :: cs)
  | blank {c : Char} (hc : Text.isBlank c = true) (cs : List Char) : Ends (c :: cs)

/-- The first character, if there is one, is not of the class `p`. -/
def Stops (p : Char → Bool) (text : List Char) : Prop := ∀ c ∈ text.head?, p c = false

theorem Ends.stops {p : Char → Bool} (hmark : ∀ m : Mark, p m.char = false)
    (hblank : ∀ c, p c = true → Text.isBlank c = false) {rest : List Char} (h : Ends rest) :
    Stops p rest := by
  cases h with
  | finish => intro c hc; cases hc
  | mark m cs =>
    intro c hc
    cases hc
    exact hmark m
  | @blank b hb cs =>
    intro c hc
    cases hc
    by_contra hp
    rw [hblank b (by simpa using hp)] at hb
    cases hb

/-- No row of one character that is no blank goes on. -/
theorem Ends.stops_char {d : Char} (hmark : ∀ m : Mark, (m.char == d) = false)
    (hd : Text.isBlank d = false) {rest : List Char} (h : Ends rest) : Stops (· == d) rest :=
  h.stops hmark fun c hc => by rwa [beq_iff_eq.1 hc]

/-! ## Tokens side by side -/

theorem splits_nil : Splits [] [] := .done rfl

theorem Splits.blank {c : Char} (hc : Text.isBlank c = true) {text : List Char}
    {ts : List Token} (h : Splits text ts) : Splits (c :: text) ts := by
  have hskip : Text.skipBlank (c :: text) = Text.skipBlank text := by
    rw [Text.skipBlank, List.dropWhile_cons_of_pos hc, Text.skipBlank]
  cases h with
  | done hb => exact .done (hskip.trans hb)
  | token hb hn h => exact .token (hskip.trans hb) hn h

theorem Splits.gap {gap text : List Char} {ts : List Token} (hgap : Text.allBlank gap = true)
    (h : Splits text ts) : Splits (gap ++ text) ts := by
  induction gap with
  | nil => exact h
  | cons c gap ih =>
    obtain ⟨hc, hgap⟩ := Bool.and_eq_true_iff.1 hgap
    exact (ih hgap).blank hc

theorem Splits.next {c : Char} {cs rest : List Char} {t : Token} {ts : List Token}
    (hc : Text.isBlank c = false) (hn : Token.next c cs = .ok (t, rest)) (h : Splits rest ts) :
    Splits (c :: cs) (t :: ts) := by
  refine .token ?_ hn h
  rw [Text.skipBlank, List.dropWhile_cons_of_neg (by simp [hc])]

theorem next_mark (m : Mark) (cs : List Char) : Token.next m.char cs = .ok (.mark m, cs) := by
  have hraw : Text.rawMarker.isPrefixOf (m.char :: cs) = false := by cases m <;> rfl
  have hquote : ¬ (m.char = '\x22' ∨ m.char = '\x27') := by cases m <;> decide
  rw [Token.next, if_neg (by rw [hraw]; simp), if_neg hquote, Mark.ofChar?_char]

theorem Splits.mark (m : Mark) {text : List Char} {ts : List Token} (h : Splits text ts) :
    Splits (m.char :: text) (.mark m :: ts) :=
  h.next (by cases m <;> decide) (next_mark m text)

/-- In front of whatever may follow a token, the text gives the tokens. -/
def Spells (text : List Char) (ts : List Token) : Prop :=
  ∀ rest more, Ends rest → Splits rest more → Splits (text ++ rest) (ts ++ more)

theorem Spells.splits {text : List Char} {ts : List Token} (h : Spells text ts) :
    Splits text ts := by
  have := h [] [] .finish splits_nil
  rwa [List.append_nil, List.append_nil] at this

/-- A token that is read off its own text in front of whatever may follow a token. -/
def Token.Stable (t : Token) : Prop :=
  ∃ c cs, t.written.toList = c :: cs ∧ Text.isBlank c = false ∧
    ∀ rest, Ends rest → Token.next c (cs ++ rest) = .ok (t, rest)

theorem Token.stable_mark (m : Mark) : (Token.mark m).Stable :=
  ⟨m.char, [], by rw [written, String.toList_singleton], by cases m <;> decide,
    fun rest _ => next_mark m rest⟩

theorem Token.Stable.spells {t : Token} (h : t.Stable) : Spells t.written.toList [t] := by
  obtain ⟨c, cs, hw, hc, hn⟩ := h
  intro rest more hr hs
  rw [hw]
  exact hs.next hc (hn rest hr)

/-- Such a token is the only one of its text. -/
theorem Token.Stable.tokenize {t : Token} (h : t.Stable) :
    tokenize t.written = .ok [⟨t, ⟨0, byteCount t.written.toList⟩⟩] := by
  obtain ⟨c, cs, hw, hc, hn⟩ := h
  have hnext := hn [] .finish
  rw [List.append_nil] at hnext
  have hdone : Reads (0 + byteCount [] + byteCount t.written.toList) [] [] := .done rfl
  have hreads := Reads.token rfl hc hnext hdone
  rw [List.nil_append, ← hw, byteCount, Nat.zero_add, Nat.zero_add] at hreads
  exact reads_iff.1 hreads

end ObjectSpec
