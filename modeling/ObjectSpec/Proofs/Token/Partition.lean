import ObjectSpec.Proofs.Text.Slice
import ObjectSpec.Proofs.Token.Words

/-!
# Tokens make up their text

A text that splits into tokens is a row of blank gaps and written tokens in turn
(`Covers`), and each span is the place of its token in that row. So no two tokens
overlap, none is empty, each slices its own text out of the source, and all that lies
between them is blank (`tokenize_partition`).
-/

namespace ObjectSpec

open Text (byteCount byteCount_append)

/-! ## Tokens as they are written -/

/-- A quoted text as written, and what it stands for. -/
structure Token.IsQuoted (written value : String) (quote : Char) : Prop where
  isQuote : quote = '\x22' ∨ quote = '\x27'
  body : ∃ body, written = String.ofList (quote :: body ++ [quote]) ∧
    value = String.ofList (Text.unescape quote body)

/-- What a quoted or raw token holds is what stands in its text. -/
def Token.Faithful : Token → Prop
  | .quoted written value quote => IsQuoted written value quote
  | .raw written content => IsRaw written content
  | _ => True

theorem Token.faithful_ofPath (path : List Char) : (ofPath path).Faithful := by
  rw [ofPath]
  split
  · trivial
  · split <;> trivial

theorem Token.faithful_of_next {c : Char} {cs rest : List Char} {t : Token}
    (h : next c cs = .ok (t, rest)) : t.Faithful := by
  have hwf := wellFormed_of_next h
  cases next_iff.1 h with
  | raw => exact hwf
  | quoted _ hquote _ => exact ⟨hquote, _, rfl, rfl⟩
  | mark => trivial
  | number => trivial
  | path => exact faithful_ofPath _

/-! ## Gaps and tokens in turn -/

/-- Behind the characters `before`, the text is made of blanks and the tokens `ps`, each of which
spans what it is written as. -/
inductive Covers : List Char → List Char → List Placed → Prop
  | blank {before gap} : Text.allBlank gap = true → Covers before gap []
  | token {before gap rest ps} {t : Token} : Text.allBlank gap = true →
      t.written.toList ≠ [] → t.Faithful →
      Covers (before ++ gap ++ t.written.toList) rest ps →
      Covers before (gap ++ t.written.toList ++ rest)
        (⟨t, ⟨byteCount (before ++ gap), byteCount (before ++ gap ++ t.written.toList)⟩⟩ :: ps)

theorem Reads.covers {offset : Nat} {before text : List Char} {ps : List Placed}
    (h : Reads offset text ps) (hoffset : byteCount before = offset) : Covers before text ps := by
  induction h generalizing before with
  | done hgap => exact .blank hgap
  | @token offset gap c cs t rest ps hgap hc hn _ ih =>
    obtain ⟨hword, hne⟩ := Token.written_of_next hn
    have hstart : byteCount (before ++ gap) = offset + byteCount gap := by
      rw [byteCount_append, hoffset]
    have hstop : byteCount (before ++ gap ++ t.written.toList) =
        offset + byteCount gap + byteCount t.written.toList := by
      rw [byteCount_append, hstart]
    have hcovers := Covers.token hgap hne (Token.faithful_of_next hn) (ih hstop)
    rwa [List.append_assoc, ← hword, hstart, hstop] at hcovers

namespace Covers

variable {before text : List Char} {ps : List Placed}

/-- A token stands in the text where its span says, and not in front of it. -/
theorem placed (h : Covers before text ps) : ∀ p ∈ ps, byteCount before ≤ p.span.start ∧
    p.token.written.toList ≠ [] ∧ p.token.Faithful ∧
    ∃ front rest, before ++ text = front ++ p.token.written.toList ++ rest ∧
      p.span = ⟨byteCount front, byteCount (front ++ p.token.written.toList)⟩ := by
  induction h with
  | blank => simp
  | @token before gap rest ps t hgap hne hf _ ih =>
    intro p hp
    rcases List.mem_cons.1 hp with rfl | hp
    · refine ⟨?_, hne, hf, before ++ gap, rest, by simp only [List.append_assoc], rfl⟩
      show _ ≤ byteCount (before ++ gap)
      rw [byteCount_append]
      exact Nat.le_add_right _ _
    · obtain ⟨hle, hne', hf', front, tail, htext, hspan⟩ := ih p hp
      refine ⟨?_, hne', hf', front, tail, ?_, hspan⟩
      · rw [byteCount_append, byteCount_append] at hle
        omega
      · rw [← htext]
        simp only [List.append_assoc]

/-- Each token ends where a later one starts, or before that. -/
theorem pairwise (h : Covers before text ps) :
    ps.Pairwise fun p q => p.span.stop ≤ q.span.start := by
  induction h with
  | blank => exact .nil
  | token _ _ _ hrest ih => exact .cons (fun q hq => (hrest.placed q hq).1) ih

/-- Between two neighbours, or a token and an end of the text, there are only blanks. -/
theorem gap (h : Covers before text ps) : ∀ older newer, ps = older ++ newer →
    ∃ front gap rest, before ++ text = front ++ gap ++ rest ∧ Text.allBlank gap = true ∧
      byteCount front = (older.getLast?.map fun p => p.span.stop).getD (byteCount before) ∧
      byteCount (front ++ gap) =
        (newer.head?.map fun p => p.span.start).getD (byteCount (before ++ text)) := by
  induction h with
  | @blank before gap hgap =>
    intro older newer hps
    obtain ⟨rfl, rfl⟩ := List.append_eq_nil_iff.1 hps.symm
    exact ⟨before, gap, [], (List.append_nil _).symm, hgap, rfl, rfl⟩
  | @token before gap rest ps t hgap _ _ _ ih =>
    intro older newer hps
    cases older with
    | nil =>
      rw [List.nil_append] at hps
      subst hps
      exact ⟨before, gap, t.written.toList ++ rest, by simp only [List.append_assoc], hgap, rfl, rfl⟩
    | cons p older =>
      obtain ⟨rfl, rfl⟩ := List.cons.inj hps
      obtain ⟨front, mid, tail, htext, hmid, hfront, hstop⟩ := ih older newer rfl
      have hsource : before ++ (gap ++ t.written.toList ++ rest) =
          before ++ gap ++ t.written.toList ++ rest := by simp only [List.append_assoc]
      refine ⟨front, mid, tail, hsource.trans htext, hmid, ?_, ?_⟩
      · rw [hfront, List.getLast?_cons]
        cases older.getLast? <;> rfl
      · rw [hstop, hsource]

end Covers

/-! ## The partition -/

theorem covers_of_tokenize {source : String} {ts : List Placed} (h : tokenize source = .ok ts) :
    Covers [] source.toList ts := (reads_iff.2 h).covers rfl

/-- Where the first of the tokens starts, or, if there is none, the text ends. -/
def startOf (newer : List Placed) (finish : Nat) : Nat :=
  (newer.head?.map fun p => p.span.start).getD finish

/-- Where the last of the tokens ends, or, if there is none, the text starts. -/
def stopOf (older : List Placed) : Nat := (older.getLast?.map fun p => p.span.stop).getD 0

/-- What lies between the tokens `older` and the tokens `newer` behind them. -/
def gapSpan (source : String) (older newer : List Placed) : Span :=
  ⟨stopOf older, startOf newer (byteCount source.toList)⟩

/-- The tokens and the blanks around them make up the text. -/
structure Partition (source : String) (ts : List Placed) : Prop where
  nonempty : ∀ p ∈ ts, p.span.start < p.span.stop
  ordered : ts.Pairwise fun p q => p.span.stop ≤ q.span.start
  boundaries : ∀ p ∈ ts,
    Text.IsBoundary source.toList p.span.start ∧ Text.IsBoundary source.toList p.span.stop
  slices : ∀ p ∈ ts, p.span.slice? source = some p.token.written
  faithful : ∀ p ∈ ts, p.token.Faithful
  gaps : ∀ older newer, ts = older ++ newer → ∃ gap,
    (gapSpan source older newer).slice? source = some gap ∧ Text.allBlank gap.toList = true

theorem Covers.partition {source : String} {ts : List Placed} (h : Covers [] source.toList ts) :
    Partition source ts where
  nonempty := by
    intro p hp
    obtain ⟨-, hne, -, front, rest, -, hspan⟩ := h.placed p hp
    rw [hspan, byteCount_append]
    exact Nat.lt_add_of_pos_right (Text.byteCount_pos hne)
  ordered := h.pairwise
  boundaries := by
    intro p hp
    obtain ⟨-, -, -, front, rest, htext, hspan⟩ := h.placed p hp
    rw [List.nil_append] at htext
    rw [hspan]
    exact ⟨⟨front, p.token.written.toList ++ rest, by rw [htext, List.append_assoc], rfl⟩,
      ⟨front ++ p.token.written.toList, rest, htext, rfl⟩⟩
  slices := by
    intro p hp
    obtain ⟨-, -, -, front, rest, htext, hspan⟩ := h.placed p hp
    exact Span.slice?_eq_some_iff.2 ⟨front, rest, htext, hspan⟩
  faithful := by
    intro p hp
    obtain ⟨-, -, hf, -⟩ := h.placed p hp
    exact hf
  gaps := by
    intro older newer hts
    obtain ⟨front, gap, rest, htext, hgap, hstart, hstop⟩ := h.gap older newer hts
    rw [List.nil_append] at htext hstop
    refine ⟨String.ofList gap, ?_, by rw [String.toList_ofList]; exact hgap⟩
    refine Span.slice?_eq_some_iff.2 ⟨front, rest, ?_, ?_⟩
    · rw [String.toList_ofList, htext]
    · rw [String.toList_ofList, hstart, hstop]
      rfl

/-- A later token starts later, and the text ends behind the start of all of them. -/
theorem Partition.startOf_lt {source : String} {ts : List Placed} (h : Partition source ts)
    {i j : Nat} (hij : i < j) (hj : j ≤ ts.length) :
    startOf (ts.drop i) (byteCount source.toList) <
      startOf (ts.drop j) (byteCount source.toList) := by
  have hi : i < ts.length := Nat.lt_of_lt_of_le hij hj
  have hp : ts[i] ∈ ts := List.getElem_mem hi
  have hstart : startOf (ts.drop i) (byteCount source.toList) = ts[i].span.start := by
    rw [startOf, List.head?_drop, List.getElem?_eq_getElem hi]
    rfl
  have hstop : ts[i].span.stop ≤ startOf (ts.drop j) (byteCount source.toList) := by
    rw [startOf, List.head?_drop]
    rcases Nat.lt_or_eq_of_le hj with hj | rfl
    · rw [List.getElem?_eq_getElem hj]
      exact List.pairwise_iff_getElem.1 h.ordered i j hi hj hij
    · rw [List.getElem?_eq_none (Nat.le_refl _)]
      exact (h.boundaries _ hp).2.le
  rw [hstart]
  exact Nat.lt_of_lt_of_le (h.nonempty _ hp) hstop

/-- The tokens of a text are not empty, follow one another, and stand between boundaries. Each is
what its span slices out of the text, and what is left between them is blank. -/
theorem tokenize_partition (source : String) (ts : List Placed) (h : tokenize source = .ok ts) :
    Partition source ts := (covers_of_tokenize h).partition

/-- Behind a blank of three bytes, a quoted text with an escape and a letter of two bytes. -/
theorem tokenize_partition_wideBlank :
    tokenize "\u3000'é\\'' TRUE" =
      .ok [⟨.quoted "'é\\''" "é'" '\x27', ⟨3, 9⟩⟩, ⟨.boolean true, ⟨10, 14⟩⟩] ∧
    Partition "\u3000'é\\'' TRUE"
      [⟨.quoted "'é\\''" "é'" '\x27', ⟨3, 9⟩⟩, ⟨.boolean true, ⟨10, 14⟩⟩] := by
  have htokens : tokenize "\u3000'é\\'' TRUE" =
      .ok [⟨.quoted "'é\\''" "é'" '\x27', ⟨3, 9⟩⟩, ⟨.boolean true, ⟨10, 14⟩⟩] :=
    tokenize_of_toOption (by decide +kernel)
  exact ⟨htokens, tokenize_partition _ _ htokens⟩

end ObjectSpec
