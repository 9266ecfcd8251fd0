import ObjectSpec.Proofs.Token.Behind
import ObjectSpec.Proofs.Token.Partition

/-!
# Cutting a text behind a token

The end of the text is as good as anything that ends a token: what is read in front of more
text is read when that text is cut off (`next_of_append`). So the tokens between two places
of a text are those of the piece between them (`tokenize_cut`).
-/

namespace ObjectSpec

open Text (byteCount byteCount_append)

/-- A token is the same if the text behind it is cut off. -/
theorem Token.next_of_append {c : Char} {cs tail rest : List Char} {t : Token}
    (h : next c (cs ++ tail) = .ok (t, rest ++ tail)) : next c cs = .ok (t, rest) := by
  obtain ⟨more, -, hcs⟩ := exists_written_of_next h
  rw [← List.append_assoc] at hcs
  obtain rfl := List.append_cancel_right hcs
  rw [List.append_assoc] at h
  exact next_of_yields h (.of_append rest tail)

/-! ## Rows of tokens -/

/-- The span `k` bytes later in the text. -/
def Span.shift (k : Nat) (s : Span) : Span := ⟨s.start + k, s.stop + k⟩

/-- The span `k` bytes earlier in the text. -/
def Span.back (k : Nat) (s : Span) : Span := ⟨s.start - k, s.stop - k⟩

theorem Span.back_shift (k : Nat) (s : Span) : (s.shift k).back k = s := by
  rw [shift, back, Nat.add_sub_cancel, Nat.add_sub_cancel]

def Placed.shift (k : Nat) (p : Placed) : Placed := ⟨p.token, p.span.shift k⟩

namespace Reads

/-- From the start of a token on. -/
theorem behind {offset : Nat} {text : List Char} {older ps : List Placed} {p : Placed}
    (h : Reads offset text (older ++ p :: ps)) :
    ∃ front rest, text = front ++ rest ∧ p.span.start = offset + byteCount front ∧
      Reads p.span.start rest (p :: ps) := by
  induction older generalizing offset text with
  | nil =>
    cases h with
    | @token _ gap c cs t rest _ hgap hc hn hrest =>
      refine ⟨gap, c :: cs, rfl, rfl, ?_⟩
      show Reads (offset + byteCount gap) ([] ++ c :: cs) (⟨t, ⟨offset + byteCount gap +
        byteCount [], offset + byteCount gap + byteCount [] + byteCount t.written.toList⟩⟩ :: ps)
      exact .token rfl hc hn hrest
  | cons q older ih =>
    cases h with
    | @token _ gap c cs t rest _ hgap hc hn hrest =>
      obtain ⟨front, rest', rfl, hstart, hreads⟩ := ih hrest
      refine ⟨gap ++ t.written.toList ++ front, rest', ?_, ?_, hreads⟩
      · rw [(Token.written_of_next hn).1]
        simp only [List.append_assoc]
      · rw [hstart, byteCount_append, byteCount_append]
        omega

/-- Up to the end of a token. -/
theorem cut {offset : Nat} {text : List Char} {own newer : List Placed}
    (h : Reads offset text (own ++ newer)) :
    ∃ kept tail, text = kept ++ tail ∧ Reads offset kept own ∧
      (own.getLast?.map fun p => p.span.stop).getD offset = offset + byteCount kept := by
  induction own generalizing offset text with
  | nil => exact ⟨[], text, rfl, .done rfl, rfl⟩
  | cons p own ih =>
    cases h with
    | @token _ gap c cs t rest _ hgap hc hn hrest =>
      obtain ⟨kept, tail, rfl, hkept, hstop⟩ := ih hrest
      obtain ⟨ds, hds, hcs⟩ := Token.exists_written_of_next hn
      rw [← List.append_assoc] at hcs
      subst hcs
      refine ⟨gap ++ c :: (ds ++ kept), tail, by simp, .token hgap hc ?_ hkept, ?_⟩
      · exact Token.next_of_append hn
      · have hcount : byteCount (gap ++ c :: (ds ++ kept)) =
            byteCount gap + byteCount t.written.toList + byteCount kept := by
          rw [hds, ← List.cons_append, byteCount_append, byteCount_append, Nat.add_assoc]
        rw [hcount, List.getLast?_cons, ← Nat.add_assoc, ← Nat.add_assoc, ← hstop]
        cases own.getLast? <;> rfl

/-- Where the text stands matters for the spans alone. -/
theorem unshift {offset k : Nat} {text : List Char} {ps : List Placed}
    (h : Reads (offset + k) text ps) :
    ∃ qs, Reads offset text qs ∧ qs.map (Placed.shift k) = ps := by
  generalize hstart : offset + k = start at h
  induction h generalizing offset with
  | done hgap => exact ⟨[], .done hgap, rfl⟩
  | @token _ gap c cs t rest ps hgap hc hn _ ih =>
    subst hstart
    have hnext : offset + byteCount gap + byteCount t.written.toList + k =
        offset + k + byteCount gap + byteCount t.written.toList := by omega
    obtain ⟨qs, hqs, rfl⟩ := ih hnext
    refine ⟨_, .token hgap hc hn hqs, ?_⟩
    have hspan : Span.shift k ⟨offset + byteCount gap,
        offset + byteCount gap + byteCount t.written.toList⟩ =
        ⟨offset + k + byteCount gap, offset + k + byteCount gap + byteCount t.written.toList⟩ := by
      rw [Span.shift, hnext]
      simp only [Span.mk.injEq, and_true]
      omega
    rw [List.map_cons, Placed.shift, hspan]

end Reads

/-- What is cut out of a text from the start of one of its tokens to the end of another has the
tokens that lie there, and no others. -/
theorem tokenize_cut {source : String} {older own newer : List Placed} {p : Placed}
    (h : tokenize source = .ok (older ++ (p :: own) ++ newer)) :
    ∃ text qs, (Span.mk p.span.start (stopOf (p :: own))).slice? source = some text ∧
      tokenize text = .ok qs ∧ qs.map (Placed.shift p.span.start) = p :: own := by
  rw [List.append_assoc, List.cons_append] at h
  obtain ⟨front, rest, htext, hstart, hrest⟩ := (reads_iff.2 h).behind
  rw [← List.cons_append] at hrest
  obtain ⟨kept, tail, rfl, hkept, hstop⟩ := hrest.cut
  rw [← Nat.zero_add p.span.start] at hkept
  obtain ⟨qs, hqs, hshift⟩ := hkept.unshift
  refine ⟨String.ofList kept, qs, Span.slice?_eq_some_iff.2 ⟨front, tail, ?_, ?_⟩, ?_, hshift⟩
  · rw [String.toList_ofList, htext, List.append_assoc]
  · rw [Nat.zero_add] at hstart
    rw [String.toList_ofList, byteCount_append, ← hstart, ← hstop, stopOf, List.getLast?_cons]
    rfl
  · rw [tokenize, String.toList_ofList]
    exact reads_iff.1 hqs

end ObjectSpec
