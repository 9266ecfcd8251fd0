import Mathlib.Data.List.Chain
import ObjectSpec.Proofs.Token.Cutting

/-!
# Another name in a text

Every token that was read is read again in front of whatever may follow a token
(`stable_of_next`). So if of any two neighbours one is a mark, another name can be written
in place of a name: the other tokens stay what they are, although they do not stay where
they are (`tokenize_replace`).
-/

namespace ObjectSpec

open Text (byteCount byteCount_append)

/-! ## What is read is read again -/

namespace Token

theorem splitFraction_isFraction {text front rest : List Char}
    (h : splitFraction text = (front, rest)) : IsFraction front := by
  cases hdot : splitOne '.' text with
  | mk dot more =>
  rcases splitOne_eq_iff.1 hdot with ⟨-, rfl⟩ | ⟨-, rfl, hstop⟩
  · cases hrow : splitWhile Char.isDigit more with
    | mk row tail =>
    obtain ⟨-, hdigits, -⟩ := splitWhile_eq_iff.1 hrow
    rw [splitFraction_point, hrow] at h
    split at h
    · cases h
      exact .none
    · next hne =>
      cases h
      cases row with
      | nil => exact absurd rfl hne
      | cons c row => exact .some hdigits
  · rw [splitFraction_stops hstop] at h
    cases h
    exact .none

theorem numeral?_isNumeral {text row rest : List Char} (h : numeral? text = some (row, rest)) :
    IsNumeral row := by
  have hone : ∀ {c : Char} {t front more : List Char}, splitOne c t = (front, more) →
      front = [] ∨ front = [c] := fun hs =>
    (splitOne_eq_iff.1 hs).elim (fun h => .inr h.1) fun h => .inl h.1
  cases hsign : splitOne '-' text with
  | mk sign t1 =>
  cases hwhole : splitWhile Char.isDigit t1 with
  | mk whole t2 =>
  cases hfraction : splitFraction t2 with
  | mk fraction t3 =>
  cases hsuffix : splitOne 'L' t3 with
  | mk suffix t4 =>
  simp only [numeral?, hsign, hwhole, hfraction, hsuffix] at h
  split at h
  · cases h
  next hne =>
  cases h
  exact .mk (hone hsign) (by simpa using hne) (splitWhile_eq_iff.1 hwhole).2.1
    (splitFraction_isFraction hfraction) (hone hsuffix)

theorem stable_of_next {c : Char} {cs rest : List Char} {t : Token}
    (h : next c cs = .ok (t, rest)) : t.Stable := by
  have hwf := wellFormed_of_next h
  cases next_iff.1 h with
  | raw => exact stable_raw hwf
  | quoted _ hquote hclose =>
    have hbody := (Text.closeQuote?_eq_some (Text.ne_backslash_of_quote hquote)).1 hclose
    exact stable_quoted hquote hbody.2
  | mark => exact stable_mark _
  | number hrow =>
    refine stable_number ?_
    rw [String.toList_ofList]
    exact numeral?_isNumeral hrow
  | path hpath => exact stable_ofPath (path?_isPath hpath)

/-! ## Neighbours -/

def IsMark (t : Token) : Prop := ∃ m, t = .mark m

theorem not_isMark_name (path : String) : ¬ (Token.name path).IsMark := by
  rintro ⟨m, hm⟩
  cases hm

/-- One of the two is a mark, so that no blank is needed between them. -/
def Beside (t u : Token) : Prop := t.IsMark ∨ u.IsMark

/-- A mark is read in front of anything, and every other token in front of what may follow it. -/
theorem next_again {c : Char} {cs rest : List Char} {t : Token} (h : next c cs = .ok (t, rest))
    {other : List Char} (hother : ¬ t.IsMark → Ends other) :
    ∃ d ds, t.written.toList = d :: ds ∧ Text.isBlank d = false ∧
      next d (ds ++ other) = .ok (t, other) := by
  by_cases hmark : t.IsMark
  · obtain ⟨m, rfl⟩ := hmark
    exact ⟨m.char, [], by rw [written, String.toList_singleton], by cases m <;> decide,
      next_mark m other⟩
  · obtain ⟨d, ds, hw, hd, hnext⟩ := stable_of_next h
    exact ⟨d, ds, hw, hd, hnext other (hother hmark)⟩

end Token

open Token (IsMark Beside IsTypeName)

/-- In front of a mark, or at the end, stands what may follow a token. -/
theorem Splits.ends {text : List Char} {ts : List Token} (h : Splits text ts)
    (hmark : ∀ t ∈ ts.head?, t.IsMark) : Ends text := by
  cases h with
  | done hb =>
    cases text with
    | nil => exact .finish
    | cons c cs =>
      have hall := List.all_eq_true.1 (Text.skipBlank_eq_nil_iff.1 hb)
      exact .blank (hall c List.mem_cons_self) cs
  | @token _ c cs t rest ts hb hn _ =>
    obtain ⟨gap, rfl, hgap, -⟩ := Text.exists_gap hb
    cases gap with
    | cons g gap => exact .blank (List.all_eq_true.1 hgap g List.mem_cons_self) _
    | nil =>
      obtain ⟨m, rfl⟩ := hmark _ rfl
      have hword := (Token.written_of_next hn).1
      rw [Token.written, String.toList_singleton] at hword
      rw [List.nil_append, (List.cons.inj hword).1]
      exact .mark m cs

/-! ## The replacement -/

section Replacement
variable {older newer : List Placed} {s : Span} {old : String}

/-- Token by token up to the name; what is behind it has not changed. -/
theorem Reads.replace {offset : Nat} {text : List Char}
    (h : Reads offset text (older ++ ⟨.name old, s⟩ :: newer))
    (hbeside : ((older ++ ⟨.name old, s⟩ :: newer).map Placed.token).IsChain Beside) :
    ∃ front rest, text = front ++ old.toList ++ rest ∧ s.start = offset + byteCount front ∧
      ∀ name, IsTypeName name → Splits (front ++ name.toList ++ rest)
        (older.map Placed.token ++ .name name :: newer.map Placed.token) := by
  induction older generalizing offset text with
  | nil =>
    cases h with
    | @token _ gap c cs t rest _ hgap hc hn hrest =>
      have hword := (Token.written_of_next hn).1
      refine ⟨gap, rest, by rw [hword, List.append_assoc]; rfl, rfl, fun name hname => ?_⟩
      have hends : Ends rest := hrest.splits.ends fun t ht =>
        ((List.isChain_cons.1 hbeside).1 t ht).resolve_left (Token.not_isMark_name old)
      obtain ⟨d, ds, hw, hd, hnext⟩ := Token.stable_name hname
      rw [Token.written] at hw
      rw [List.append_assoc, hw]
      exact (hrest.splits.next hd (hnext rest hends)).gap hgap
  | cons q older ih =>
    cases h with
    | @token _ gap c cs t rest _ hgap hc hn hrest =>
      obtain ⟨front, tail, rfl, hstart, hsplits⟩ := ih hrest hbeside.tail
      have hword := (Token.written_of_next hn).1
      refine ⟨gap ++ t.written.toList ++ front, tail, ?_, ?_, fun name hname => ?_⟩
      · rw [hword]
        simp only [List.append_assoc]
      · rw [hstart, byteCount_append, byteCount_append]
        omega
      · -- Behind a token that is no mark stands a mark, which is not the name.
        have hends : ¬ t.IsMark → Ends (front ++ name.toList ++ tail) := fun hmark =>
          (hsplits name hname).ends fun u hu => by
            cases older with
            | nil =>
              have hname := ((List.isChain_cons.1 hbeside).1 _ rfl).resolve_left hmark
              exact absurd hname (Token.not_isMark_name old)
            | cons p older =>
              cases hu
              exact ((List.isChain_cons.1 hbeside).1 _ rfl).resolve_left hmark
        obtain ⟨d, ds, hw, hd, hnext⟩ := Token.next_again hn hends
        have htext : gap ++ t.written.toList ++ front ++ name.toList ++ tail =
            gap ++ d :: (ds ++ (front ++ name.toList ++ tail)) := by
          rw [hw]
          simp only [List.append_assoc, List.cons_append]
        rw [htext]
        exact ((hsplits name hname).next hd hnext).gap hgap

/-- With another name in place of a name, a text has the same tokens but for this one. -/
theorem tokenize_replace {source : String}
    (h : tokenize source = .ok (older ++ ⟨.name old, s⟩ :: newer))
    (hbeside : ((older ++ ⟨.name old, s⟩ :: newer).map Placed.token).IsChain Beside) :
    ∃ front rest : String, source = front ++ old ++ rest ∧ byteCount front.toList = s.start ∧
      ∀ name, IsTypeName name → ∃ ps, tokenize (front ++ name ++ rest) = .ok ps ∧
        ps.map Placed.token = older.map Placed.token ++ .name name :: newer.map Placed.token := by
  obtain ⟨front, rest, htext, hstart, hsplits⟩ := (reads_iff.2 h).replace hbeside
  rw [Nat.zero_add] at hstart
  refine ⟨String.ofList front, String.ofList rest, ?_, ?_, fun name hname => splits_iff.1 ?_⟩
  · rw [← String.toList_inj, htext]
    simp only [String.toList_append, String.toList_ofList]
  · rw [String.toList_ofList, hstart]
  · simpa only [String.toList_append, String.toList_ofList] using hsplits name hname

end Replacement

end ObjectSpec
