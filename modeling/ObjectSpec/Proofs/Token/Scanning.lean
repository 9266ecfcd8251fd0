import ObjectSpec.Proofs.Token.Splitting

/-!
# How a token is read

The first character tells the kind of a token, and only a quote may start two kinds. So there is
one case for each kind (`Scans`), and a token is read just if one of them is the case
(`Token.next_iff`).
-/

namespace ObjectSpec

namespace Token

/-! ## Rows of a class -/

theorem splitWhile_append {p : Char → Bool} {row rest : List Char}
    (h : ∀ c ∈ row, p c = true) (hr : Stops p rest) :
    splitWhile p (row ++ rest) = (row, rest) := by
  rw [splitWhile, List.takeWhile_append_of_pos h, List.dropWhile_append_of_pos h]
  cases rest with
  | nil => simp
  | cons c cs =>
    have hc : ¬ p c = true := by simp [hr c rfl]
    rw [List.takeWhile_cons_of_neg hc, List.dropWhile_cons_of_neg hc, List.append_nil]

theorem splitOne_cons (c : Char) (rest : List Char) : splitOne c (c :: rest) = ([c], rest) := by
  rw [splitOne, List.head?_cons, if_pos rfl, List.tail_cons]

theorem splitOne_stops {c : Char} {rest : List Char} (h : Stops (· == c) rest) :
    splitOne c rest = ([], rest) := by
  rw [splitOne, if_neg]
  intro hc
  simpa using h c (by rw [hc]; rfl)

/-! ## First characters -/

/-- Digits and the minus: what a numeral starts with. -/
def isNumeralStart (c : Char) : Bool := c.isDigit || c == '-'

theorem numeral?_eq_none {c : Char} (hc : isNumeralStart c = false) (cs : List Char) :
    numeral? (c :: cs) = none := by
  obtain ⟨hdigit, hminus⟩ := Bool.or_eq_false_iff.1 hc
  have h1 : splitOne '-' (c :: cs) = ([], c :: cs) := splitOne_stops fun d hd => by
    cases hd
    exact hminus
  have h2 : splitWhile Char.isDigit ([] ++ c :: cs) = ([], c :: cs) :=
    splitWhile_append (by simp) fun d hd => by
      cases hd
      exact hdigit
  rw [List.nil_append] at h2
  simp only [numeral?, h1, h2]
  rfl

/-- A letter of the lowest block, or one of two signs. -/
theorem isNameStart_cases {c : Char} (h : isNameStart c = true) :
    (65 ≤ c.toNat ∧ c.toNat ≤ 90) ∨ (97 ≤ c.toNat ∧ c.toNat ≤ 122) ∨ c = '_' ∨ c = '$' := by
  have halpha : c.isAlpha = (c.isUpper || c.isLower) := rfl
  have hupper : c.isUpper = decide ('A'.val ≤ c.val ∧ c.val ≤ 'Z'.val) := rfl
  have hlower : c.isLower = (decide ('a'.val ≤ c.val) && decide (c.val ≤ 'z'.val)) := rfl
  simp only [isNameStart, halpha, hupper, hlower, Bool.or_eq_true, Bool.and_eq_true,
    decide_eq_true_eq, UInt32.le_iff_toNat_le, beq_iff_eq] at h
  rcases h with ((h | h) | h) | h
  · exact .inl h
  · exact .inr (.inl h)
  · exact .inr (.inr (.inl h))
  · exact .inr (.inr (.inr h))

theorem isDigit_of_isNameStart {c : Char} (h : isNameStart c = true) : c.isDigit = false := by
  rw [Bool.eq_false_iff, ne_eq, Char.isDigit_iff_toNat]
  have h0 : '0'.toNat = 48 := rfl
  have h9 : '9'.toNat = 57 := rfl
  rcases isNameStart_cases h with h | h | rfl | rfl
  · omega
  · omega
  · decide
  · decide

theorem isNumeralStart_of_isNameStart {c : Char} (h : isNameStart c = true) :
    isNumeralStart c = false := by
  refine Bool.or_eq_false_iff.2 ⟨isDigit_of_isNameStart h, ?_⟩
  rw [beq_eq_false_iff_ne]
  rintro rfl
  exact absurd h (by decide)

theorem isNameStart_of_path? {c : Char} {cs path rest : List Char}
    (h : path? (c :: cs) = some (path, rest)) : isNameStart c = true := by
  rw [path?] at h
  split at h
  · next hc => exact hc
  · cases h

/-- A character of a class without quotes and marks starts a numeral or a path. -/
theorem next_of_class {p : Char → Bool} (hquote : p '\x22' = false) (hsingle : p '\x27' = false)
    (hmark : ∀ m : Mark, p m.char = false) {c : Char} (hc : p c = true) (cs : List Char) :
    next c cs =
      match numeral? (c :: cs) with
      | some (row, rest) => .ok (.number (String.ofList row), rest)
      | none =>
        match path? (c :: cs) with
        | some (path, rest) => .ok (ofPath path, rest)
        | none => .error (.unexpected c) := by
  have hne : ∀ d, p d = false → c ≠ d := by
    rintro d hd rfl
    rw [hc] at hd
    cases hd
  -- A character of the class is none of those that other tokens start with.
  have hraw : ¬ Text.rawMarker.isPrefixOf (c :: cs) := by
    intro hp
    obtain ⟨tail, ht⟩ := List.isPrefixOf_iff_prefix.1 hp
    exact hne '\x22' hquote (List.cons.inj ht).1.symm
  have hquotes : ¬ (c = '\x22' ∨ c = '\x27') := fun h =>
    h.elim (hne _ hquote) (hne _ hsingle)
  have hnone : Mark.ofChar? c = none := by
    cases hm : Mark.ofChar? c with
    | none => rfl
    | some m => exact absurd (Mark.char_of_ofChar? hm).symm (hne _ (hmark m))
  rw [next, if_neg hraw, if_neg hquotes, hnone]
  cases numeral? (c :: cs) with
  | some _ => rfl
  | none => cases path? (c :: cs) <;> rfl

/-! ## The kinds of tokens -/

/-- A token is read off a text that starts with `c`, and `rest` is left. -/
inductive Scans (c : Char) (cs : List Char) : Token → List Char → Prop
  | raw {content rest} : Text.rawMarker <+: c :: cs →
      Text.closeRaw? (cs.drop 2) = some (content, rest) →
      Scans c cs (.raw (String.ofList (Text.rawMarker ++ content ++ Text.rawMarker))
        (String.ofList content)) rest
  | quoted {body rest} : ¬ Text.rawMarker <+: c :: cs → c = '\x22' ∨ c = '\x27' →
      Text.closeQuote? c cs = some (body, rest) →
      Scans c cs (.quoted (String.ofList (c :: body ++ [c]))
        (String.ofList (Text.unescape c body)) c) rest
  | mark {m} : Mark.ofChar? c = some m → Scans c cs (.mark m) cs
  | number {row rest} : numeral? (c :: cs) = some (row, rest) →
      Scans c cs (.number (String.ofList row)) rest
  | path {path rest} : path? (c :: cs) = some (path, rest) → Scans c cs (ofPath path) rest

theorem next_iff {c : Char} {cs rest : List Char} {t : Token} :
    next c cs = .ok (t, rest) ↔ Scans c cs t rest := by
  constructor
  · intro h
    rw [next] at h
    split at h
    · next hraw =>
      split at h
      · next hclose =>
        cases h
        exact .raw (List.isPrefixOf_iff_prefix.1 hraw) hclose
      · cases h
    next hraw =>
    split at h
    · next hquote =>
      split at h
      · next hclose =>
        cases h
        exact .quoted (fun hp => hraw (List.isPrefixOf_iff_prefix.2 hp)) hquote hclose
      · cases h
    split at h
    · next hm =>
      cases h
      exact .mark hm
    split at h
    · next hrow =>
      cases h
      exact .number hrow
    split at h
    · next hpath =>
      cases h
      exact .path hpath
    · cases h
  · intro h
    cases h with
    | raw hraw hclose => rw [next, if_pos (List.isPrefixOf_iff_prefix.2 hraw), hclose]
    | quoted hraw hquote hclose =>
      rw [next, if_neg fun hp => hraw (List.isPrefixOf_iff_prefix.1 hp), if_pos hquote, hclose]
    | mark hm =>
      obtain rfl := Mark.char_of_ofChar? hm
      exact next_mark _ _
    | number hrow =>
      have hc : isNumeralStart c = true := by
        by_contra hc
        rw [numeral?_eq_none (Bool.eq_false_iff.2 hc)] at hrow
        cases hrow
      rw [next_of_class (by decide) (by decide) (by decide) hc, hrow]
    | path hpath =>
      have hc := isNameStart_of_path? hpath
      have hnumeral := numeral?_eq_none (isNumeralStart_of_isNameStart hc) cs
      rw [next_of_class (by decide) (by decide) (by decide) hc, hnumeral, hpath]

end Token

end ObjectSpec
