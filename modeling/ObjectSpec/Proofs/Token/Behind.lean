import ObjectSpec.Proofs.Token.Words

/-!
# What stands behind a token

Where a token ends depends on what stands behind it, but a token looks no further than at
the next character, and at the one after it only behind a point. So a token is read the same
way in front of any other text that has no other characters in these two places
(`next_of_yields`): in front of less text, or of one that only starts alike.
-/

namespace ObjectSpec

theorem exists_of_not_stops {p : Char → Bool} {text : List Char} (h : ¬ Stops p text) :
    ∃ c cs, text = c :: cs ∧ p c = true := by
  cases text with
  | nil => exact absurd (fun c hc => nomatch hc) h
  | cons c cs => exact ⟨c, cs, rfl, by simpa [Stops] using h⟩

/-- What stands behind a token may be `other` in place of `rest`: no character that the token can
see is another one. -/
structure Yields (rest other : List Char) : Prop where
  first : ∀ c ∈ other.head?, c ∈ rest.head?
  second : '.' ∈ other.head? → ∀ c ∈ other.tail.head?, c ∈ rest.tail.head?

namespace Yields

theorem of_append (rest tail : List Char) : Yields (rest ++ tail) rest := by
  cases rest with
  | nil => exact ⟨fun c hc => absurd hc (by simp), fun hc => absurd hc (by simp)⟩
  | cons d rest =>
    refine ⟨fun c hc => hc, fun _ c hc => ?_⟩
    cases rest with
    | nil => cases hc
    | cons e rest => exact hc

/-- It is enough that both start alike, if they do not start with a point. -/
theorem of_head {rest other : List Char} (h : other.head? = rest.head?)
    (hdot : '.' ∉ rest.head?) : Yields rest other :=
  ⟨fun _ hc => h ▸ hc, fun hc => absurd (h ▸ hc) hdot⟩

variable {rest other : List Char}

theorem append (h : Yields rest other) (front : List Char) :
    Yields (front ++ rest) (front ++ other) := by
  match front with
  | [] => exact h
  | [_] => exact ⟨fun _ hc => hc, fun _ c hc => h.first c hc⟩
  | _ :: _ :: _ => exact ⟨fun _ hc => hc, fun _ _ hc => hc⟩

theorem stops {p : Char → Bool} (h : Yields rest other) (hp : Stops p rest) : Stops p other :=
  fun c hc => hp c (h.first c hc)

theorem behind_point {p : Char → Bool} {more : List Char} (h : Yields rest ('.' :: more)) :
    ∃ tail, rest = '.' :: tail ∧ (Stops p tail → Stops p more) := by
  cases rest with
  | nil => exact nomatch h.first '.' rfl
  | cons c tail =>
    obtain rfl : c = '.' := Option.some.inj (h.first '.' rfl)
    exact ⟨tail, rfl, fun hp d hd => hp d (h.second rfl d hd)⟩

end Yields

namespace Token

/-! ## Numerals -/

section Pieces
variable {p : Char → Bool} {c : Char} {text front rest other : List Char}

theorem splitWhile_eq_iff :
    splitWhile p text = (front, rest) ↔
      text = front ++ rest ∧ (∀ c ∈ front, p c = true) ∧ Stops p rest := by
  constructor
  · intro h
    cases h
    refine ⟨(splitWhile_eq p text).symm, List.all_eq_true.1 List.all_takeWhile, fun c hc => ?_⟩
    have hstop := List.head?_dropWhile_not p text
    rw [hc] at hstop
    exact hstop
  · rintro ⟨rfl, hfront, hrest⟩
    exact splitWhile_append hfront hrest

theorem splitWhile_of_yields (h : splitWhile p (front ++ rest) = (front, rest))
    (hy : Yields rest other) : splitWhile p (front ++ other) = (front, other) := by
  obtain ⟨-, hfront, hrest⟩ := splitWhile_eq_iff.1 h
  exact splitWhile_append hfront (hy.stops hrest)

theorem splitOne_eq_iff :
    splitOne c text = (front, rest) ↔
      (front = [c] ∧ text = c :: rest) ∨ (front = [] ∧ text = rest ∧ Stops (· == c) rest) := by
  constructor
  · intro h
    cases text with
    | nil =>
      cases h
      exact .inr ⟨rfl, rfl, fun d hd => nomatch hd⟩
    | cons d ds =>
      by_cases hd : d = c
      · subst hd
        rw [splitOne_cons] at h
        cases h
        exact .inl ⟨rfl, rfl⟩
      · have hstops : Stops (· == c) (d :: ds) := fun e he => by
          cases he
          simpa using hd
        rw [splitOne_stops hstops] at h
        cases h
        exact .inr ⟨rfl, rfl, hstops⟩
  · rintro (⟨rfl, rfl⟩ | ⟨rfl, rfl, h⟩)
    · exact splitOne_cons c rest
    · exact splitOne_stops h

theorem splitOne_of_yields (h : splitOne c (front ++ rest) = (front, rest))
    (hy : Yields rest other) : splitOne c (front ++ other) = (front, other) := by
  rcases splitOne_eq_iff.1 h with ⟨rfl, -⟩ | ⟨rfl, -, hrest⟩
  · exact splitOne_cons c other
  · exact splitOne_stops (hy.stops hrest)

theorem splitFraction_stops (h : Stops (· == '.') text) : splitFraction text = ([], text) := by
  rw [splitFraction, splitOne_stops h]
  rfl

/-- A point belongs to the fraction if a digit stands behind it. -/
theorem splitFraction_point (more : List Char) :
    splitFraction ('.' :: more) =
      if (splitWhile Char.isDigit more).1 = [] then ([], '.' :: more)
      else ('.' :: (splitWhile Char.isDigit more).1, (splitWhile Char.isDigit more).2) := by
  rw [splitFraction, splitOne_cons]
  simp

theorem splitFraction_of_yields (h : splitFraction (front ++ rest) = (front, rest))
    (hy : Yields rest other) : splitFraction (front ++ other) = (front, other) := by
  cases front with
  | nil =>
    rw [List.nil_append] at h ⊢
    by_cases hother : Stops (· == '.') other
    · exact splitFraction_stops hother
    · -- No digit stands behind the point, neither here nor there.
      obtain ⟨c, more, rfl, hc⟩ := exists_of_not_stops hother
      obtain rfl := beq_iff_eq.1 hc
      obtain ⟨tail, rfl, hmore⟩ := hy.behind_point
      rw [splitFraction_point] at h
      split at h
      · next hnil =>
        have hdigits := splitWhile_eq Char.isDigit tail
        rw [hnil, List.nil_append] at hdigits
        obtain ⟨-, -, hstop⟩ := splitWhile_eq_iff.1 (Prod.ext hnil hdigits)
        have hnone : splitWhile Char.isDigit more = ([], more) :=
          splitWhile_eq_iff.2 ⟨rfl, by simp, hmore hstop⟩
        rw [splitFraction_point, hnone, if_pos rfl]
      · cases h
  | cons d row =>
    have hd : d = '.' := by
      by_contra hne
      rw [splitFraction_stops fun e he => by cases he; simpa using hne] at h
      cases h
    subst hd
    rw [List.cons_append, splitFraction_point] at h ⊢
    split at h
    · cases h
    · next hne =>
      have hrow : splitWhile Char.isDigit (row ++ rest) = (row, rest) := by
        simpa [Prod.ext_iff] using h
      rw [hrow] at hne
      rw [splitWhile_of_yields hrow hy, if_neg hne]

/-- Each piece is read in front of the next one as before. -/
theorem numeral?_of_yields (h : numeral? (front ++ rest) = some (front, rest))
    (hy : Yields rest other) : numeral? (front ++ other) = some (front, other) := by
  cases hsign : splitOne '-' (front ++ rest) with
  | mk sign t1 =>
  cases hwhole : splitWhile Char.isDigit t1 with
  | mk whole t2 =>
  cases hfraction : splitFraction t2 with
  | mk fraction t3 =>
  cases hsuffix : splitOne 'L' t3 with
  | mk suffix t4 =>
  simp only [numeral?, hsign, hwhole, hfraction, hsuffix] at h
  split at h
  · cases h
  next hne =>
  obtain ⟨rfl, rfl⟩ := Prod.mk.inj (Option.some.inj h)
  obtain rfl : suffix ++ t4 = t3 := by simpa [hsuffix] using splitOne_eq 'L' t3
  obtain rfl : fraction ++ (suffix ++ t4) = t2 := by simpa [hfraction] using splitFraction_eq t2
  obtain rfl : whole ++ (fraction ++ (suffix ++ t4)) = t1 := by
    simpa [hwhole] using splitWhile_eq Char.isDigit t1
  simp only [List.append_assoc] at hsign
  have hsuffix' := splitOne_of_yields hsuffix hy
  have hfraction' := splitFraction_of_yields hfraction (hy.append suffix)
  have hwhole' := splitWhile_of_yields hwhole ((hy.append suffix).append fraction)
  have hsign' := splitOne_of_yields hsign (((hy.append suffix).append fraction).append whole)
  simp only [List.append_assoc, numeral?, hsign', hwhole', hfraction', hsuffix']
  rw [if_neg hne]

end Pieces

/-! ## Paths -/

theorem pathTail_stops {c : Char} {cs : List Char} (hc : isNameChar c = false)
    (hdot : c = '.' → Stops isNameStart cs) : pathTail (c :: cs) = ([], c :: cs) := by
  cases cs with
  | nil => simp [pathTail, hc]
  | cons d ds =>
    have hcond : (isNameChar c || (c == '.' && isNameStart d)) = false := by
      rw [hc, Bool.false_or, Bool.and_eq_false_iff]
      by_cases hd : c = '.'
      · exact .inr (hdot hd d rfl)
      · exact .inl (by simpa using hd)
    rw [pathTail, if_neg (by simp [hcond])]

theorem pathTail_of_yields {front rest other : List Char}
    (h : pathTail (front ++ rest) = (front, rest)) (hy : Yields rest other) :
    pathTail (front ++ other) = (front, other) := by
  induction front with
  | nil =>
    rw [List.nil_append] at h ⊢
    cases other with
    | nil => rfl
    | cons c cs =>
      have hrest : c ∈ rest.head? := hy.first c rfl
      obtain ⟨tail, rfl⟩ := List.head?_eq_some_iff.1 hrest
      have hc : isNameChar c = false := by
        by_contra hc
        rw [pathTail_char (by simpa using hc)] at h
        cases h
      refine pathTail_stops hc fun hdot => ?_
      subst hdot
      obtain ⟨_, heq, hmore⟩ := hy.behind_point
      obtain rfl := (List.cons.inj heq).2
      refine hmore ?_
      by_contra hstops
      obtain ⟨d, ds, rfl, hd⟩ := exists_of_not_stops hstops
      rw [pathTail_dot hd] at h
      cases h
  | cons c front ih =>
    rw [List.cons_append] at h ⊢
    by_cases hc : isNameChar c = true
    · rw [pathTail_char hc] at h ⊢
      obtain ⟨hfront, hrest⟩ := Prod.mk.inj h
      rw [ih (Prod.ext (List.cons.inj hfront).2 hrest)]
    rw [Bool.not_eq_true] at hc
    by_cases hdot : c = '.' → Stops isNameStart (front ++ rest)
    · rw [pathTail_stops hc hdot] at h
      cases h
    · -- The dot is read, and with it the identifier behind it.
      obtain ⟨rfl, hstops⟩ := Classical.not_imp.1 hdot
      obtain ⟨d, ds, hds, hd⟩ := exists_of_not_stops hstops
      rw [hds, pathTail_dot hd, ← hds] at h
      obtain ⟨hfront, hrest⟩ := Prod.mk.inj h
      have htail := ih (Prod.ext (List.cons.inj hfront).2 hrest)
      cases front with
      | nil =>
        rw [List.nil_append] at hds hfront
        rw [hds, pathTail_char (isNameChar_of_isNameStart hd)] at hfront
        cases hfront
      | cons e front =>
        obtain rfl : e = d := (List.cons.inj hds).1
        rw [List.cons_append, pathTail_dot hd, ← List.cons_append, htail]

theorem path?_of_yields {path rest other : List Char} (hne : path ≠ [])
    (h : path? (path ++ rest) = some (path, rest)) (hy : Yields rest other) :
    path? (path ++ other) = some (path, other) := by
  cases path with
  | nil => exact absurd rfl hne
  | cons c cs =>
    have hc := isNameStart_of_path? h
    rw [List.cons_append, path?, if_pos hc] at h ⊢
    obtain ⟨hpath, hrest⟩ := Prod.mk.inj (Option.some.inj h)
    rw [pathTail_of_yields (Prod.ext (List.cons.inj hpath).2 hrest) hy]

/-! ## One token -/

/-- The text in front of which a token was read is what the token leaves of it. -/
theorem exists_written_of_next {c : Char} {cs rest : List Char} {t : Token}
    (h : next c cs = .ok (t, rest)) : ∃ more, t.written.toList = c :: more ∧ cs = more ++ rest := by
  obtain ⟨hword, hne⟩ := written_of_next h
  obtain ⟨d, more, hmore⟩ := List.exists_cons_of_ne_nil hne
  rw [hmore, List.cons_append] at hword
  obtain ⟨rfl, hcs⟩ := List.cons.inj hword
  exact ⟨more, hmore, hcs⟩

/-- A token is the same in front of another text if no character that it can see is another one. -/
theorem next_of_yields {c : Char} {cs rest other : List Char} {t : Token}
    (h : next c (cs ++ rest) = .ok (t, rest)) (hy : Yields rest other) :
    next c (cs ++ other) = .ok (t, other) := by
  have hwritten : t.written.toList = c :: cs := by
    obtain ⟨more, hmore, hcs⟩ := exists_written_of_next h
    rw [List.append_cancel_right hcs, hmore]
  generalize htext : cs ++ rest = text at h
  cases next_iff.1 h with
  | raw _ hclose =>
    rw [written, String.toList_ofList] at hwritten
    obtain ⟨rfl, rfl⟩ : '\x22' = c ∧ '\x22' :: '\x22' :: (_ ++ Text.rawMarker) = cs := by
      simpa [Text.rawMarker] using hwritten
    exact next_raw (Text.closeRaw?_eq_some.1 hclose).2 other
  | quoted hraw hquote hclose =>
    subst htext
    have hc : c ≠ '\\' := Text.ne_backslash_of_quote hquote
    rw [written, String.toList_ofList] at hwritten
    obtain rfl : _ ++ [c] = cs := (List.cons.inj hwritten).2
    have hbody := ((Text.closeQuote?_eq_some hc).1 hclose).2
    rw [List.append_assoc, List.singleton_append] at hraw ⊢
    have hraw' : ¬ Text.rawMarker <+: c :: (_ ++ c :: other) := fun hp => hraw <| by
      rw [Text.rawMarker_prefix_quoted hbody] at hp ⊢
      exact ⟨hp.1, hp.2.1, hy.first _ hp.2.2⟩
    exact next_iff.2 (.quoted hraw' hquote ((Text.closeQuote?_eq_some hc).2 ⟨rfl, hbody⟩))
  | mark hm =>
    rw [written, String.toList_singleton] at hwritten
    obtain rfl : [] = cs := (List.cons.inj hwritten).2
    exact next_iff.2 (.mark hm)
  | number hrow =>
    subst htext
    rw [written, String.toList_ofList] at hwritten
    subst hwritten
    have hrow' : numeral? (c :: cs ++ other) = some (c :: cs, other) := numeral?_of_yields hrow hy
    exact next_iff.2 (.number hrow')
  | path hpath =>
    subst htext
    rw [written_ofPath, String.toList_ofList] at hwritten
    subst hwritten
    have hpath' : path? (c :: cs ++ other) = some (c :: cs, other) :=
      path?_of_yields (List.cons_ne_nil c cs) hpath hy
    exact next_iff.2 (.path hpath')

/-- No token starts with a point. -/
theorem next_point (cs : List Char) : next '.' cs = .error (.unexpected '.') := by
  have hpath : path? ('.' :: cs) = none := by rw [path?, if_neg (by decide)]
  rw [next_of_class (p := (· == '.')) (by decide) (by decide) (by decide) rfl,
    numeral?_eq_none (by decide), hpath]

end Token

end ObjectSpec
