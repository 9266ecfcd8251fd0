import ObjectSpec.Proofs.Token.Quotation

/-!
# Numerals and paths as tokens

Both are as long as they can be: a row of characters of one class ends where the
class does, and no mark or blank belongs to a class. So a numeral or a path is read whole
in front of one (`stable_number`, `stable_name`), and what is read as a path consists
of identifiers with dots between them (`path?_isPath`).
-/

namespace ObjectSpec

namespace Token

/-! ## Characters that are no blanks -/

/-- The character of a visible sign in the lowest block is no blank. -/
theorem isBlank_of_ascii {c : Char} (h : 0x20 < c.toNat ∧ c.toNat < 0x80) :
    Text.isBlank c = false := by
  simp only [Text.isBlank, Bool.or_eq_false_iff, Bool.and_eq_false_iff, decide_eq_false_iff_not,
    beq_eq_false_iff_ne]
  omega

theorem isBlank_of_isDigit {c : Char} (h : c.isDigit = true) : Text.isBlank c = false := by
  apply isBlank_of_ascii
  have h0 : '0'.toNat = 48 := rfl
  have h9 : '9'.toNat = 57 := rfl
  rw [Char.isDigit_iff_toNat] at h
  omega

/-! ## Numerals -/

/-- A point and at least one digit, or nothing. -/
inductive IsFraction : List Char → Prop
  | none : IsFraction []
  | some {c row} : (∀ d ∈ c :: row, d.isDigit = true) → IsFraction ('.' :: c :: row)

/-- A row of characters that is one numeral. -/
inductive IsNumeral : List Char → Prop
  | mk {sign whole fraction suffix} : sign = [] ∨ sign = ['-'] → whole ≠ [] →
      (∀ c ∈ whole, c.isDigit = true) → IsFraction fraction → suffix = [] ∨ suffix = ['L'] →
      IsNumeral (sign ++ whole ++ fraction ++ suffix)

theorem splitFraction_append {fraction rest : List Char} (h : IsFraction fraction)
    (hdot : Stops (· == '.') rest) (hdigit : Stops Char.isDigit rest) :
    splitFraction (fraction ++ rest) = (fraction, rest) := by
  cases h with
  | none =>
    rw [List.nil_append, splitFraction, splitOne_stops hdot]
    rfl
  | some hrow =>
    rw [splitFraction, List.cons_append, splitOne_cons]
    simp only [splitWhile_append hrow hdigit]
    rfl

theorem numeral?_append {row rest : List Char} (h : IsNumeral row) (hr : Ends rest) :
    numeral? (row ++ rest) = some (row, rest) := by
  cases h with
  | @mk sign whole fraction suffix hsign hne hwhole hfraction hsuffix =>
    -- Behind the fraction stands the suffix or what follows, and there no class goes on.
    have hstops : ∀ {p : Char → Bool}, p 'L' = false → Stops p rest →
        Stops p (suffix ++ rest) := by
      intro p hp hstop
      rcases hsuffix with rfl | rfl
      · exact hstop
      · intro c hc
        cases hc
        exact hp
    have hdigit : Stops Char.isDigit (suffix ++ rest) :=
      hstops (by decide) (hr.stops (by decide) fun _ => isBlank_of_isDigit)
    have hdigits : Stops Char.isDigit (fraction ++ (suffix ++ rest)) := by
      cases hfraction with
      | none => exact hdigit
      | some =>
        intro c hc
        cases hc
        decide
    -- The four pieces are split off one after the other.
    have h1 : splitOne '-' (sign ++ (whole ++ (fraction ++ (suffix ++ rest)))) =
        (sign, whole ++ (fraction ++ (suffix ++ rest))) := by
      rcases hsign with rfl | rfl
      · refine splitOne_stops ?_
        cases whole with
        | nil => exact absurd rfl hne
        | cons d ds =>
          intro c hc
          cases hc
          have hd := hwhole d List.mem_cons_self
          simp only [beq_eq_false_iff_ne]
          rintro rfl
          exact absurd hd (by decide)
      · exact splitOne_cons _ _
    have h2 := splitWhile_append hwhole hdigits
    have h3 := splitFraction_append hfraction
      (hstops (by decide) (hr.stops_char (by decide) (by decide))) hdigit
    have h4 : splitOne 'L' (suffix ++ rest) = (suffix, rest) := by
      rcases hsuffix with rfl | rfl
      · exact splitOne_stops (hr.stops_char (by decide) (by decide))
      · exact splitOne_cons _ _
    simp only [List.append_assoc, numeral?, h1, h2, h3, h4]
    rw [if_neg (by simpa using hne)]

theorem isBlank_of_isNumeralStart {c : Char} (h : isNumeralStart c = true) :
    Text.isBlank c = false := by
  simp only [isNumeralStart, Bool.or_eq_true, beq_iff_eq] at h
  rcases h with h | rfl
  · exact isBlank_of_isDigit h
  · decide

theorem IsNumeral.head {row : List Char} (h : IsNumeral row) :
    ∃ c cs, row = c :: cs ∧ isNumeralStart c = true := by
  cases h with
  | @mk sign whole fraction suffix hsign hne hwhole hfraction hsuffix =>
    rcases hsign with rfl | rfl
    · cases whole with
      | nil => exact absurd rfl hne
      | cons d ds =>
        refine ⟨d, ds ++ fraction ++ suffix, rfl, ?_⟩
        rw [isNumeralStart, hwhole d List.mem_cons_self, Bool.true_or]
    · exact ⟨'-', whole ++ fraction ++ suffix, rfl, by decide⟩

theorem stable_number {numeral : String} (h : IsNumeral numeral.toList) :
    (Token.number numeral).Stable := by
  obtain ⟨c, cs, hcs, hc⟩ := h.head
  refine ⟨c, cs, hcs, isBlank_of_isNumeralStart hc, fun rest hr => ?_⟩
  have hrow := numeral?_append h hr
  rw [hcs, List.cons_append] at hrow
  have hscans := Scans.number hrow
  rw [← hcs, String.ofList_toList] at hscans
  exact next_iff.2 hscans

/-! ## Paths -/

/-- One segment of a path. -/
def IsIdentifier (segment : List Char) : Prop :=
  ∃ c cs, segment = c :: cs ∧ isNameStart c = true ∧ ∀ d ∈ cs, isNameChar d = true

/-- Identifiers with dots between them. -/
def IsPath (path : List Char) : Prop :=
  ∃ segments, segments ≠ [] ∧ (∀ s ∈ segments, IsIdentifier s) ∧
    path = ['.'].intercalate segments

/-- A path that is not one of the booleans. -/
structure IsTypeName (name : String) : Prop where
  path : IsPath name.toList
  ne_boolean : ∀ b, name ≠ booleanText b

theorem intercalate_cons {α : Type} (separator first : List α) (more : List (List α)) :
    separator.intercalate (first :: more) = first ++ more.flatMap (separator ++ ·) := by
  induction more generalizing first with
  | nil => simp
  | cons second more ih =>
    rw [List.intercalate_cons_cons, ih, List.flatMap_cons]
    simp only [List.append_assoc]

theorem isNameChar_of_isNameStart {c : Char} (h : isNameStart c = true) :
    isNameChar c = true := by
  simp only [isNameStart, isNameChar, Char.isAlphanum, Bool.or_eq_true] at h ⊢
  rcases h with (h | h) | h
  · exact .inl (.inl (.inl h))
  · exact .inl (.inr h)
  · exact .inr h

theorem isBlank_of_isNameStart {c : Char} (h : isNameStart c = true) :
    Text.isBlank c = false := by
  apply isBlank_of_ascii
  rcases isNameStart_cases h with h | h | rfl | rfl
  · omega
  · omega
  · decide
  · decide

theorem pathTail_char {c : Char} (hc : isNameChar c = true) (cs : List Char) :
    pathTail (c :: cs) = (c :: (pathTail cs).1, (pathTail cs).2) := by
  cases cs <;> simp [pathTail, hc]

theorem pathTail_dot {d : Char} (hd : isNameStart d = true) (cs : List Char) :
    pathTail ('.' :: d :: cs) = ('.' :: (pathTail (d :: cs)).1, (pathTail (d :: cs)).2) := by
  rw [pathTail, if_pos (by simp [hd])]

theorem isBlank_of_isNameChar {c : Char} (h : isNameChar c = true) : Text.isBlank c = false := by
  by_cases hd : c.isDigit = true
  · exact isBlank_of_isDigit hd
  · apply isBlank_of_isNameStart
    simpa [isNameChar, isNameStart, Char.isAlphanum, hd] using h

theorem pathTail_ends {rest : List Char} (h : Ends rest) : pathTail rest = ([], rest) := by
  have hchar : Stops isNameChar rest := h.stops (by decide) fun _ => isBlank_of_isNameChar
  have hdot : Stops (· == '.') rest := h.stops_char (by decide) (by decide)
  match rest with
  | [] => rfl
  | [c] => simp [pathTail, hchar c rfl]
  | c :: d :: cs =>
    have hc : (c == '.') = false := hdot c rfl
    rw [pathTail, if_neg (by simp [hchar c rfl, hc])]

/-- The rest of a path, from the middle of a segment on. -/
theorem pathTail_segments {cs : List Char} {more : List (List Char)} {rest : List Char}
    (hcs : ∀ c ∈ cs, isNameChar c = true) (hmore : ∀ s ∈ more, IsIdentifier s)
    (hr : Ends rest) :
    pathTail (cs ++ more.flatMap (['.'] ++ ·) ++ rest) =
      (cs ++ more.flatMap (['.'] ++ ·), rest) := by
  -- Over the segments to come, and for each over the characters before it.
  induction more generalizing cs with
  | nil =>
    induction cs with
    | nil => exact pathTail_ends hr
    | cons c cs ih =>
      have := ih fun d hd => hcs d (List.mem_cons_of_mem c hd)
      rw [List.cons_append, List.cons_append, pathTail_char (hcs c List.mem_cons_self), this]
  | cons s more ih =>
    obtain ⟨d, ds, rfl, hd, hds⟩ := hmore _ List.mem_cons_self
    have hchars : ∀ c ∈ d :: ds, isNameChar c = true := by
      intro c hc
      rcases List.mem_cons.1 hc with rfl | hc
      · exact isNameChar_of_isNameStart hd
      · exact hds c hc
    have hrest := ih hchars fun s hs => hmore s (List.mem_cons_of_mem _ hs)
    induction cs with
    | nil =>
      rw [List.nil_append, List.flatMap_cons, List.append_assoc, List.append_assoc,
        List.singleton_append, List.cons_append, pathTail_dot hd, ← List.cons_append,
        ← List.append_assoc, hrest]
      rfl
    | cons c cs ih =>
      have := ih fun d hd => hcs d (List.mem_cons_of_mem c hd)
      rw [List.cons_append, List.cons_append, pathTail_char (hcs c List.mem_cons_self), this]

theorem path?_append {path rest : List Char} (h : IsPath path) (hr : Ends rest) :
    path? (path ++ rest) = some (path, rest) := by
  obtain ⟨segments, hne, hs, rfl⟩ := h
  cases segments with
  | nil => exact absurd rfl hne
  | cons s more =>
    obtain ⟨c, cs, rfl, hc, hcs⟩ := hs _ List.mem_cons_self
    have htail := pathTail_segments hcs (fun s hs' => hs s (List.mem_cons_of_mem _ hs')) hr
    rw [intercalate_cons, List.cons_append, List.cons_append, path?, if_pos hc, htail]

theorem IsPath.head {path : List Char} (h : IsPath path) :
    ∃ c cs, path = c :: cs ∧ isNameStart c = true := by
  obtain ⟨segments, hne, hs, rfl⟩ := h
  cases segments with
  | nil => exact absurd rfl hne
  | cons s more =>
    obtain ⟨c, cs, rfl, hc, -⟩ := hs _ List.mem_cons_self
    exact ⟨c, _, by rw [intercalate_cons, List.cons_append], hc⟩

theorem IsPath.mem {path : List Char} (h : IsPath path) {c : Char} (hc : c ∈ path) :
    isNameChar c = true ∨ c = '.' := by
  obtain ⟨segments, -, hs, rfl⟩ := h
  have hidentifier : ∀ s ∈ segments, c ∈ s → isNameChar c = true := by
    intro s hmem hcs
    obtain ⟨d, ds, rfl, hd, hds⟩ := hs s hmem
    rcases List.mem_cons.1 hcs with rfl | hcs
    · exact isNameChar_of_isNameStart hd
    · exact hds c hcs
  cases segments with
  | nil => cases hc
  | cons s more =>
    rw [intercalate_cons, List.mem_append, List.mem_flatMap] at hc
    rcases hc with hc | ⟨u, hu, hc⟩
    · exact .inl (hidentifier s List.mem_cons_self hc)
    · rcases List.mem_cons.1 hc with rfl | hc
      · exact .inr rfl
      · exact .inl (hidentifier u (List.mem_cons_of_mem s hu) hc)

theorem IsTypeName.isBlank {name : String} (h : IsTypeName name) {c : Char}
    (hc : c ∈ name.toList) : Text.isBlank c = false := by
  rcases h.path.mem hc with hc | rfl
  · exact isBlank_of_isNameChar hc
  · decide

theorem stable_ofPath {path : List Char} (h : IsPath path) : (ofPath path).Stable := by
  obtain ⟨c, cs, rfl, hc⟩ := h.head
  refine ⟨c, cs, ?_, isBlank_of_isNameStart hc, fun rest hr => ?_⟩
  · rw [written_ofPath, String.toList_ofList]
  · exact next_iff.2 (.path (path?_append h hr))

theorem stable_name {name : String} (h : IsTypeName name) : (Token.name name).Stable := by
  have hof : ofPath name.toList = .name name := by
    rw [ofPath]
    simp only [String.ofList_toList]
    rw [if_neg (h.ne_boolean true), if_neg (h.ne_boolean false)]
  rw [← hof]
  exact stable_ofPath h.path

theorem stable_boolean (b : Bool) : (Token.boolean b).Stable := by
  have hpath : ∀ (c : Char) (cs : List Char), isNameStart c = true → cs.all isNameChar = true →
      IsPath (c :: cs) := fun c cs hc hcs =>
    ⟨[c :: cs], by simp, by simpa using ⟨c, cs, rfl, hc, List.all_eq_true.1 hcs⟩, by simp⟩
  cases b with
  | true =>
    have hof : ofPath ['T', 'R', 'U', 'E'] = .boolean true := by decide +kernel
    rw [← hof]
    exact stable_ofPath (hpath 'T' ['R', 'U', 'E'] (by decide) (by decide))
  | false =>
    have hof : ofPath ['F', 'A', 'L', 'S', 'E'] = .boolean false := by decide +kernel
    rw [← hof]
    exact stable_ofPath (hpath 'F' ['A', 'L', 'S', 'E'] (by decide) (by decide))

/-! ## What is read is well formed -/

theorem pathTail_isPath (text : List Char) :
    ∃ (cs : List Char) (more : List (List Char)), (pathTail text).1 = cs ++ more.flatMap (['.'] ++ ·) ∧
      (∀ c ∈ cs, isNameChar c = true) ∧ ∀ s ∈ more, IsIdentifier s := by
  fun_induction pathTail text with
  | case1 => exact ⟨[], [], rfl, by simp, by simp⟩
  | case2 c hc => exact ⟨[c], [], rfl, by simpa using hc, by simp⟩
  | case3 => exact ⟨[], [], rfl, by simp, by simp⟩
  | case4 c d cs h more rest hp ih =>
    obtain ⟨row, segments, heq, hrow, hsegments⟩ := ih
    rw [hp] at heq
    by_cases hc : isNameChar c = true
    · refine ⟨c :: row, segments, congrArg (c :: ·) heq, ?_, hsegments⟩
      intro x hx
      rcases List.mem_cons.1 hx with rfl | hx
      · exact hc
      · exact hrow x hx
    · obtain ⟨rfl, hd⟩ : c = '.' ∧ isNameStart d = true := by simpa [hc] using h
      -- The segment after the dot is what the row at hand starts with.
      have hmore : more = d :: (pathTail cs).1 := by
        rw [pathTail_char (isNameChar_of_isNameStart hd)] at hp
        exact (congrArg Prod.fst hp).symm
      refine ⟨[], row :: segments, congrArg ('.' :: ·) heq, by simp, ?_⟩
      intro s hs
      rcases List.mem_cons.1 hs with rfl | hs
      · cases s with
        | nil =>
          rw [hmore, List.nil_append] at heq
          cases segments with
          | nil => cases heq
          | cons u us =>
            rw [List.flatMap_cons, List.append_assoc] at heq
            rw [(List.cons.inj heq).1] at hd
            exact absurd hd (by decide)
        | cons x xs =>
          rw [hmore, List.cons_append] at heq
          have hx := (List.cons.inj heq).1
          exact ⟨x, xs, rfl, hx ▸ hd, fun y hy => hrow y (List.mem_cons_of_mem x hy)⟩
      · exact hsegments s hs
  | case5 => exact ⟨[], [], rfl, by simp, by simp⟩

theorem path?_isPath {text path rest : List Char} (h : path? text = some (path, rest)) :
    IsPath path := by
  cases text with
  | nil => cases h
  | cons c cs =>
    rw [path?] at h
    split at h
    · next hc =>
      cases h
      obtain ⟨row, more, heq, hrow, hmore⟩ := pathTail_isPath cs
      refine ⟨(c :: row) :: more, by simp, ?_, ?_⟩
      · intro s hs
        rcases List.mem_cons.1 hs with rfl | hs
        · exact ⟨c, row, rfl, hc, hrow⟩
        · exact hmore s hs
      · rw [intercalate_cons, heq, List.cons_append]
    · cases h

/-- A name is a type name, and a raw text one that is read back. -/
def WellFormed : Token → Prop
  | .name path => IsTypeName path
  | .raw text content => IsRaw text content
  | _ => True

theorem wellFormed_ofPath {path : List Char} (h : IsPath path) : (ofPath path).WellFormed := by
  rw [ofPath]
  split
  · trivial
  · next htrue =>
    split
    · trivial
    · next hfalse =>
      refine ⟨?_, fun b => ?_⟩
      · rw [String.toList_ofList]
        exact h
      · cases b with
        | true => exact htrue
        | false => exact hfalse

theorem wellFormed_of_next {c : Char} {cs rest : List Char} {t : Token}
    (h : next c cs = .ok (t, rest)) : t.WellFormed := by
  cases next_iff.1 h with
  | raw _ hclose =>
    refine ⟨?_, ?_⟩
    · rw [String.toList_ofList]
    · rw [String.toList_ofList]
      exact (Text.closeRaw?_eq_some.1 hclose).2
  | quoted => trivial
  | mark => trivial
  | number => trivial
  | path hpath => exact wellFormed_ofPath (path?_isPath hpath)

end Token

theorem Splits.wellFormed {text : List Char} {ts : List Token} (h : Splits text ts) :
    ∀ t ∈ ts, t.WellFormed := by
  induction h with
  | done => simp
  | token hb hn _ ih =>
    intro t ht
    rcases List.mem_cons.1 ht with rfl | ht
    · exact Token.wellFormed_of_next hn
    · exact ih t ht

end ObjectSpec
