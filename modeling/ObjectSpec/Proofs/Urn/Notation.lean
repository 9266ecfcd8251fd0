import Mathlib.Data.List.TakeWhile
import ObjectSpec.Work

/-!
# Identities and their texts

A text is an identity just if it has three parts with colons between them, of which only the
last may hold more colons (`parse_ok`). The letter case of the first two does not count, and
in lower case they are the one normal form of the identity, which is read as it again
(`parse_normalForm`).

An identity that is made of its parts is read off their text. So a colon in the namespace
ends it, and what is behind the colon counts for the specific part; but where that does not
happen, the parts are kept (`new_ok_iff`).
-/

namespace ObjectSpec.Urn

/-! ## Colons -/

theorem splitColon_append {front : List Char} (h : ':' ∉ front) (rest : List Char) :
    splitColon (front ++ ':' :: rest) = (front, rest) := by
  have hfront : ∀ c ∈ front, (c != ':') = true := by
    intro c hc
    rw [bne_iff_ne]
    rintro rfl
    exact h hc
  rw [splitColon, List.takeWhile_append_of_pos hfront, List.dropWhile_append_of_pos hfront]
  simp

/-- A text is split at its first colon, or it has none and nothing is left of it. -/
theorem splitColon_cases (text : List Char) :
    text = (splitColon text).1 ++ ':' :: (splitColon text).2 ∨ (splitColon text).2 = [] := by
  by_cases h : ':' ∈ text
  · obtain ⟨front, rest, rfl, hfront⟩ := List.eq_append_cons_of_mem h
    rw [splitColon_append hfront]
    exact .inl rfl
  · have hnone : text.dropWhile (· != ':') = [] := by
      rw [List.dropWhile_eq_nil_iff]
      intro c hc
      rw [bne_iff_ne]
      rintro rfl
      exact h hc
    rw [splitColon, hnone]
    exact .inr rfl

/-! ## The parts -/

/-- A lower case letter or a digit. -/
def IsNamespaceStart (c : Char) : Prop := ('a' ≤ c ∧ c ≤ 'z') ∨ ('0' ≤ c ∧ c ≤ '9')

/-- One to 32 lower case letters, digits and hyphens, the first no hyphen. -/
inductive IsNamespace : List Char → Prop
  | mk {c cs} : IsNamespaceStart c → cs.length ≤ 31 → (∀ d ∈ cs, IsNamespaceStart d ∨ d = '-') →
      IsNamespace (c :: cs)

/-- At least one character, and no blank one. -/
structure IsSpecific (text : List Char) : Prop where
  nonempty : text ≠ []
  noBlank : ∀ c ∈ text, Text.isBlank c = false

theorem isNamespaceStart_iff {c : Char} : isNamespaceStart c = true ↔ IsNamespaceStart c := by
  have hlower : c.isLower = (decide ('a'.val ≤ c.val) && decide (c.val ≤ 'z'.val)) := rfl
  have hdigit : c.isDigit = (decide ('0'.val ≤ c.val) && decide (c.val ≤ '9'.val)) := rfl
  rw [isNamespaceStart, IsNamespaceStart, Bool.or_eq_true, hlower, hdigit, Bool.and_eq_true,
    Bool.and_eq_true, decide_eq_true_iff, decide_eq_true_iff, decide_eq_true_iff,
    decide_eq_true_iff]
  rfl

theorem isNamespaceChar_iff {c : Char} :
    isNamespaceChar c = true ↔ IsNamespaceStart c ∨ c = '-' := by
  rw [isNamespaceChar, Bool.or_eq_true, isNamespaceStart_iff, beq_iff_eq]

theorem validNamespace_iff {name : List Char} : validNamespace name = true ↔ IsNamespace name := by
  constructor
  · intro h
    cases name with
    | nil => cases h
    | cons c cs =>
      simp only [validNamespace, List.head?_cons, Option.any_some, Bool.and_eq_true,
        decide_eq_true_eq, List.length_cons, List.all_cons, List.all_eq_true, isNamespaceStart_iff,
        isNamespaceChar_iff] at h
      obtain ⟨⟨hc, hlength⟩, -, hcs⟩ := h
      exact .mk hc (by omega) hcs
  · rintro ⟨hc, hlength, hcs⟩
    simp only [validNamespace, List.head?_cons, Option.any_some, Bool.and_eq_true,
        decide_eq_true_eq, List.length_cons, List.all_cons, List.all_eq_true, isNamespaceStart_iff,
        isNamespaceChar_iff]
    exact ⟨⟨hc, by omega⟩, .inl hc, hcs⟩

theorem validSpecific_iff {text : List Char} : validSpecific text = true ↔ IsSpecific text := by
  simp only [validSpecific, Bool.and_eq_true, Bool.not_eq_true', List.isEmpty_eq_false_iff,
    List.any_eq_false, Bool.not_eq_true]
  exact ⟨fun ⟨hne, hblank⟩ => ⟨hne, hblank⟩, fun h => ⟨h.nonempty, h.noBlank⟩⟩

theorem IsNamespace.no_colon {name : List Char} (h : IsNamespace (lower name)) : ':' ∉ name := by
  intro hmem
  have hlower : ':' ∈ lower name := List.mem_map_of_mem (f := Char.toLower) hmem
  rw [← validNamespace_iff, validNamespace, Bool.and_eq_true, List.all_eq_true] at h
  exact absurd (h.2 ':' hlower) (by decide)

/-! ## Reading -/

theorem not_isNamespace_nil : ¬ IsNamespace (lower []) := nofun

theorem no_colon_of_lower {scheme : List Char} (h : lower scheme = ['u', 'r', 'n']) :
    ':' ∉ scheme := by
  intro hmem
  have hlower : ':' ∈ lower scheme := List.mem_map_of_mem (f := Char.toLower) hmem
  rw [h] at hlower
  exact absurd hlower (by decide)

/-- The texts that are identities. -/
theorem parse_ok {text : String} {u : Urn} :
    parse text = .ok u ↔ ∃ scheme name specific : List Char,
      text.toList = scheme ++ ':' :: (name ++ ':' :: specific) ∧ lower scheme = ['u', 'r', 'n'] ∧
      IsNamespace (lower name) ∧ IsSpecific specific ∧
      u = ⟨String.ofList (lower name), String.ofList specific⟩ := by
  constructor
  · intro h
    rw [parse] at h
    dsimp only at h
    split at h
    · cases h
    next hscheme =>
    split at h
    · cases h
    next hname =>
    split at h
    · cases h
    next hspecific =>
    rw [Bool.not_eq_true', Bool.not_eq_false, validNamespace_iff] at hname
    rw [Bool.not_eq_true', Bool.not_eq_false, validSpecific_iff] at hspecific
    -- Without a colon, the part behind it would be empty, and neither part may be.
    rcases splitColon_cases text.toList with htext | hnil
    · rcases splitColon_cases (splitColon text.toList).2 with hrest | hnil
      · refine ⟨_, _, _, htext.trans ?_, Classical.not_not.1 hscheme, hname, hspecific, ?_⟩
        · rw [← hrest]
        · exact (Except.ok.inj h).symm
      · exact absurd hnil hspecific.nonempty
    · rw [hnil] at hname
      exact absurd hname not_isNamespace_nil
  · rintro ⟨scheme, name, specific, htext, hscheme, hname, hspecific, rfl⟩
    rw [parse, htext, splitColon_append (no_colon_of_lower hscheme)]
    dsimp only
    rw [splitColon_append hname.no_colon]
    dsimp only
    rw [if_neg (by simp [hscheme]), if_neg (by simp [validNamespace_iff.2 hname]),
      if_neg (by simp [validSpecific_iff.2 hspecific])]

/-- The text is an identity with this namespace and this specific part, as they are written. -/
def HasParts (text : String) (name specific : List Char) : Prop :=
  ∃ scheme, text.toList = scheme ++ ':' :: (name ++ ':' :: specific) ∧
    lower scheme = ['u', 'r', 'n'] ∧ IsNamespace (lower name) ∧ IsSpecific specific

theorem parse_ok_iff {text : String} {u : Urn} :
    parse text = .ok u ↔ ∃ name specific, HasParts text name specific ∧
      u = ⟨String.ofList (lower name), String.ofList specific⟩ := by
  rw [parse_ok]
  constructor
  · rintro ⟨scheme, name, specific, htext, hscheme, hname, hspecific, rfl⟩
    exact ⟨name, specific, ⟨scheme, htext, hscheme, hname, hspecific⟩, rfl⟩
  · rintro ⟨name, specific, ⟨scheme, htext, hscheme, hname, hspecific⟩, rfl⟩
    exact ⟨scheme, name, specific, htext, hscheme, hname, hspecific, rfl⟩

theorem HasParts.parse {text : String} {name specific : List Char}
    (h : HasParts text name specific) :
    parse text = .ok ⟨String.ofList (lower name), String.ofList specific⟩ :=
  parse_ok_iff.2 ⟨name, specific, h, rfl⟩

theorem toList_parts (namespaceName specific : String) :
    (s!"urn:{namespaceName}:{specific}").toList =
      ['u', 'r', 'n'] ++ ':' :: (namespaceName.toList ++ ':' :: specific.toList) := by
  show ("urn:" ++ namespaceName ++ ":" ++ specific).toList = _
  simp [String.toList_append]

/-! ## The normal form -/

theorem toLower_of_namespace {c : Char} (h : IsNamespaceStart c ∨ c = '-') : c.toLower = c := by
  have hupper : ¬ (c.val ≥ 'A'.val ∧ c.val ≤ 'Z'.val) := by
    rintro ⟨hA, hZ⟩
    have h65 : 65 ≤ c.val.toNat := hA
    have h90 : c.val.toNat ≤ 90 := hZ
    rcases h with (⟨hlow, -⟩ | ⟨-, hhigh⟩) | rfl
    · have h97 : 97 ≤ c.val.toNat := hlow
      omega
    · have h57 : c.val.toNat ≤ 57 := hhigh
      omega
    · exact absurd hA (by decide)
  exact dif_neg hupper

theorem IsNamespace.lower_eq {name : List Char} (h : IsNamespace name) : lower name = name := by
  obtain ⟨hc, -, hcs⟩ := h
  rw [lower, List.map_cons, toLower_of_namespace (.inl hc),
    List.map_congr_left fun d hd => toLower_of_namespace (hcs d hd), List.map_id']

/-- What an identity is written as is read as this identity. -/
theorem parse_text {source : String} {u : Urn} (h : parse source = .ok u) :
    parse u.text = .ok u := by
  obtain ⟨name, specific, ⟨-, -, -, hname, hspecific⟩, rfl⟩ := parse_ok_iff.1 h
  have hlower := hname.lower_eq
  have hparts : HasParts (text ⟨String.ofList (lower name), String.ofList specific⟩)
      (lower name) specific := by
    refine ⟨['u', 'r', 'n'], ?_, by decide, by rwa [hlower], hspecific⟩
    rw [text, toList_parts, String.toList_ofList, String.toList_ofList]
  rw [hparts.parse, hlower]

theorem ofJson?_toJson {u : Urn} (h : parse u.text = .ok u) : ofJson? u.toJson = some u := by
  show (parse u.text).toOption = some u
  rw [h]
  rfl

theorem eq_iff_of_parts {source other : String} {name specific name' specific' : List Char}
    {u v : Urn} (h : HasParts source name specific) (h' : HasParts other name' specific')
    (hu : parse source = .ok u) (hv : parse other = .ok v) :
    u = v ↔ lower name = lower name' ∧ specific = specific' := by
  obtain rfl := Except.ok.inj (hu.symm.trans h.parse)
  obtain rfl := Except.ok.inj (hv.symm.trans h'.parse)
  rw [Urn.mk.injEq, String.ofList_inj, String.ofList_inj]

/-- A text is an identity just if it has the parts of one. The identity has them, the namespace in
lower case, and is read again from its own text and from its JSON form. Two texts are one identity
just if their specific parts are the same and their namespaces in lower case are, which is also
when the identities are written alike. -/
theorem parse_normalForm (source : String) (u : Urn) :
    (parse source = .ok u ↔ ∃ name specific, HasParts source name specific ∧
      u = ⟨String.ofList (lower name), String.ofList specific⟩) ∧
    (parse source = .ok u → parse u.text = .ok u ∧ ofJson? u.toJson = some u ∧
      ∀ other v, parse other = .ok v → (u.text = v.text ↔ u = v) ∧
        ∀ name specific name' specific', HasParts source name specific →
          HasParts other name' specific' →
          (u = v ↔ lower name = lower name' ∧ specific = specific')) := by
  refine ⟨parse_ok_iff, fun hu => ?_⟩
  have htext := parse_text hu
  refine ⟨htext, ofJson?_toJson htext, fun other v hv => ⟨⟨fun heq => ?_, congrArg text⟩, ?_⟩⟩
  · rw [heq, parse_text hv] at htext
    exact (Except.ok.inj htext).symm
  · intro name specific name' specific' h h'
    exact eq_iff_of_parts h h' hu hv

/-- The specific part holds a colon and keeps its letter case. -/
theorem parse_normalForm_mixedCase :
    let u : Urn := ⟨"face-b", "A:b"⟩
    let v : Urn := ⟨"face-b", "a:b"⟩
    parse "uRn:Face-B:A:b" = .ok u ∧ parse "urn:FACE-b:a:b" = .ok v ∧
      parse u.text = .ok u ∧ ofJson? u.toJson = some u ∧ (u.text = v.text ↔ u = v) ∧
      (u = v ↔ lower "Face-B".toList = lower "FACE-b".toList ∧ "A:b".toList = "a:b".toList) := by
  intro u v
  have hu : parse "uRn:Face-B:A:b" = .ok u := by rfl
  have hv : parse "urn:FACE-b:a:b" = .ok v := by rfl
  have hfirst : HasParts "uRn:Face-B:A:b" "Face-B".toList "A:b".toList :=
    ⟨"uRn".toList, by decide, by decide, validNamespace_iff.1 (by decide),
      validSpecific_iff.1 (by decide)⟩
  have hsecond : HasParts "urn:FACE-b:a:b" "FACE-b".toList "a:b".toList :=
    ⟨"urn".toList, by decide, by decide, validNamespace_iff.1 (by decide),
      validSpecific_iff.1 (by decide)⟩
  obtain ⟨htext, hjson, hother⟩ := (parse_normalForm _ u).2 hu
  obtain ⟨hwritten, hparts⟩ := hother _ v hv
  exact ⟨hu, hv, htext, hjson, hwritten, hparts _ _ _ _ hfirst hsecond⟩

/-! ## Making an identity of its parts -/

/-- The identity is the one that the text behind `urn:` is read as. -/
theorem new_ok {namespaceName specific : String} {u : Urn} :
    new namespaceName specific = .ok u ↔ ∃ name rest : List Char,
      namespaceName.toList ++ ':' :: specific.toList = name ++ ':' :: rest ∧
      IsNamespace (lower name) ∧ IsSpecific rest ∧
      u = ⟨String.ofList (lower name), String.ofList rest⟩ := by
  rw [new, parse_ok, toList_parts]
  constructor
  · rintro ⟨scheme, name, rest, htext, hscheme, hvalid⟩
    have hlength : ['u', 'r', 'n'].length = scheme.length := by
      rw [← hscheme, lower, List.length_map]
    obtain ⟨-, htail⟩ := List.append_inj htext hlength
    exact ⟨name, rest, (List.cons.inj htail).2, hvalid⟩
  · rintro ⟨name, rest, htext, hvalid⟩
    exact ⟨['u', 'r', 'n'], name, rest, by rw [htext], by decide, hvalid⟩

/-- The namespace has a colon, and the text is an identity with what stands in front of it as the
namespace. -/
def EndsEarly (namespaceName specific : List Char) : Prop :=
  ∃ front behind, namespaceName = front ++ ':' :: behind ∧ IsNamespace (lower front) ∧
    IsSpecific (behind ++ ':' :: specific)

theorem not_endsEarly {namespaceName : List Char} (h : ':' ∉ namespaceName)
    (specific : List Char) : ¬ EndsEarly namespaceName specific := by
  rintro ⟨front, behind, rfl, -⟩
  simp at h

/-- Parts are joined in one way only, unless the namespace ends early. -/
theorem new_ok_cases {namespaceName specific : String} {u : Urn} :
    new namespaceName specific = .ok u ↔
      (IsNamespace (lower namespaceName.toList) ∧ IsSpecific specific.toList ∧
        u = ⟨String.ofList (lower namespaceName.toList), specific⟩) ∨
      ∃ front behind, namespaceName.toList = front ++ ':' :: behind ∧ IsNamespace (lower front) ∧
        IsSpecific (behind ++ ':' :: specific.toList) ∧
        u = ⟨String.ofList (lower front), String.ofList (behind ++ ':' :: specific.toList)⟩ := by
  rw [new_ok]
  constructor
  · rintro ⟨name, rest, htext, hname, hrest, rfl⟩
    have hsplit := splitColon_append hname.no_colon rest
    rw [← htext] at hsplit
    by_cases hcolon : ':' ∈ namespaceName.toList
    · obtain ⟨front, behind, hns, hfront⟩ := List.eq_append_cons_of_mem hcolon
      rw [hns, List.append_assoc, List.cons_append, splitColon_append hfront] at hsplit
      obtain ⟨rfl, rfl⟩ := Prod.mk.inj hsplit
      exact .inr ⟨front, behind, hns, hname, hrest, rfl⟩
    · rw [splitColon_append hcolon] at hsplit
      obtain ⟨rfl, rfl⟩ := Prod.mk.inj hsplit
      exact .inl ⟨hname, hrest, by rw [String.ofList_toList]⟩
  · rintro (⟨hname, hspecific, rfl⟩ | ⟨front, behind, htext, hfront, hbehind, rfl⟩)
    · exact ⟨_, _, rfl, hname, hspecific, by rw [String.ofList_toList]⟩
    · refine ⟨front, _, ?_, hfront, hbehind, rfl⟩
      rw [htext, List.append_assoc, List.cons_append]

/-- The identity with the given parts exists just if both are valid, and it has them, the namespace
in lower case; unless the namespace ends early. -/
theorem new_ok_iff (namespaceName specific : String)
    (h : ¬ EndsEarly namespaceName.toList specific.toList) :
    ((∃ u, new namespaceName specific = .ok u) ↔
      IsNamespace (lower namespaceName.toList) ∧ IsSpecific specific.toList) ∧
    ∀ u, new namespaceName specific = .ok u →
      u.namespaceName = String.ofList (lower namespaceName.toList) ∧ u.specific = specific := by
  have hnew : ∀ u, new namespaceName specific = .ok u ↔
      IsNamespace (lower namespaceName.toList) ∧ IsSpecific specific.toList ∧
        u = ⟨String.ofList (lower namespaceName.toList), specific⟩ := by
    intro u
    rw [new_ok_cases]
    refine or_iff_left ?_
    rintro ⟨front, behind, htext, hfront, hbehind, -⟩
    exact h ⟨front, behind, htext, hfront, hbehind⟩
  refine ⟨⟨?_, ?_⟩, fun u hu => ?_⟩
  · rintro ⟨u, hu⟩
    obtain ⟨hname, hspecific, -⟩ := (hnew u).1 hu
    exact ⟨hname, hspecific⟩
  · rintro ⟨hname, hspecific⟩
    exact ⟨_, (hnew _).2 ⟨hname, hspecific, rfl⟩⟩
  · obtain ⟨-, -, rfl⟩ := (hnew u).1 hu
    exact ⟨rfl, rfl⟩

theorem new_ok_iff_facebook :
    ¬ EndsEarly "Facebook".toList "1:a".toList ∧
    ((∃ u, new "Facebook" "1:a" = .ok u) ↔
      IsNamespace (lower "Facebook".toList) ∧ IsSpecific "1:a".toList) ∧
    ∀ u, new "Facebook" "1:a" = .ok u →
      u.namespaceName = String.ofList (lower "Facebook".toList) ∧ u.specific = "1:a" := by
  have h : ¬ EndsEarly "Facebook".toList "1:a".toList := not_endsEarly (by decide) _
  exact ⟨h, new_ok_iff _ _ h⟩

/-- A namespace that ends early is none, and neither of the parts is kept. -/
theorem new_of_endsEarly {namespaceName specific : String}
    (h : EndsEarly namespaceName.toList specific.toList) :
    ¬ IsNamespace (lower namespaceName.toList) ∧ ∃ u, new namespaceName specific = .ok u ∧
      u.namespaceName ≠ String.ofList (lower namespaceName.toList) ∧ u.specific ≠ specific := by
  obtain ⟨front, behind, htext, hfront, hbehind⟩ := h
  refine ⟨fun hname => hname.no_colon (by simp [htext]), _,
    new_ok_cases.2 (.inr ⟨front, behind, htext, hfront, hbehind, rfl⟩), fun hname => ?_,
    fun hspecific => ?_⟩
  · have hlength := congrArg List.length (String.ofList_injective hname)
    rw [htext, lower, lower, List.length_map, List.length_map, List.length_append,
      List.length_cons] at hlength
    omega
  · have hlength := congrArg (fun s => s.toList.length) hspecific
    simp only [String.toList_ofList, List.length_append, List.length_cons] at hlength
    omega

/-- The colon is taken for the end of the namespace. -/
theorem new_colonInNamespace :
    new "a:b" "1" = .ok ⟨"a", "b:1"⟩ ∧ ¬ IsNamespace (lower "a:b".toList) ∧
      "a" ≠ String.ofList (lower "a:b".toList) ∧ "b:1" ≠ "1" := by
  refine ⟨by rfl, ?_, by decide, by decide⟩
  rw [← validNamespace_iff]
  decide

end ObjectSpec.Urn
