/-!
# Quoted text

A quoted text stands between two equal quotes. A backslash before the quote or
before a backslash stands for that character; any other backslash is kept.
Writing uses double quotes. Raw text stands between triple quotes and knows no
backslash.
-/

namespace ObjectSpec.Text

/-- The text that the characters between two quotes `q` stand for. -/
def unescape (q : Char) : List Char → List Char
  | [] => []
  | [c] => [c]
  | c :: d :: cs =>
    if c = '\\' then
      if d = q ∨ d = '\\' then d :: unescape q cs else c :: d :: unescape q cs
    else
      c :: unescape q (d :: cs)

/-- A double quote and a backslash get a backslash in front. -/
def escape : List Char → List Char
  | [] => []
  | c :: cs => if c = '\x22' ∨ c = '\\' then '\\' :: c :: escape cs else c :: escape cs

/-- The text between double quotes. -/
def quote (text : String) : String := String.ofList ('\x22' :: escape text.toList ++ ['\x22'])

/-- The characters up to the first quote `q` outside a backslash pair, and those after it. -/
def closeQuote? (q : Char) : List Char → Option (List Char × List Char)
  | [] => none
  | [c] => if c = q then some ([], []) else none
  | c :: d :: cs =>
    if c = '\\' then
      (closeQuote? q cs).map fun (body, rest) => (c :: d :: body, rest)
    else if c = q then
      some ([], d :: cs)
    else
      (closeQuote? q (d :: cs)).map fun (body, rest) => (c :: body, rest)

/-- Three double quotes. -/
def rawMarker : List Char := ['\x22', '\x22', '\x22']

/-- The characters up to the first raw marker, and those after it. -/
def closeRaw? : List Char → Option (List Char × List Char)
  | [] => none
  | c :: cs =>
    if rawMarker.isPrefixOf (c :: cs) then
      some ([], cs.drop 2)
    else
      (closeRaw? cs).map fun (content, rest) => (c :: content, rest)

theorem drop_of_rawMarker {c : Char} {cs body : List Char} (h : rawMarker ++ body = c :: cs) :
    cs.drop 2 = body := by
  obtain rfl : '\x22' :: '\x22' :: body = cs := (List.cons.inj h).2
  rfl

theorem unescape_cons {q c : Char} (hc : c ≠ '\\') (cs : List Char) :
    unescape q (c :: cs) = c :: unescape q cs := by
  cases cs <;> simp [unescape, hc]

theorem unescape_escape (cs : List Char) : unescape '\x22' (escape cs) = cs := by
  induction cs with
  | nil => rfl
  | cons c cs ih =>
    by_cases h : c = '\x22' ∨ c = '\\'
    · simp [escape, unescape, h, ih]
    · rw [escape, if_neg h, unescape_cons fun e => h (.inr e), ih]

/-- A quoted text and what follows it are all of the text. -/
theorem eq_of_closeQuote? {q : Char} {cs body rest : List Char}
    (h : closeQuote? q cs = some (body, rest)) : cs = body ++ q :: rest := by
  fun_induction closeQuote? q cs generalizing body rest with
  | case1 => simp at h
  | case2 => simp_all
  | case3 => simp at h
  | case4 d cs ih =>
    obtain ⟨⟨b, r⟩, hb, he⟩ := Option.map_eq_some_iff.1 h
    simp only [Prod.mk.injEq] at he
    obtain ⟨rfl, rfl⟩ := he
    simp [ih hb]
  | case5 => simp_all
  | case6 c d cs _ _ ih =>
    obtain ⟨⟨b, r⟩, hb, he⟩ := Option.map_eq_some_iff.1 h
    simp only [Prod.mk.injEq] at he
    obtain ⟨rfl, rfl⟩ := he
    simp [ih hb]

/-- A raw text, its closing marker and what follows are all of the text. -/
theorem eq_of_closeRaw? {cs content rest : List Char}
    (h : closeRaw? cs = some (content, rest)) : cs = content ++ rawMarker ++ rest := by
  fun_induction closeRaw? cs generalizing content rest with
  | case1 => simp at h
  | case2 c cs hp =>
    obtain ⟨t, ht⟩ := List.isPrefixOf_iff_prefix.1 hp
    simp only [Option.some.injEq, Prod.mk.injEq] at h
    obtain ⟨rfl, rfl⟩ := h
    rw [List.nil_append, ← ht]
    simp only [rawMarker, List.cons_append, List.nil_append, List.cons.injEq] at ht ⊢
    obtain ⟨rfl, rfl⟩ := ht
    simp
  | case3 c cs _ ih =>
    obtain ⟨⟨b, r⟩, hb, he⟩ := Option.map_eq_some_iff.1 h
    simp only [Prod.mk.injEq] at he
    obtain ⟨rfl, rfl⟩ := he
    simp [ih hb]

end ObjectSpec.Text
