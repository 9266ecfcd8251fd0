import ObjectSpec.Proofs.Token.Spacing
import ObjectSpec.Proofs.Tree.RoundTrip

/-!
# Texts put together

The text of a spec has the same tokens in front of whatever may follow a token
(`Splits.spells`). So texts that are read as trees may be written between commas, as arguments,
items or values of keys, and the trees are then the parts of a construct, an array or a map
(`Tree.parse_composed`). Only a raw text that was all of its text loses the blanks around it.
-/

namespace ObjectSpec

open Text (allBlank)

/-! ## A text in front of another -/

/-- A text has its tokens in front of whatever may follow a token. -/
theorem Splits.spells {text : List Char} {ts : List Token} (h : Splits text ts) :
    Spells text ts := by
  intro other more hother hmore
  induction h with
  | done hb => exact hmore.gap (Text.skipBlank_eq_nil_iff.1 hb)
  | @token text c cs t rest ts hb hn hrest ih =>
    obtain ⟨gap, rfl, hgap, hc⟩ := Text.exists_gap hb
    obtain ⟨ds, -, rfl⟩ := Token.exists_written_of_next hn
    have hroom : Ends (rest ++ other) ∨ (rest ++ other).head? = rest.head? := by
      cases rest with
      | nil => exact .inl hother
      | cons d rest => exact .inr rfl
    have hnext := Token.next_in_front hn hrest hroom
    rw [List.append_assoc, List.cons_append, List.append_assoc]
    exact (ih.next hc hnext).gap hgap

/-! ## A raw text and the blanks around it -/

namespace Text

/-- The text without the blanks at its ends. -/
def trim (text : List Char) : List Char := (skipBlank (skipBlank text).reverse).reverse

theorem trim_gaps {front behind : List Char} (inner : List Char) {c d : Char} (hfront : allBlank front = true)
    (hbehind : allBlank behind = true) (hc : isBlank c = false) (hd : isBlank d = false) :
    trim (front ++ (c :: (inner ++ d :: behind))) = c :: (inner ++ [d]) := by
  have hreverse : (c :: (inner ++ d :: behind)).reverse =
      behind.reverse ++ d :: (c :: inner).reverse := by simp
  have hbehind' : allBlank behind.reverse = true := by rwa [allBlank, List.all_reverse]
  rw [trim, (skipBlank_gap hfront hc).2, hreverse, (skipBlank_gap hbehind' hd).2]
  simp

end Text

namespace Tree

/-- A raw text without the blanks around it. Any other tree is kept. -/
def alone : Tree → Tree
  | .raw written content span => .raw (String.ofList (Text.trim written.toList)) content span
  | t => t

theorem depth_alone (t : Tree) : t.alone.depth = t.depth := by cases t <;> rfl

/-- If a raw text is all that a text holds, it is the text but for blanks. -/
theorem trim_of_splits {text : List Char} {written content : String}
    (h : Splits text [.raw written content]) :
    Text.trim text = written.toList := by
  have hraw : Token.IsRaw written content := h.wellFormed _ List.mem_cons_self
  cases h with
  | token hb hn hrest =>
    obtain ⟨gap, rfl, hgap, -⟩ := Text.exists_gap hb
    cases hrest with
    | done hrest =>
    rw [(Token.written_of_next hn).1, Token.written, hraw.written_eq, String.toList_ofList]
    have htrim := Text.trim_gaps ('\x22' :: '\x22' :: (content.toList ++ ['\x22', '\x22']))
      (c := '\x22') (d := '\x22') hgap (Text.skipBlank_eq_nil_iff.1 hrest) (by decide) (by decide)
    simpa [Text.rawMarker] using htrim

/-- The tokens of a text that is read as a tree derive the tree wherever they stand, and a raw text
without the blanks around it. -/
theorem derives_alone {source : String} {t : Tree} (h : ∃ limit, parse limit source = .ok t) :
    ∃ ts, Spells source.toList ts ∧ ∀ ps : List Placed, ps.map Placed.token = ts →
      ∃ u, Derives ps u ∧ u.shape = t.alone.shape := by
  obtain ⟨limit, h⟩ := h
  obtain ⟨qs, hqs, hd, -⟩ := parse_ok.1 h
  have hsplits := splits_iff.2 ⟨qs, hqs, rfl⟩
  refine ⟨_, hsplits.spells, fun ps hps => ?_⟩
  rcases hd.raw_or with ⟨written, content, span, rfl, rfl⟩ | ⟨hne, hderives⟩
  · obtain ⟨s, rfl⟩ := Placed.singleton_of_tokens hps
    refine ⟨_, .raw, ?_⟩
    rw [alone, trim_of_splits hsplits, String.ofList_toList]
    rfl
  · have halone : t.alone = t := by
      cases hderives with
      | @raw written content s => exact absurd rfl (hne written content s)
      | _ => rfl
    rw [halone]
    exact hderives.of_tokens hps

/-! ## Texts between commas -/

/-- A text that has the tokens of a tree is read as that tree, but for the spans. -/
theorem parse_of_spells {limit : Nat} {text : String} {ts : List Token} {t : Tree}
    (hspells : Spells text.toList ts) (hne : ∀ written content, ts ≠ [.raw written content])
    (hderives : ∀ ps : List Placed, ps.map Placed.token = ts → ∃ u, Derives ps u ∧ u.shape = t.shape)
    (hdepth : t.depth ≤ limit) : ∃ u, parse limit text = .ok u ∧ u.shape = t.shape := by
  obtain ⟨ps, hps, rfl⟩ := splits_iff.1 hspells.splits
  obtain ⟨u, hu, hshape⟩ := hderives ps rfl
  refine ⟨u, parse_ok.2 ⟨ps, hps, (derivesSpec_of_ne_raw ?_).2 hu, ?_⟩, hshape⟩
  · rintro written content span rfl
    exact hne written content rfl
  · rw [depth_eq_of_shape hshape]
    exact hdepth

theorem toList_joined (front behind : String) (texts : List String) :
    (front ++ ",".intercalate texts ++ behind).toList =
      front.toList ++ ([','].intercalate (texts.map String.toList) ++ behind.toList) := by
  rw [String.toList_append, String.toList_append, String.toList_intercalate, List.append_assoc]
  rfl

section Composed
variable {α : Type} {items : List α} {text : α → String} {tree : α → Tree} {limit : Nat}

theorem depthList_alone :
    depthList (items.map fun a => (tree a).alone) = depthList (items.map tree) := by
  induction items with
  | nil => rfl
  | cons a items ih => rw [List.map_cons, List.map_cons, depthList, depthList, ih, depth_alone]

theorem depthEntries_alone {key : α → String} :
    depthEntries (items.map fun a => (key a, (tree a).alone)) = depthList (items.map tree) := by
  induction items with
  | nil => rfl
  | cons a items ih => rw [List.map_cons, List.map_cons, depthEntries, depthList, ih, depth_alone]

theorem parse_arguments {typeName : String} (hname : Token.IsTypeName typeName)
    (h : ∀ a ∈ items, ∃ n, parse n (text a) = .ok (tree a))
    (hlimit : 1 + depthList (items.map tree) ≤ limit) :
    ∃ u, parse limit (typeName ++ "(" ++ ",".intercalate (items.map text) ++ ")") = .ok u ∧
      u.shape = (construct typeName (items.map fun a => (tree a).alone) {}).shape := by
  choose! tokens hspells hderives using fun a ha => derives_alone (h a ha)
  refine parse_of_spells ?_ (by simp) (fun ps hps => construct_of_tokens hderives hps {}) ?_
  · have := spells_call hname [] rfl hspells
    rw [toList_joined, String.toList_append, List.map_map, List.append_assoc]
    exact this
  · rwa [depth, depthList_alone]

theorem parse_items (h : ∀ a ∈ items, ∃ n, parse n (text a) = .ok (tree a))
    (hlimit : 1 + depthList (items.map tree) ≤ limit) :
    ∃ u, parse limit ("[" ++ ",".intercalate (items.map text) ++ "]") = .ok u ∧
      u.shape = (array (items.map fun a => (tree a).alone) {}).shape := by
  choose! tokens hspells hderives using fun a ha => derives_alone (h a ha)
  refine parse_of_spells ?_ ?_ (fun ps hps => array_of_tokens hderives hps {}) ?_
  · rw [toList_joined, List.map_map]
    exact spells_enclosed .openBracket .closeBracket [] rfl hspells
  · simp [encloseTokens]
  · rwa [depth, depthList_alone]

theorem parse_entries (key : α → String) (h : ∀ a ∈ items, ∃ n, parse n (text a) = .ok (tree a))
    (hlimit : 1 + depthList (items.map tree) ≤ limit) :
    ∃ u, parse limit ("\x7b" ++ ",".intercalate
        (items.map fun a => Text.quote (key a) ++ ":" ++ text a) ++ "\x7d") = .ok u ∧
      u.shape = (map (items.map fun a => (key a, (tree a).alone)) {}).shape := by
  choose! tokens hspells hderives using fun a ha => derives_alone (h a ha)
  refine parse_of_spells ?_ ?_ (fun ps hps => map_of_tokens key hderives hps {}) ?_
  · have hentries := spells_enclosed .openBrace .closeBrace [] rfl fun a ha =>
      spells_entry (key a) [] rfl (hspells a ha)
    have htext : (String.toList ∘ fun a => Text.quote (key a) ++ ":" ++ text a) =
        fun a => (Text.quote (key a)).toList ++ Mark.colon.char :: (text a).toList := by
      funext a
      rw [Function.comp_apply, String.toList_append, String.toList_append, List.append_assoc]
      rfl
    rw [toList_joined, List.map_map, htext]
    exact hentries
  · simp [encloseTokens]
  · rwa [depth, depthEntries_alone]

end Composed

/-- Texts that are read as trees, between commas, are read as the arguments of a construct, as the
items of an array and behind keys as the entries of a map, of which they become the parts, but for
the spans. The limit has to leave a level more than the deepest tree has. -/
theorem parse_composed (parts : List (String × Tree))
    (h : ∀ part ∈ parts, ∃ limit, parse limit part.1 = .ok part.2) (typeName : String)
    (hname : Token.IsTypeName typeName) (keys : List String) (limit : Nat)
    (hlimit : 1 + depthList (parts.map Prod.snd) ≤ limit) :
    (∃ u, parse limit (typeName ++ "(" ++ ",".intercalate (parts.map Prod.fst) ++ ")") = .ok u ∧
      u.shape = (construct typeName (parts.map fun part => part.2.alone) {}).shape) ∧
    (∃ u, parse limit ("[" ++ ",".intercalate (parts.map Prod.fst) ++ "]") = .ok u ∧
      u.shape = (array (parts.map fun part => part.2.alone) {}).shape) ∧
    ∃ u, parse limit ("\x7b" ++ ",".intercalate ((keys.zip parts).map fun entry =>
        Text.quote entry.1 ++ ":" ++ entry.2.1) ++ "\x7d") = .ok u ∧
      u.shape = (map ((keys.zip parts).map fun entry => (entry.1, entry.2.2.alone)) {}).shape := by
  refine ⟨parse_arguments hname h hlimit, parse_items h hlimit,
    @parse_entries _ (keys.zip parts) (fun entry => entry.2.1) (fun entry => entry.2.2) limit
      Prod.fst ?_ ?_⟩
  · intro entry hentry
    exact h _ (List.of_mem_zip hentry).2
  · refine Nat.le_trans (Nat.add_le_add_left ?_ 1) hlimit
    rw [depthList_le]
    intro t ht
    obtain ⟨entry, hentry, rfl⟩ := List.mem_map.1 ht
    exact depthList_le.1 (Nat.le_refl _) _ (List.mem_map_of_mem (List.of_mem_zip hentry).2)

/-- A raw text with a blank on both sides, and an empty text with one behind it. -/
def looseParts : List (String × Tree) :=
  [(" \"\"\"x\"\"\"\n", .raw " \"\"\"x\"\"\"\n" "x" ⟨0, 9⟩), ("\"\" ", .literal (.string ""))]

/-- The raw text loses its blanks, and no quote of one text is taken for one of the next. -/
theorem parse_composed_looseParts :
    (∀ part ∈ looseParts, ∃ limit, parse limit part.1 = .ok part.2) ∧ Token.IsTypeName "a.B" ∧
    1 + depthList (looseParts.map Prod.snd) ≤ 1 ∧
    ∃ u, parse 1 "a.B( \"\"\"x\"\"\"\n,\"\" )" = .ok u ∧
      u.shape = .construct "a.B" [.raw "\"\"\"x\"\"\"" "x" {}, .literal (.string "")] {} := by
  have hraw : parse 0 " \"\"\"x\"\"\"\n" = .ok (.raw " \"\"\"x\"\"\"\n" "x" ⟨0, 9⟩) := by
    have htokens : tokenize " \"\"\"x\"\"\"\n" = .ok [⟨.raw "\"\"\"x\"\"\"" "x", ⟨1, 8⟩⟩] :=
      tokenize_of_toOption (by decide +kernel)
    exact parse_ok.2 ⟨_, htokens, rfl, by decide⟩
  have hempty : parse 0 "\"\" " = .ok (.literal (.string "")) := by
    have htokens : tokenize "\"\" " = .ok [⟨.quoted "\"\"" "" '\x22', ⟨0, 2⟩⟩] :=
      tokenize_of_toOption (by decide +kernel)
    exact parse_ok.2 ⟨_, htokens, .string, by decide⟩
  have hparts : ∀ part ∈ looseParts, ∃ limit, parse limit part.1 = .ok part.2 := by
    intro part hpart
    simp only [looseParts, List.mem_cons, List.not_mem_nil, or_false] at hpart
    rcases hpart with rfl | rfl
    · exact ⟨0, hraw⟩
    · exact ⟨0, hempty⟩
  have hpath : Token.path? "a.B".toList = some ("a.B".toList, []) := by rfl
  have hname : Token.IsTypeName "a.B" := ⟨Token.path?_isPath hpath, by decide⟩
  have hlimit : 1 + depthList (looseParts.map Prod.snd) ≤ 1 := by decide
  obtain ⟨u, hu, hshape⟩ := (parse_composed looseParts hparts "a.B" hname [] 1 hlimit).1
  exact ⟨hparts, hname, hlimit, u, hu, hshape⟩

end Tree

end ObjectSpec
