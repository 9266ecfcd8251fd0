import ObjectSpec.Proofs.Tree.Shape
import ObjectSpec.Tree.Parser

/-!
# The grammar of specs

Which rows of tokens are a value, and of which tree. The relation `Derives` is
the grammar itself and knows nothing of a reader: no cursor, no depth, no order
of trials. A construct, an array or a map spans from its first token to its last.

A derivation needs two tokens for each level of nesting (`Derives.depth_le`), and
does not depend on where the tokens stand (`Derives.of_tokens`).
-/

namespace ObjectSpec

/-! ## Rows of the same tokens -/

theorem Placed.cons_of_tokens {p : Placed} {ts us : List Placed}
    (h : us.map token = (p :: ts).map token) :
    ∃ s vs, us = ⟨p.token, s⟩ :: vs ∧ vs.map token = ts.map token := by
  obtain ⟨⟨_, s⟩, vs, rfl, rfl, htail⟩ := List.map_eq_cons_iff.1 h
  exact ⟨s, vs, rfl, htail⟩

theorem Placed.singleton_of_tokens {p : Placed} {us : List Placed}
    (h : us.map token = [p].map token) : ∃ s, us = [⟨p.token, s⟩] := by
  obtain ⟨s, vs, rfl, htail⟩ := cons_of_tokens h
  exact ⟨s, by rw [List.map_eq_nil_iff.1 htail]⟩

theorem Placed.append_of_tokens {ts vs us : List Placed}
    (h : us.map token = (ts ++ vs).map token) :
    ∃ xs ys, us = xs ++ ys ∧ xs.map token = ts.map token ∧ ys.map token = vs.map token := by
  rw [List.map_append] at h
  exact List.map_eq_append_iff.1 h

/-! ## Lists -/

section Lists
variable {α : Type}

/-- One part or more with commas between them. -/
inductive Separated (part : List Placed → α → Prop) : List Placed → List α → Prop
  | one {ts a} : part ts a → Separated part ts [a]
  | more {ts us a as s} : part ts a → Separated part us as →
      Separated part (ts ++ ⟨.mark .comma, s⟩ :: us) (a :: as)

/-- Parts with commas between them, or nothing. -/
inductive Listed (part : List Placed → α → Prop) : List Placed → List α → Prop
  | none : Listed part [] []
  | some {ts as} : Separated part ts as → Listed part ts as

variable {part : List Placed → α → Prop}

theorem Separated.of_mem {ts : List Placed} {as : List α} (h : Separated part ts as) {a : α}
    (ha : a ∈ as) : ∃ us, part us a ∧ us <:+: ts := by
  induction h with
  | @one ts b hb =>
    rw [List.mem_singleton] at ha
    subst ha
    exact ⟨ts, hb, List.infix_rfl⟩
  | @more ts us b as s hb _ ih =>
    rcases List.mem_cons.1 ha with rfl | ha
    · exact ⟨ts, hb, (List.prefix_append _ _).isInfix⟩
    · obtain ⟨vs, hv, hi⟩ := ih ha
      refine ⟨vs, hv, hi.trans ?_⟩
      exact ((List.suffix_cons _ us).trans (List.suffix_append ts _)).isInfix

theorem Listed.of_mem {ts : List Placed} {as : List α} (h : Listed part ts as) {a : α}
    (ha : a ∈ as) : ∃ us, part us a ∧ us <:+: ts := by
  cases h with
  | none => cases ha
  | some h => exact h.of_mem ha

theorem Separated.imp {Q : List Placed → α → Prop} {ts : List Placed} {as : List α}
    (h : Separated part ts as) (hp : ∀ us, ∀ a ∈ as, part us a → Q us a) : Separated Q ts as := by
  induction h with
  | one ha => exact .one (hp _ _ (by simp) ha)
  | more ha _ ih => exact .more (hp _ _ (by simp) ha) (ih fun us a h => hp us a (by simp [h]))

theorem Listed.imp {Q : List Placed → α → Prop} {ts : List Placed} {as : List α}
    (h : Listed part ts as) (hp : ∀ us, ∀ a ∈ as, part us a → Q us a) : Listed Q ts as := by
  cases h with
  | none => exact .none
  | some h => exact .some (h.imp hp)

/-- What `f` sees of a list is a matter of its tokens, if that holds of each part. -/
theorem Separated.of_tokens {β : Type} {f : α → β} {ts us : List Placed} {as : List α}
    (h : Separated part ts as)
    (hp : ∀ a ∈ as, ∀ vs, part vs a → ∀ ws, ws.map Placed.token = vs.map Placed.token →
      ∃ b, part ws b ∧ f b = f a)
    (htokens : us.map Placed.token = ts.map Placed.token) :
    ∃ bs, Separated part us bs ∧ bs.map f = as.map f := by
  induction h generalizing us with
  | @one ts a ha =>
    obtain ⟨b, hb, hf⟩ := hp a (by simp) ts ha us htokens
    exact ⟨[b], .one hb, by rw [List.map_cons, hf]; rfl⟩
  | @more ts vs a as s ha _ ih =>
    obtain ⟨xs, _, rfl, hxs, hrest⟩ := Placed.append_of_tokens htokens
    obtain ⟨s', ys, rfl, hys⟩ := Placed.cons_of_tokens hrest
    obtain ⟨b, hb, hf⟩ := hp a (by simp) ts ha xs hxs
    obtain ⟨bs, hbs, hfs⟩ := ih (fun a h => hp a (by simp [h])) hys
    exact ⟨b :: bs, .more hb hbs, by rw [List.map_cons, hf, hfs, List.map_cons]⟩

theorem Listed.of_tokens {β : Type} {f : α → β} {ts us : List Placed} {as : List α}
    (h : Listed part ts as)
    (hp : ∀ a ∈ as, ∀ vs, part vs a → ∀ ws, ws.map Placed.token = vs.map Placed.token →
      ∃ b, part ws b ∧ f b = f a)
    (htokens : us.map Placed.token = ts.map Placed.token) :
    ∃ bs, Listed part us bs ∧ bs.map f = as.map f := by
  cases h with
  | none =>
    rw [List.map_eq_nil_iff.1 htokens]
    exact ⟨[], .none, rfl⟩
  | some h =>
    obtain ⟨bs, hbs, hf⟩ := h.of_tokens hp htokens
    exact ⟨bs, .some hbs, hf⟩

end Lists

/-! ## Values -/

/-- A key, a colon and a value. -/
inductive Entry (part : List Placed → Tree → Prop) : List Placed → String × Tree → Prop
  | mk {written key quote s p ts t} : part ts t →
      Entry part (⟨.quoted written key quote, s⟩ :: ⟨.mark .colon, p⟩ :: ts) (key, t)

/-- The tokens are a value, and this is its tree. -/
inductive Derives : List Placed → Tree → Prop
  | construct {typeName s p e ts args} : Listed Derives ts args →
      Derives (⟨.name typeName, s⟩ :: ⟨.mark .openParen, p⟩ :: (ts ++ [⟨.mark .closeParen, e⟩]))
        (.construct typeName args ⟨s.start, e.stop⟩)
  | array {s e ts items} : Listed Derives ts items →
      Derives (⟨.mark .openBracket, s⟩ :: (ts ++ [⟨.mark .closeBracket, e⟩]))
        (.array items ⟨s.start, e.stop⟩)
  | map {s e ts entries} : Listed (Entry Derives) ts entries →
      Derives (⟨.mark .openBrace, s⟩ :: (ts ++ [⟨.mark .closeBrace, e⟩]))
        (.map entries ⟨s.start, e.stop⟩)
  | string {written text quote s} :
      Derives [⟨.quoted written text quote, s⟩] (.literal (.string text))
  | boolean {b s} : Derives [⟨.boolean b, s⟩] (.literal (.boolean b))
  | number {numeral l s} : Literal.ofNumeral numeral.toList = .ok l →
      Derives [⟨.number numeral, s⟩] (.literal l)
  | raw {written content s} : Derives [⟨.raw written content, s⟩] (.raw written content s)

/-- The tokens of a whole text are a spec, and this is its tree. One raw text alone stands for the
whole text, blanks around it included. -/
def DerivesSpec (source : String) (ts : List Placed) (t : Tree) : Prop :=
  match ts with
  | [⟨.raw _ content, _⟩] => t = .raw source content ⟨0, Text.byteCount source.toList⟩
  | _ => Derives ts t

theorem derivesSpec_of_ne_raw {source : String} {ts : List Placed} {t : Tree}
    (h : ∀ written content s, ts ≠ [⟨.raw written content, s⟩]) :
    DerivesSpec source ts t ↔ Derives ts t := by
  unfold DerivesSpec
  split
  · next hts => exact absurd rfl (h _ _ _)
  · exact Iff.rfl

/-- A whole text is one raw text, or what its tokens derive. -/
theorem DerivesSpec.raw_or {source : String} {ts : List Placed} {t : Tree}
    (h : DerivesSpec source ts t) :
    (∃ written content s, ts = [⟨.raw written content, s⟩] ∧
      t = .raw source content ⟨0, Text.byteCount source.toList⟩) ∨
    (∀ written content s, ts ≠ [⟨.raw written content, s⟩]) ∧ Derives ts t := by
  by_cases hraw : ∃ written content s, ts = [⟨.raw written content, s⟩]
  · obtain ⟨written, content, s, rfl⟩ := hraw
    exact .inl ⟨written, content, s, rfl, h⟩
  · have hne : ∀ written content s, ts ≠ [⟨.raw written content, s⟩] :=
      fun written content s hts => hraw ⟨written, content, s, hts⟩
    exact .inr ⟨hne, (derivesSpec_of_ne_raw hne).1 h⟩

/-! ## How a value starts -/

namespace Token

/-- A token that no value starts with. -/
def isClosing : Token → Bool
  | .mark .closeParen | .mark .closeBracket | .mark .closeBrace | .mark .comma | .mark .colon => true
  | _ => false

end Token

/-- The tokens start with one that can start a value. -/
def Opens (ts : List Placed) : Prop := ∃ p us, ts = p :: us ∧ p.token.isClosing = false

theorem Opens.append {ts : List Placed} (h : Opens ts) (us : List Placed) : Opens (ts ++ us) := by
  obtain ⟨p, vs, rfl, hp⟩ := h
  exact ⟨p, vs ++ us, rfl, hp⟩

theorem Separated.opens {α : Type} {part : List Placed → α → Prop}
    (hp : ∀ {ts a}, part ts a → Opens ts) {ts : List Placed} {as : List α}
    (h : Separated part ts as) : Opens ts := by
  cases h with
  | one h => exact hp h
  | more h _ => exact (hp h).append _

theorem Derives.opens {ts : List Placed} {t : Tree} (h : Derives ts t) : Opens ts := by
  cases h <;> exact ⟨_, _, rfl, rfl⟩

theorem Entry.opens {part : List Placed → Tree → Prop} {ts : List Placed} {e : String × Tree}
    (h : Entry part ts e) : Opens ts := by
  cases h
  exact ⟨_, _, rfl, rfl⟩

/-! ## Nesting -/

/-- If each part needs two tokens for a level, no part has more levels than half of the tokens. -/
theorem Listed.levels_le {α : Type} {part : List Placed → α → Prop} {levels : α → Nat}
    {ts : List Placed} {as : List α} (h : Listed part ts as)
    (hp : ∀ us, ∀ a ∈ as, part us a → 2 * levels a ≤ us.length) :
    ∀ a ∈ as, levels a ≤ ts.length / 2 := by
  intro a ha
  obtain ⟨us, hu, hi⟩ := h.of_mem ha
  have := hp us a ha hu
  have := hi.length_le
  omega

/-- Each level of nesting takes two tokens. -/
theorem Derives.depth_le {ts : List Placed} {t : Tree} (h : Derives ts t) :
    2 * t.depth ≤ ts.length := by
  induction t generalizing ts with
  | literal l => simp [Tree.depth]
  | raw written content span => simp [Tree.depth]
  | construct typeName args span ih =>
    cases h with
    | @construct _ s p e us _ h =>
      have hd : (Tree.construct typeName args ⟨s.start, e.stop⟩).depth ≤ us.length / 2 + 1 :=
        Tree.depth_construct_le.2 (h.levels_le fun vs a ha hv => ih a ha hv)
      simp only [List.length_cons, List.length_append, List.length_nil]
      omega
  | array items span ih =>
    cases h with
    | @array s e us _ h =>
      have hd : (Tree.array items ⟨s.start, e.stop⟩).depth ≤ us.length / 2 + 1 :=
        Tree.depth_array_le.2 (h.levels_le fun vs a ha hv => ih a ha hv)
      simp only [List.length_cons, List.length_append, List.length_nil]
      omega
  | map entries span ih =>
    cases h with
    | @map s e us _ h =>
      have hentry : ∀ vs, ∀ x ∈ entries, Entry Derives vs x → 2 * x.2.depth ≤ vs.length := by
        rintro vs x hx ⟨hv⟩
        have := ih _ hx hv
        simp only [List.length_cons] at this ⊢
        omega
      have hd : (Tree.map entries ⟨s.start, e.stop⟩).depth ≤ us.length / 2 + 1 :=
        Tree.depth_map_le.2 (h.levels_le hentry)
      simp only [List.length_cons, List.length_append, List.length_nil]
      omega

theorem DerivesSpec.depth_le {source : String} {ts : List Placed} {t : Tree}
    (h : DerivesSpec source ts t) : t.depth ≤ ts.length := by
  unfold DerivesSpec at h
  split at h
  · rw [h]
    exact Nat.zero_le _
  · have := h.depth_le
    omega

/-! ## Other spans -/

/-- Where the tokens stand matters for the spans of the tree alone. -/
theorem Derives.of_tokens {ts us : List Placed} {t : Tree} (h : Derives ts t)
    (htokens : us.map Placed.token = ts.map Placed.token) :
    ∃ u, Derives us u ∧ u.shape = t.shape := by
  induction t generalizing ts us with
  | literal l =>
    cases h with
    | string =>
      obtain ⟨s, rfl⟩ := Placed.singleton_of_tokens htokens
      exact ⟨_, .string, rfl⟩
    | boolean =>
      obtain ⟨s, rfl⟩ := Placed.singleton_of_tokens htokens
      exact ⟨_, .boolean, rfl⟩
    | number hl =>
      obtain ⟨s, rfl⟩ := Placed.singleton_of_tokens htokens
      exact ⟨_, .number hl, rfl⟩
  | raw written content span =>
    cases h with
    | raw =>
      obtain ⟨s, rfl⟩ := Placed.singleton_of_tokens htokens
      exact ⟨_, .raw, rfl⟩
  | construct typeName args span ih =>
    cases h with
    | construct h =>
      obtain ⟨s, _, rfl, hargs⟩ := Placed.cons_of_tokens htokens
      obtain ⟨p, _, rfl, hlist⟩ := Placed.cons_of_tokens hargs
      obtain ⟨vs, _, rfl, hvs, hrest⟩ := Placed.append_of_tokens hlist
      obtain ⟨e, rfl⟩ := Placed.singleton_of_tokens hrest
      obtain ⟨bs, hbs, hshape⟩ := h.of_tokens (fun a ha vs hv ws => ih a ha hv) hvs
      exact ⟨_, .construct hbs, by rw [Tree.shape_construct, hshape, Tree.shape_construct]⟩
  | array items span ih =>
    cases h with
    | array h =>
      obtain ⟨s, _, rfl, hlist⟩ := Placed.cons_of_tokens htokens
      obtain ⟨vs, _, rfl, hvs, hrest⟩ := Placed.append_of_tokens hlist
      obtain ⟨e, rfl⟩ := Placed.singleton_of_tokens hrest
      obtain ⟨bs, hbs, hshape⟩ := h.of_tokens (fun a ha vs hv ws => ih a ha hv) hvs
      exact ⟨_, .array hbs, by rw [Tree.shape_array, hshape, Tree.shape_array]⟩
  | map entries span ih =>
    cases h with
    | map h =>
      have hentry : ∀ x ∈ entries, ∀ vs, Entry Derives vs x →
          ∀ ws, ws.map Placed.token = vs.map Placed.token →
            ∃ y, Entry Derives ws y ∧ (y.1, y.2.shape) = (x.1, x.2.shape) := by
        rintro x hx vs ⟨hv⟩ ws hws
        obtain ⟨s, _, rfl, hpair⟩ := Placed.cons_of_tokens hws
        obtain ⟨c, _, rfl, hvalue⟩ := Placed.cons_of_tokens hpair
        obtain ⟨u, hu, hshape⟩ := ih _ hx hv hvalue
        exact ⟨(_, u), .mk hu, by rw [hshape]⟩
      obtain ⟨s, _, rfl, hlist⟩ := Placed.cons_of_tokens htokens
      obtain ⟨vs, _, rfl, hvs, hrest⟩ := Placed.append_of_tokens hlist
      obtain ⟨e, rfl⟩ := Placed.singleton_of_tokens hrest
      obtain ⟨bs, hbs, hshape⟩ := h.of_tokens (f := fun x => (x.1, x.2.shape)) hentry hvs
      exact ⟨_, .map hbs, by rw [Tree.shape_map, hshape, Tree.shape_map]⟩

end ObjectSpec
