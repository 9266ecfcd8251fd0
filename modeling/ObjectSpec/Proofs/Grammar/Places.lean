import ObjectSpec.Proofs.Grammar.Acceptance
import ObjectSpec.Proofs.Grammar.Relabelling
import ObjectSpec.Proofs.Token.Cutting
import ObjectSpec.Proofs.Tree.Place

/-!
# The span of a node

The tokens of a node lie side by side among those of the text, and its span reaches from
the first of them to the last (`Derives.of_at?`, `Derives.span_eq`). So what a span cuts
out of the text is read as that node again, and the spans of its parts lie inside it, one
behind the other (`parse_slice`).
-/

namespace ObjectSpec

open Text (byteCount)

/-! ## Nodes and their tokens -/

section Lists
variable {α : Type} {part : List Placed → α → Prop} {ts : List Placed} {as : List α}

/-- What holds of a part and of any part behind it holds along the list. -/
theorem Separated.pairwise {R : α → α → Prop} (h : Separated part ts as)
    (hR : ∀ us vs a b, part us a → part vs b → (us ++ vs).Sublist ts → R a b) : as.Pairwise R := by
  induction h with
  | one => exact List.pairwise_singleton R _
  | @more ts us a as s ha hs ih =>
    refine .cons (fun b hb => ?_) (ih fun xs ys a b hx hy hsub => hR xs ys a b hx hy ?_)
    · obtain ⟨vs, hv, hrow⟩ := hs.of_mem hb
      exact hR ts vs a b ha hv
        ((List.Sublist.refl ts).append (hrow.sublist.trans (List.sublist_cons_self _ us)))
    · exact (hsub.trans (List.sublist_cons_self _ us)).trans (List.sublist_append_right ts _)

theorem Listed.pairwise {R : α → α → Prop} (h : Listed part ts as)
    (hR : ∀ us vs a b, part us a → part vs b → (us ++ vs).Sublist ts → R a b) : as.Pairwise R := by
  cases h with
  | none => exact .nil
  | some h => exact h.pairwise hR

end Lists

namespace Tree

mutual

theorem respan_inverse {f g : Span → Span} (h : ∀ s, g (f s) = s) :
    ∀ t : Tree, (t.respan f).respan g = t
  | .literal _ => rfl
  | .construct _ args _ => by
    rw [respan, respan, relabel, relabel, respanList_inverse h args, h]
  | .array items _ => by rw [respan, respan, relabel, relabel, respanList_inverse h items, h]
  | .map entries _ => by rw [respan, respan, relabel, relabel, respanEntries_inverse h entries, h]
  | .raw _ _ _ => by rw [respan, respan, relabel, relabel, h]

theorem respanList_inverse {f g : Span → Span} (h : ∀ s, g (f s) = s) : ∀ ts : List Tree,
    relabelList (fun _ x => x) g (relabelList (fun _ x => x) f ts) = ts
  | [] => rfl
  | t :: ts => by
    rw [relabelList, relabelList, respanList_inverse h ts]
    exact congrArg (· :: ts) (respan_inverse h t)

theorem respanEntries_inverse {f g : Span → Span} (h : ∀ s, g (f s) = s) :
    ∀ es : List (String × Tree),
      relabelEntries (fun _ x => x) g (relabelEntries (fun _ x => x) f es) = es
  | [] => rfl
  | (key, t) :: es => by
    rw [relabelEntries, relabelEntries, respanEntries_inverse h es]
    exact congrArg (fun u => (key, u) :: es) (respan_inverse h t)

end

end Tree

theorem Placed.shift_eq (k : Nat) : Placed.shift k = Placed.relabel (fun _ x => x) (· + k) := by
  funext p
  obtain ⟨t, s⟩ := p
  cases t <;> rfl

/-- A node is derived at any other place as well. -/
theorem Derives.shift (k : Nat) {ts : List Placed} {t : Tree} (h : Derives ts t) :
    Derives (ts.map (Placed.shift k)) (t.respan (Span.shift k)) :=
  Placed.shift_eq k ▸ h.relabel (fun _ x => x) (· + k)

theorem infix_enclosed (p q : Placed) (ts : List Placed) : ts <:+: p :: (ts ++ [q]) :=
  (List.prefix_append ts [q]).isInfix.trans (List.suffix_cons p _).isInfix

/-- The tokens of a part are among those of the node, side by side. -/
theorem Derives.of_part {ts : List Placed} {t part : Tree} (h : Derives ts t)
    (hpart : part ∈ t.parts) : ∃ us, Derives us part ∧ us <:+: ts := by
  cases h with
  | construct h =>
    obtain ⟨us, hu, hrow⟩ := h.of_mem hpart
    exact ⟨us, hu, (hrow.trans (infix_enclosed _ _ _)).trans (List.suffix_cons _ _).isInfix⟩
  | array h =>
    obtain ⟨us, hu, hrow⟩ := h.of_mem hpart
    exact ⟨us, hu, hrow.trans (infix_enclosed _ _ _)⟩
  | map h =>
    obtain ⟨e, he, rfl⟩ := List.mem_map.1 hpart
    obtain ⟨_, ⟨hu⟩, hrow⟩ := h.of_mem he
    have hvalue := (List.suffix_append [_, _] _).isInfix.trans hrow
    exact ⟨_, hu, hvalue.trans (infix_enclosed _ _ _)⟩
  | string => cases hpart
  | boolean => cases hpart
  | number => cases hpart
  | raw => cases hpart

theorem Derives.of_at? {ts : List Placed} {t n : Tree} {way : List Nat} (h : Derives ts t)
    (hat : t.at? way = some n) : ∃ us, Derives us n ∧ us <:+: ts := by
  induction way generalizing ts t with
  | nil =>
    cases hat
    exact ⟨ts, h, List.infix_rfl⟩
  | cons i way ih =>
    obtain ⟨part, hpart, hat⟩ := Option.bind_eq_some_iff.1 hat
    obtain ⟨us, hu, hrow⟩ := h.of_part (List.mem_of_getElem? hpart)
    obtain ⟨vs, hv, hinner⟩ := ih hu hat
    exact ⟨vs, hv, hinner.trans hrow⟩

/-- The span of a node reaches from its first token to its last. -/
theorem Derives.span_eq {ts : List Placed} {t : Tree} (h : Derives ts t) (ht : t.literal? = none) :
    ∃ p us, ts = p :: us ∧ t.span = ⟨p.span.start, stopOf (p :: us)⟩ := by
  have hstop : ∀ (p q : Placed) us, stopOf (p :: (us ++ [q])) = q.span.stop := by
    intro p q us
    rw [stopOf, ← List.cons_append, List.getLast?_concat]
    rfl
  cases h with
  | construct => exact ⟨_, _, rfl, by rw [← List.cons_append, hstop]; rfl⟩
  | array => exact ⟨_, _, rfl, by rw [hstop]; rfl⟩
  | map => exact ⟨_, _, rfl, by rw [hstop]; rfl⟩
  | raw => exact ⟨_, _, rfl, rfl⟩
  | _ => cases ht

/-! ## Parts side by side -/

/-- No token is empty, and each ends where a later one starts, or before that. -/
structure InOrder (ts : List Placed) : Prop where
  nonempty : ∀ p ∈ ts, p.span.start < p.span.stop
  ordered : ts.Pairwise fun p q => p.span.stop ≤ q.span.start

theorem InOrder.sublist {ts us : List Placed} (h : InOrder ts) (hsub : us.Sublist ts) :
    InOrder us where
  nonempty p hp := h.nonempty p (hsub.subset hp)
  ordered := h.ordered.sublist hsub

theorem exists_stopOf {ts : List Placed} (h : ts ≠ []) :
    ∃ front q, ts = front ++ [q] ∧ stopOf ts = q.span.stop := by
  refine ⟨ts.dropLast, ts.getLast h, (List.dropLast_concat_getLast h).symm, ?_⟩
  rw [stopOf, List.getLast?_eq_some_getLast h]
  rfl

/-- All tokens lie between the start of the first and the end of the last. -/
theorem InOrder.bounds {p : Placed} {ts : List Placed} (h : InOrder (p :: ts)) :
    ∀ q ∈ p :: ts, p.span.start ≤ q.span.start ∧ q.span.stop ≤ stopOf (p :: ts) := by
  intro q hq
  constructor
  · rcases List.mem_cons.1 hq with rfl | hq
    · exact Nat.le_refl _
    · have hp := h.nonempty p List.mem_cons_self
      have hle := (List.pairwise_cons.1 h.ordered).1 q hq
      omega
  · obtain ⟨front, last, hts, hstop⟩ := exists_stopOf (List.cons_ne_nil p ts)
    rw [hstop]
    rw [hts] at h hq
    rcases List.mem_append.1 hq with hq | hq
    · have hlast := h.nonempty last (by simp)
      have hle := (List.pairwise_append.1 h.ordered).2.2 q hq last List.mem_cons_self
      omega
    · obtain rfl := List.mem_singleton.1 hq
      exact Nat.le_refl _

/-- The span of a part lies inside that of its node. -/
theorem Derives.part_inside {ts : List Placed} {t part : Tree} (h : Derives ts t)
    (hts : InOrder ts) (hpart : part ∈ t.parts) (hnode : part.literal? = none) :
    t.span.start ≤ part.span.start ∧ part.span.stop ≤ t.span.stop := by
  obtain ⟨us, hu, hrow⟩ := h.of_part hpart
  obtain ⟨q, vs, rfl, hspan⟩ := hu.span_eq hnode
  obtain ⟨front, last, hlast, hstop⟩ := exists_stopOf (List.cons_ne_nil q vs)
  have ht : t.literal? = none := by
    cases t with
    | literal l => cases hpart
    | _ => rfl
  obtain ⟨p, rest, rfl, hspan'⟩ := h.span_eq ht
  have hq := hts.bounds q (hrow.subset List.mem_cons_self)
  have hl := hts.bounds last (hrow.subset (by rw [hlast]; simp))
  rw [hspan, hspan', hstop]
  exact ⟨hq.1, hl.2⟩

/-- Of two parts, the one in front ends before the other starts. -/
theorem Derives.parts_apart {us vs : List Placed} {a b : Tree} (ha : Derives us a)
    (hb : Derives vs b) (h : InOrder (us ++ vs)) (hna : a.literal? = none)
    (hnb : b.literal? = none) : a.span.stop ≤ b.span.start := by
  obtain ⟨p, us, rfl, hspan⟩ := ha.span_eq hna
  obtain ⟨q, vs, rfl, hspan'⟩ := hb.span_eq hnb
  obtain ⟨front, last, hlast, hstop⟩ := exists_stopOf (List.cons_ne_nil p us)
  rw [hspan, hspan', hstop]
  refine (List.pairwise_append.1 h.ordered).2.2 last ?_ q List.mem_cons_self
  rw [hlast]
  simp

theorem Derives.parts_pairwise {ts : List Placed} {t : Tree} (h : Derives ts t)
    (hts : InOrder ts) :
    t.parts.Pairwise fun a b =>
      a.literal? = none → b.literal? = none → a.span.stop ≤ b.span.start := by
  have hapart : ∀ {ws : List Placed}, ws <:+: ts → ∀ us vs a b, Derives us a → Derives vs b →
      (us ++ vs).Sublist ws →
      a.literal? = none → b.literal? = none → a.span.stop ≤ b.span.start :=
    fun hws us vs a b ha hb hsub => ha.parts_apart hb (hts.sublist (hsub.trans hws.sublist))
  cases h with
  | construct h =>
    exact h.pairwise (hapart ((infix_enclosed _ _ _).trans (List.suffix_cons _ _).isInfix))
  | array h => exact h.pairwise (hapart (infix_enclosed _ _ _))
  | map h =>
    refine List.pairwise_map.2 (h.pairwise fun us vs e f he hf hsub => ?_)
    obtain ⟨he⟩ := he
    obtain ⟨hf⟩ := hf
    refine hapart (infix_enclosed _ _ _) _ _ _ _ he hf (.trans ?_ hsub)
    exact (List.sublist_append_right [_, _] _).append (List.sublist_append_right [_, _] _)
  | _ => exact .nil

/-! ## Pieces of a text -/

/-- A text that one of its spans covers is covered whole. -/
theorem Span.slice?_self {s : Span} {text : String} (h : s.slice? text = some text) :
    s = ⟨0, byteCount text.toList⟩ := by
  obtain ⟨front, rest, htext, rfl⟩ := slice?_eq_some_iff.1 h
  have hlength := congrArg List.length htext
  rw [List.length_append, List.length_append] at hlength
  obtain rfl : front = [] := List.length_eq_zero_iff.1 (by omega)
  rfl

/-- A raw text alone makes up a text just if nothing stands around it. -/
theorem Derives.spec_of_cut {text : String} {ts : List Placed} {t : Tree} (h : Derives ts t)
    (htokens : tokenize text = .ok ts)
    (hraw : ∀ written content s, ts = [⟨.raw written content, s⟩] → written = text) :
    DerivesSpec text ts t := by
  unfold DerivesSpec
  split
  · next written content s =>
    obtain rfl := hraw written content s rfl
    have hspan := Span.slice?_self ((covers_of_tokenize htokens).partition.slices _ List.mem_cons_self)
    cases h with
    | raw => exact congrArg (Tree.raw written content) hspan
  · exact h

/-- What the span of a node cuts out is that node, moved to the start of the text. -/
theorem Derives.cut {source : String} {older ts newer : List Placed} {n : Tree}
    (htokens : tokenize source = .ok (older ++ ts ++ newer)) (h : Derives ts n)
    (hn : n.literal? = none) :
    ∃ text qs u, n.span.slice? source = some text ∧ tokenize text = .ok qs ∧
      DerivesSpec text qs u ∧ u.respan (Span.shift n.span.start) = n := by
  obtain ⟨p, us, rfl, hspan⟩ := h.span_eq hn
  obtain ⟨text, qs, hslice, hqs, hshift⟩ := tokenize_cut htokens
  rw [hspan]
  have hsame : qs.map Placed.token = (p :: us).map Placed.token := by
    rw [← hshift, List.map_map]
    rfl
  obtain ⟨u, hu, -⟩ := h.of_tokens hsame
  have hmoved := hu.shift p.span.start
  rw [hshift] at hmoved
  refine ⟨text, qs, u, hslice, hqs, hu.spec_of_cut hqs ?_, hmoved.unique h⟩
  rintro written content s rfl
  -- The raw text is the only token, and its span cuts out what it is written as.
  obtain ⟨hp, hus⟩ := List.cons.inj hshift
  obtain rfl : us = [] := hus.symm
  have hwritten : p.span.slice? source = some p.token.written :=
    ((covers_of_tokenize htokens).partition).slices p (by simp)
  rw [← hp] at hwritten hslice
  exact Option.some.inj (hwritten.symm.trans hslice)

namespace Tree

theorem depth_le_of_part {t part : Tree} (h : part ∈ t.parts) : part.depth ≤ t.depth :=
  depth_le_succ.1 (Nat.le_succ t.depth) part h

theorem depth_le_of_at? {t n : Tree} {way : List Nat} (h : t.at? way = some n) :
    n.depth ≤ t.depth := by
  induction way generalizing t with
  | nil =>
    cases h
    exact Nat.le_refl _
  | cons i way ih =>
    obtain ⟨part, hpart, hat⟩ := Option.bind_eq_some_iff.1 h
    exact Nat.le_trans (ih hat) (depth_le_of_part (List.mem_of_getElem? hpart))

/-- The span of each node but a literal is exact: what it cuts out of the text is read as that
node alone, with all spans moved to the start. The spans of its parts lie inside, one behind the
other. -/
theorem parse_slice (limit : Nat) (source : String) (root n : Tree) (way : List Nat)
    (hparse : parse limit source = .ok root) (hat : root.at? way = some n)
    (hn : n.literal? = none) :
    (∃ text, n.span.slice? source = some text ∧
      parse limit text = .ok (n.respan (Span.back n.span.start))) ∧
    (∀ part ∈ n.parts, part.literal? = none →
      n.span.start ≤ part.span.start ∧ part.span.stop ≤ n.span.stop) ∧
    (n.parts.filter fun part => part.literal?.isNone).Pairwise fun a b =>
      a.span.stop ≤ b.span.start := by
  obtain ⟨ts, htokens, hroot, hdepth⟩ := parse_ok.1 hparse
  unfold DerivesSpec at hroot
  split at hroot
  · next written content s =>
    -- One raw text has no parts, and its span covers the whole text.
    subst hroot
    cases way with
    | cons i way => cases hat
    | nil =>
      cases hat
      refine ⟨⟨source, Span.slice?_eq_some_iff.2 ⟨[], [], by simp, rfl⟩, ?_⟩, nofun, .nil⟩
      exact hparse
  · obtain ⟨us, hd, older, newer, hrow⟩ := hroot.of_at? hat
    obtain ⟨text, qs, u, hslice, hqs, hu, hmoved⟩ := Derives.cut (hrow ▸ htokens) hd hn
    have hpartition := (covers_of_tokenize htokens).partition
    have horder : InOrder us := InOrder.sublist ⟨hpartition.nonempty, hpartition.ordered⟩
      (List.IsInfix.sublist ⟨older, newer, hrow⟩)
    refine ⟨⟨text, hslice, parse_ok.2 ⟨qs, hqs, ?_⟩⟩, fun part hpart => hd.part_inside horder hpart,
      List.pairwise_filter.2 ((hd.parts_pairwise horder).imp fun hab ha hb => ?_)⟩
    · have hback : n.respan (Span.back n.span.start) = u :=
        calc n.respan (Span.back n.span.start)
            = (u.respan (Span.shift n.span.start)).respan (Span.back n.span.start) :=
              congrArg (respan _) hmoved.symm
          _ = u := respan_inverse (Span.back_shift _) u
      have hsame : u.depth = n.depth := by
        rw [← hmoved]
        exact (depth_relabel _ _ u).symm
      rw [hback, hsame]
      exact ⟨hu, Nat.le_trans (depth_le_of_at? hat) hdepth⟩
    · exact hab (Option.isNone_iff_eq_none.1 ha) (Option.isNone_iff_eq_none.1 hb)

/-- A construct in an array, with blanks around both and two containers for its arguments. -/
theorem parse_slice_callInArray :
    let source := " [ A( [], \x7b\x7d ) ]"
    let call : Tree := .construct "A" [.array [] ⟨6, 8⟩, .map [] ⟨10, 12⟩] ⟨3, 14⟩
    let root : Tree := .array [call] ⟨1, 16⟩
    parse 3 source = .ok root ∧ root.at? [0] = some call ∧ call.literal? = none ∧
    (∃ text, (Span.mk 3 14).slice? source = some text ∧
      parse 3 text = .ok (call.respan (Span.back 3))) ∧
    (∀ part ∈ call.parts, part.literal? = none → 3 ≤ part.span.start ∧ part.span.stop ≤ 14) ∧
    (call.parts.filter fun part => part.literal?.isNone).Pairwise fun a b =>
      a.span.stop ≤ b.span.start := by
  intro source call root
  have htokens : tokenize source = .ok [⟨.mark .openBracket, ⟨1, 2⟩⟩, ⟨.name "A", ⟨3, 4⟩⟩,
      ⟨.mark .openParen, ⟨4, 5⟩⟩, ⟨.mark .openBracket, ⟨6, 7⟩⟩, ⟨.mark .closeBracket, ⟨7, 8⟩⟩,
      ⟨.mark .comma, ⟨8, 9⟩⟩, ⟨.mark .openBrace, ⟨10, 11⟩⟩, ⟨.mark .closeBrace, ⟨11, 12⟩⟩,
      ⟨.mark .closeParen, ⟨13, 14⟩⟩, ⟨.mark .closeBracket, ⟨15, 16⟩⟩] :=
    tokenize_of_toOption (by decide +kernel)
  have hparse : parse 3 source = .ok root := by
    rw [parse, htokens]
    rfl
  exact ⟨hparse, rfl, rfl, parse_slice 3 source root call [0] hparse rfl rfl⟩

end Tree

end ObjectSpec
