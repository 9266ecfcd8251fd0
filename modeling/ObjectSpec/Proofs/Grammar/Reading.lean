import ObjectSpec.Proofs.Grammar.Derivation
import ObjectSpec.Proofs.State.Sequence

/-!
# What the rules of the reader take

A rule recognizes a grammar if it succeeds just where a piece of the grammar comes
next, takes the tokens of that piece and nothing else, and gives what the piece
stands for. Each rule has one lemma here, made from those of the rules it uses;
the last one, `value_recognizes`, is about values nested as deep as the limit allows.
-/

namespace ObjectSpec

/-! ## Taking tokens -/

/-- From `r` to `s` the tokens `ts` are taken, and nothing else changes. -/
structure Reader.Takes (r : Reader) (ts : List Placed) (s : Reader) : Prop where
  rest : r.cursor.rest = ts ++ s.cursor.rest
  taken : s.cursor.taken = ts.reverse ++ r.cursor.taken
  finish : s.cursor.finish = r.cursor.finish
  depth : s.depth = r.depth

namespace Reader.Takes
variable {r q s s' : Reader} {ts us : List Placed}

theorem refl (r : Reader) : r.Takes [] r := ⟨rfl, rfl, rfl, rfl⟩

theorem trans (h : r.Takes ts q) (h' : q.Takes us s) : r.Takes (ts ++ us) s where
  rest := by rw [h.rest, h'.rest, List.append_assoc]
  taken := by rw [h'.taken, h.taken, List.reverse_append, List.append_assoc]
  finish := h'.finish.trans h.finish
  depth := h'.depth.trans h.depth

/-- Where a reader is depends on what was taken alone. -/
theorem unique (h : r.Takes ts s) (h' : r.Takes ts s') : s = s' := by
  have hr : s.cursor.rest = s'.cursor.rest := List.append_cancel_left (h.rest.symm.trans h'.rest)
  have ht : s.cursor.taken = s'.cursor.taken := h.taken.trans h'.taken.symm
  have hf : s.cursor.finish = s'.cursor.finish := h.finish.trans h'.finish.symm
  have hd : s.depth = s'.depth := h.depth.trans h'.depth.symm
  rcases s with ⟨⟨_, _, _⟩, _⟩
  rcases s' with ⟨⟨_, _, _⟩, _⟩
  simp only at hr ht hf hd
  rw [hr, ht, hf, hd]

theorem of_rest (h : r.cursor.rest = ts ++ us) : ∃ s, r.Takes ts s ∧ s.cursor.rest = us :=
  ⟨⟨⟨ts.reverse ++ r.cursor.taken, us, r.cursor.finish⟩, r.depth⟩, ⟨h, rfl, rfl, rfl⟩, rfl⟩

theorem split (h : r.Takes (ts ++ us) s) : ∃ q, r.Takes ts q ∧ q.Takes us s := by
  have hrest : r.cursor.rest = ts ++ (us ++ s.cursor.rest) := by rw [h.rest, List.append_assoc]
  obtain ⟨q, hq, hr⟩ := of_rest hrest
  refine ⟨q, hq, hr, ?_, ?_, ?_⟩
  · rw [h.taken, hq.taken, List.reverse_append, List.append_assoc]
  · rw [h.finish, hq.finish]
  · rw [h.depth, hq.depth]

theorem uncons {p : Placed} (h : r.Takes (p :: ts) s) : ∃ q, r.Takes [p] q ∧ q.Takes ts s :=
  split h

theorem currentSpan {p : Placed} (h : r.Takes (p :: ts) s) : r.cursor.currentSpan = p.span := by
  rw [Cursor.currentSpan, h.rest]
  rfl

theorem lastEnd {p : Placed} (h : r.Takes (ts ++ [p]) s) : s.cursor.lastEnd = p.span.stop := by
  rw [Cursor.lastEnd, h.taken, List.reverse_append]
  rfl

theorem one_unique {p p' : Placed} (h : r.Takes [p] s) (h' : r.Takes [p'] s') :
    p = p' ∧ s = s' := by
  have hr := h.rest.symm.trans h'.rest
  rw [List.singleton_append, List.singleton_append, List.cons.injEq] at hr
  obtain ⟨rfl, -⟩ := hr
  exact ⟨rfl, h.unique h'⟩

theorem peek {p : Placed} (h : r.Takes (p :: ts) s) : r.cursor.peek = some p.token := by
  rw [Cursor.peek, h.rest]
  rfl

/-- What is taken one level deeper is taken, once the level is left again. -/
theorem of_deeper (h : Takes { r with depth := r.depth + 1 } ts s) :
    r.Takes ts { s with depth := s.depth - 1 } :=
  ⟨h.rest, h.taken, h.finish, by simp [h.depth]⟩

end Reader.Takes

/-- The rule reads the pieces of `grammar`, at one depth of nesting. -/
structure Recognizes {α : Type} (depth : Nat) (rule : Rule α)
    (grammar : List Placed → α → Prop) : Prop where
  sound : ∀ {r a s}, r.depth = depth → rule r = .ok a s → ∃ ts, r.Takes ts s ∧ grammar ts a
  complete : ∀ {r ts a s}, r.depth = depth → r.Takes ts s → grammar ts a → rule r = .ok a s

namespace Rule
open Reader

/-! ## Single tokens -/

theorem not_refuse_ok {α : Type} {e : Expectation} {a : α} {r s : Reader} : ¬ refuse e r = .ok a s := by
  simp [refuse]

theorem here_ok {n : Nat} {r s : Reader} :
    here r = .ok n s ↔ r.cursor.currentSpan.start = n ∧ r = s := by simp [here]

theorem spanFrom_ok {n : Nat} {span : Span} {r s : Reader} :
    spanFrom n r = .ok span s ↔ ⟨n, r.cursor.lastEnd⟩ = span ∧ r = s := by simp [spanFrom]

theorem peek_ok {t : Option Token} {r s : Reader} :
    peek r = .ok t s ↔ r.cursor.peek = t ∧ r = s := by simp [peek]

/-- The reader with its next token taken. -/
theorem takes_advance {r : Reader} {p : Placed} {us : List Placed} (h : r.cursor.rest = p :: us) :
    r.Takes [p] { r with cursor := r.cursor.advance.2 } := by
  rcases r with ⟨⟨taken, rest, finish⟩, depth⟩
  simp only at h
  subst h
  exact ⟨rfl, rfl, rfl, rfl⟩

theorem advance_ok {r s : Reader} {p : Placed} :
    advance r = .ok (some p) s ↔ r.Takes [p] s := by
  cases hr : r.cursor.rest with
  | nil =>
    constructor
    · intro h
      simp [advance, Cursor.advance, hr] at h
    · intro h
      have := h.rest
      simp [hr] at this
  | cons p' us =>
    have ht := takes_advance hr
    have ha : advance r = .ok (some p') { r with cursor := r.cursor.advance.2 } := by
      simp [advance, Cursor.advance, hr]
    rw [ha]
    constructor
    · intro h
      cases h
      exact ht
    · intro h
      obtain ⟨rfl, rfl⟩ := ht.one_unique h
      rfl

theorem rest_of_peek {r : Reader} {t : Token} (h : r.cursor.peek = some t) :
    ∃ a us, r.cursor.rest = ⟨t, a⟩ :: us := by
  obtain ⟨⟨_, a⟩, ha, rfl⟩ := Option.map_eq_some_iff.1 h
  obtain ⟨us, hrest⟩ := List.head?_eq_some_iff.1 ha
  exact ⟨a, us, hrest⟩

theorem advance_of_peek {r s : Reader} {t : Token} {o : Option Placed}
    (hp : r.cursor.peek = some t) (h : advance r = .ok o s) :
    ∃ a, o = some ⟨t, a⟩ ∧ r.Takes [⟨t, a⟩] s := by
  obtain ⟨a, us, hr⟩ := rest_of_peek hp
  have ht := takes_advance hr
  rw [advance_ok.2 ht] at h
  cases h
  exact ⟨a, rfl, ht⟩

theorem check_mark {c : Cursor} {m : Mark} :
    c.check (.mark m) = true ↔ ∃ e us, c.rest = ⟨.mark m, e⟩ :: us := by
  rw [Cursor.check, Cursor.peek]
  rcases c with ⟨taken, _ | ⟨⟨t, e⟩, us⟩, finish⟩
  · simp
  · simp [Token.sameKind_mark]

theorem eat_of_takes {r s : Reader} {m : Mark} {e : Span} (h : r.Takes [⟨.mark m, e⟩] s) :
    eat (.mark m) r = .ok true s := by
  have hc : r.cursor.check (.mark m) = true := check_mark.2 ⟨e, _, h.rest⟩
  rw [← (takes_advance h.rest).unique h, eat, Cursor.eat, hc]
  rfl

theorem eat_of_other {r s : Reader} {m : Mark} {p : Placed} {ts : List Placed}
    (h : r.Takes (p :: ts) s) (hp : p.token ≠ .mark m) : eat (.mark m) r = .ok false r := by
  have hc : r.cursor.check (.mark m) = false := by
    rw [Bool.eq_false_iff]
    intro hc
    obtain ⟨e, us, hr⟩ := check_mark.1 hc
    rw [h.rest, List.cons_append, List.cons.injEq] at hr
    exact hp (congrArg Placed.token hr.1)
  rw [eat, Cursor.eat, hc]
  rfl

theorem eat_ok {r s : Reader} {m : Mark} {b : Bool} (h : eat (.mark m) r = .ok b s) :
    (b = true ∧ ∃ e, r.Takes [⟨.mark m, e⟩] s) ∨ (b = false ∧ r = s) := by
  cases hc : r.cursor.check (.mark m) with
  | true =>
    left
    obtain ⟨e, us, hr⟩ := check_mark.1 hc
    rw [eat_of_takes (takes_advance hr)] at h
    cases h
    exact ⟨rfl, e, takes_advance hr⟩
  | false =>
    right
    rw [eat, Cursor.eat, hc] at h
    cases h
    exact ⟨rfl, rfl⟩

theorem expect_ok {r s : Reader} {m : Mark} {e : Span} :
    expect (.mark m) r = .ok e s ↔ r.Takes [⟨.mark m, e⟩] s := by
  rw [expect, Cursor.expect]
  cases hc : r.cursor.check (.mark m) with
  | true =>
    obtain ⟨e', us, hr⟩ := check_mark.1 hc
    have ht := takes_advance hr
    rw [if_pos rfl, ht.currentSpan]
    constructor
    · intro h
      cases h
      exact ht
    · intro h
      obtain ⟨hp, rfl⟩ := ht.one_unique h
      cases hp
      rfl
  | false =>
    constructor
    · intro h
      cases h
    · intro h
      rw [check_mark.2 ⟨e, _, h.rest⟩] at hc
      cases hc

/-! ## Lists -/

section
variable {α : Type} {depth : Nat} {item : Rule α} {G : List Placed → α → Prop} {close : Mark}

theorem items_sound (hi : Recognizes depth item G) {turns : Nat} {r s : Reader} {as : List α}
    (hr : r.depth = depth) (h : items close item turns r = .ok as s) :
    ∃ ts e, r.Takes (ts ++ [⟨.mark close, e⟩]) s ∧ Separated G ts as := by
  -- A turn ends with a comma, and there are more parts, or with the closing mark.
  induction turns generalizing r as with
  | zero =>
    rw [items, bind_ok] at h
    obtain ⟨_, _, -, h⟩ := h
    exact absurd h not_refuse_ok
  | succ turns ih =>
    rw [items, bind_ok] at h
    obtain ⟨a, q, ha, h⟩ := h
    obtain ⟨ts, ht, hg⟩ := hi.sound hr ha
    have hq : q.depth = depth := ht.depth.trans hr
    obtain ⟨b, q', hb, h⟩ := bind_ok.1 h
    rcases eat_ok hb with ⟨rfl, e, hc⟩ | ⟨rfl, rfl⟩
    · obtain ⟨as', s', hm, h⟩ := bind_ok.1 h
      obtain ⟨rfl, rfl⟩ := pure_ok.1 h
      obtain ⟨us, e', hu, hs⟩ := ih (hc.depth.trans hq) hm
      refine ⟨ts ++ ⟨.mark .comma, e⟩ :: us, e', ?_, .more hg hs⟩
      simpa using ht.trans (hc.trans hu)
    · obtain ⟨b, q', hb, h⟩ := bind_ok.1 h
      rcases eat_ok hb with ⟨rfl, e, hc⟩ | ⟨rfl, rfl⟩
      · obtain ⟨rfl, rfl⟩ := pure_ok.1 h
        exact ⟨ts, e, ht.trans hc, .one hg⟩
      · exact absurd h not_refuse_ok

/-- One turn more than there are tokens before the closing mark is enough. -/
theorem items_complete (hi : Recognizes depth item G) (hopen : ∀ {ts a}, G ts a → Opens ts)
    (hclose : close ≠ .comma) {ts : List Placed} {as : List α} (h : Separated G ts as)
    {turns : Nat} {r s : Reader} {e : Span} (hr : r.depth = depth) (hn : ts.length ≤ turns)
    (ht : r.Takes (ts ++ [⟨.mark close, e⟩]) s) : items close item turns r = .ok as s := by
  -- Induction on the grammar. Each part has a token, so a turn is left for each.
  induction h generalizing turns r with
  | @one ts a hg =>
    obtain ⟨p, us, rfl, -⟩ := hopen hg
    obtain ⟨turns, rfl⟩ : ∃ n, turns = n + 1 := ⟨turns - 1, by simp at hn; omega⟩
    obtain ⟨q, hq, hc⟩ := ht.split
    rw [items, bind_ok]
    refine ⟨a, q, hi.complete hr hq hg, ?_⟩
    rw [bind_ok]
    refine ⟨false, q, eat_of_other hc (by simpa using hclose), ?_⟩
    rw [if_neg (by simp), bind_ok]
    exact ⟨true, s, eat_of_takes hc, rfl⟩
  | @more ts us a as c hg _ ih =>
    obtain ⟨turns, rfl⟩ : ∃ n, turns = n + 1 := ⟨turns - 1, by simp at hn; omega⟩
    rw [List.append_assoc, List.cons_append] at ht
    obtain ⟨q, hq, ht⟩ := ht.split
    obtain ⟨q', hc, ht⟩ := ht.uncons
    have hd : q'.depth = depth := hc.depth.trans (hq.depth.trans hr)
    rw [items, bind_ok]
    refine ⟨a, q, hi.complete hr hq hg, ?_⟩
    rw [bind_ok]
    refine ⟨true, q', eat_of_takes hc, ?_⟩
    rw [if_pos rfl, bind_ok]
    exact ⟨as, s, ih hd (by simp at hn; omega) ht, rfl⟩

/-- A list is its parts and the closing mark. -/
theorem list_recognizes (hi : Recognizes depth item G) (hopen : ∀ {ts a}, G ts a → Opens ts)
    (hclose : close ≠ .comma) (hc : Token.isClosing (.mark close) = true) :
    Recognizes depth (list close item) fun ts as =>
      ∃ us e, ts = us ++ [⟨.mark close, e⟩] ∧ Listed G us as where
  sound := by
    intro r as s hr h
    obtain ⟨b, q, hb, h⟩ := bind_ok.1 h
    rcases eat_ok hb with ⟨rfl, e, ht⟩ | ⟨rfl, rfl⟩
    · obtain ⟨rfl, rfl⟩ := pure_ok.1 h
      exact ⟨_, ht, [], e, rfl, .none⟩
    · obtain ⟨ts, e, ht, hs⟩ := items_sound hi hr h
      exact ⟨_, ht, ts, e, rfl, .some hs⟩
  complete := by
    rintro r _ as s hr ht ⟨us, e, rfl, h⟩
    refine bind_ok.2 ?_
    cases h with
    | none => exact ⟨true, s, eat_of_takes ht, rfl⟩
    | some h =>
      -- No part starts with the closing mark, so the list is not taken for an empty one.
      obtain ⟨p, vs, hus, hp⟩ := h.opens hopen
      have hne : p.token ≠ .mark close := by
        intro he
        rw [he, hc] at hp
        cases hp
      have hp : r.Takes (p :: (vs ++ [⟨.mark close, e⟩])) s := by
        rw [← List.cons_append, ← hus]
        exact ht
      refine ⟨false, r, eat_of_other hp hne, ?_⟩
      refine items_complete hi hopen hclose h hr ?_ ht
      rw [ht.rest]
      simp only [List.length_append]
      omega

end

/-! ## Constructs, arrays and maps -/

section
variable {depth : Nat} {value : Rule Tree} {G : List Placed → Tree → Prop}

theorem construct_recognizes (hv : Recognizes depth value G)
    (hopen : ∀ {ts t}, G ts t → Opens ts) :
    Recognizes depth (construct value) fun ts t =>
      ∃ typeName a p e us args, Listed G us args ∧
        ts = ⟨.name typeName, a⟩ :: ⟨.mark .openParen, p⟩ :: (us ++ [⟨.mark .closeParen, e⟩]) ∧
        t = .construct typeName args ⟨a.start, e.stop⟩ where
  sound := by
    intro r t s hr h
    have hl := list_recognizes hv hopen (show Mark.closeParen ≠ .comma by simp) rfl
    obtain ⟨n, r', hn, h⟩ := bind_ok.1 h
    obtain ⟨rfl, rfl⟩ := here_ok.1 hn
    obtain ⟨o, q, ho, h⟩ := bind_ok.1 h
    split at h
    · next typeName a =>
      have ha := advance_ok.1 ho
      obtain ⟨b, q', hb, h⟩ := bind_ok.1 h
      rcases eat_ok hb with ⟨rfl, p, hp⟩ | ⟨rfl, rfl⟩
      · obtain ⟨args, q'', hargs, h⟩ := bind_ok.1 h
        obtain ⟨span, s', hspan, h⟩ := bind_ok.1 h
        obtain ⟨rfl, rfl⟩ := spanFrom_ok.1 hspan
        obtain ⟨rfl, rfl⟩ := pure_ok.1 h
        obtain ⟨_, ht, us, e, rfl, hus⟩ := hl.sound (hp.depth.trans (ha.depth.trans hr)) hargs
        refine ⟨_, ha.trans (hp.trans ht), typeName, a, p, e, us, args, hus, by simp, ?_⟩
        rw [ha.currentSpan, ht.lastEnd]
      · obtain ⟨_, _, hu, -⟩ := bind_ok.1 h
        exact absurd hu not_refuse_ok
    · exact absurd h not_refuse_ok
  complete := by
    rintro r _ t s hr ht ⟨typeName, a, p, e, us, args, hus, rfl, rfl⟩
    have hl := list_recognizes hv hopen (show Mark.closeParen ≠ .comma by simp) rfl
    obtain ⟨q, ha, ht'⟩ := ht.uncons
    obtain ⟨q', hp, hlist⟩ := ht'.uncons
    refine bind_ok.2 ⟨_, r, here_ok.2 ⟨rfl, rfl⟩, ?_⟩
    refine bind_ok.2 ⟨_, q, advance_ok.2 ha, ?_⟩
    refine bind_ok.2 ⟨true, q', eat_of_takes hp, ?_⟩
    refine bind_ok.2 ⟨args, s, hl.complete (hp.depth.trans (ha.depth.trans hr)) hlist
      ⟨us, e, rfl, hus⟩, ?_⟩
    refine bind_ok.2 ⟨_, s, spanFrom_ok.2 ⟨rfl, rfl⟩, ?_⟩
    rw [ht.currentSpan, hlist.lastEnd]
    rfl

/-- Arrays and maps: an opening mark, a list, and a node made of both. -/
theorem enclosed_recognizes {α : Type} {item : Rule α} {H : List Placed → α → Prop}
    {openMark close : Mark} (node : List α → Span → Tree) (hi : Recognizes depth item H)
    (hopen : ∀ {ts a}, H ts a → Opens ts) (hclose : close ≠ .comma)
    (hc : Token.isClosing (.mark close) = true) :
    Recognizes depth (do
      let opening ← expect (.mark openMark)
      let as ← list close item
      return node as (← spanFrom opening.start)) fun ts t =>
        ∃ a e us as, Listed H us as ∧
          ts = ⟨.mark openMark, a⟩ :: (us ++ [⟨.mark close, e⟩]) ∧
          t = node as ⟨a.start, e.stop⟩ where
  sound := by
    intro r t s hr h
    obtain ⟨a, q, ha, h⟩ := bind_ok.1 h
    have ha := expect_ok.1 ha
    obtain ⟨as, q', has, h⟩ := bind_ok.1 h
    obtain ⟨span, s', hspan, h⟩ := bind_ok.1 h
    obtain ⟨rfl, rfl⟩ := spanFrom_ok.1 hspan
    obtain ⟨rfl, rfl⟩ := pure_ok.1 h
    obtain ⟨_, ht, us, e, rfl, hus⟩ :=
      (list_recognizes hi hopen hclose hc).sound (ha.depth.trans hr) has
    refine ⟨_, ha.trans ht, a, e, us, as, hus, rfl, ?_⟩
    rw [ht.lastEnd]
  complete := by
    rintro r _ t s hr ht ⟨a, e, us, as, hus, rfl, rfl⟩
    have hl := list_recognizes hi hopen hclose hc
    obtain ⟨q, ha, hlist⟩ := ht.uncons
    refine bind_ok.2 ⟨a, q, expect_ok.2 ha, ?_⟩
    refine bind_ok.2 ⟨as, s, hl.complete (ha.depth.trans hr) hlist ⟨us, e, rfl, hus⟩, ?_⟩
    refine bind_ok.2 ⟨_, s, spanFrom_ok.2 ⟨rfl, rfl⟩, ?_⟩
    rw [hlist.lastEnd]
    rfl

theorem array_recognizes (hv : Recognizes depth value G) (hopen : ∀ {ts t}, G ts t → Opens ts) :
    Recognizes depth (array value) fun ts t =>
      ∃ a e us items, Listed G us items ∧
        ts = ⟨.mark .openBracket, a⟩ :: (us ++ [⟨.mark .closeBracket, e⟩]) ∧
        t = .array items ⟨a.start, e.stop⟩ :=
  enclosed_recognizes Tree.array hv hopen (by simp) rfl

theorem entry_recognizes (hv : Recognizes depth value G) :
    Recognizes depth (entry value) (Entry G) where
  sound := by
    intro r e s hr h
    obtain ⟨o, r', ho, h⟩ := bind_ok.1 h
    obtain ⟨hp, rfl⟩ := peek_ok.1 ho
    split at h
    · next written key quote =>
      obtain ⟨o, q, ho, h⟩ := bind_ok.1 h
      obtain ⟨a, -, hk⟩ := advance_of_peek hp ho
      obtain ⟨c, q', hc, h⟩ := bind_ok.1 h
      have hc := expect_ok.1 hc
      obtain ⟨t, s', ht, h⟩ := bind_ok.1 h
      obtain ⟨rfl, rfl⟩ := pure_ok.1 h
      obtain ⟨us, hu, hg⟩ := hv.sound (hc.depth.trans (hk.depth.trans hr)) ht
      exact ⟨_, hk.trans (hc.trans hu), .mk hg⟩
    · exact absurd h not_refuse_ok
  complete := by
    rintro r _ _ s hr ht ⟨h⟩
    obtain ⟨q, hk, ht'⟩ := ht.uncons
    obtain ⟨q', hc, hv'⟩ := ht'.uncons
    refine bind_ok.2 ⟨_, r, peek_ok.2 ⟨ht.peek, rfl⟩, ?_⟩
    refine bind_ok.2 ⟨_, q, advance_ok.2 hk, ?_⟩
    refine bind_ok.2 ⟨_, q', expect_ok.2 hc, ?_⟩
    refine bind_ok.2 ⟨_, s, hv.complete (hc.depth.trans (hk.depth.trans hr)) hv' h, rfl⟩

theorem map_recognizes (hv : Recognizes depth value G) :
    Recognizes depth (map value) fun ts t =>
      ∃ a e us entries, Listed (Entry G) us entries ∧
        ts = ⟨.mark .openBrace, a⟩ :: (us ++ [⟨.mark .closeBrace, e⟩]) ∧
        t = .map entries ⟨a.start, e.stop⟩ :=
  enclosed_recognizes Tree.map (entry_recognizes hv) Entry.opens (by simp) rfl

end

/-! ## Values -/

/-- A value nested at most so deep. -/
def Within (levels : Nat) (ts : List Placed) (t : Tree) : Prop := Derives ts t ∧ t.depth ≤ levels

theorem listed_within {levels : Nat} {ts : List Placed} {as : List Tree} :
    Listed (Within levels) ts as ↔ Listed Derives ts as ∧ ∀ a ∈ as, a.depth ≤ levels := by
  constructor
  · intro h
    refine ⟨h.imp fun _ _ _ ha => ha.1, fun a ha => ?_⟩
    obtain ⟨us, hu, -⟩ := h.of_mem ha
    exact hu.2
  · rintro ⟨h, hd⟩
    exact h.imp fun _ a ha hg => ⟨hg, hd a ha⟩

theorem listed_entry_within {levels : Nat} {ts : List Placed} {es : List (String × Tree)} :
    Listed (Entry (Within levels)) ts es ↔
      Listed (Entry Derives) ts es ∧ ∀ e ∈ es, e.2.depth ≤ levels := by
  constructor
  · intro h
    refine ⟨h.imp fun _ _ _ ⟨ha⟩ => ⟨ha.1⟩, fun e he => ?_⟩
    obtain ⟨us, ⟨hu⟩, -⟩ := h.of_mem he
    exact hu.2
  · rintro ⟨h, hd⟩
    exact h.imp fun _ e he ⟨hg⟩ => ⟨hg, hd _ he⟩

theorem nested_ok {α : Type} {limit : Nat} {rule : Rule α} {r s : Reader} {a : α} :
    nested limit rule r = .ok a s ↔ r.depth < limit ∧
      ∃ q, rule { r with depth := r.depth + 1 } = .ok a q ∧ s = { q with depth := q.depth - 1 } := by
  rw [nested]
  split
  · next h => exact ⟨fun h' => absurd h' not_refuse_ok, fun h' => absurd h'.1 (by omega)⟩
  · next h =>
    cases rule { r with depth := r.depth + 1 } with
    | ok b q =>
      constructor
      · intro h'
        cases h'
        exact ⟨by omega, q, rfl, rfl⟩
      · rintro ⟨-, q', h', rfl⟩
        cases h'
        rfl
    | error e q =>
      constructor
      · intro h'
        cases h'
      · rintro ⟨-, q', h', -⟩
        cases h'

theorem nested_recognizes {α : Type} {limit depth : Nat} {rule : Rule α}
    {G : List Placed → α → Prop} (hd : depth < limit) (h : Recognizes (depth + 1) rule G) :
    Recognizes depth (nested limit rule) G where
  sound := by
    intro r a s hr ha
    obtain ⟨-, q, hq, rfl⟩ := nested_ok.1 ha
    obtain ⟨ts, ht, hg⟩ := h.sound (by simp [hr]) hq
    exact ⟨ts, ht.of_deeper, hg⟩
  complete := by
    intro r ts a s hr ht hg
    have ht' : Takes { r with depth := r.depth + 1 } ts { s with depth := s.depth + 1 } :=
      ⟨ht.rest, ht.taken, ht.finish, by simp [ht.depth]⟩
    exact nested_ok.2 ⟨by omega, _, h.complete (by simp [hr]) ht' hg, rfl⟩

theorem literal_recognizes {depth : Nat} :
    Recognizes depth literal fun ts t => Derives ts t ∧ ∃ l, t = .literal l where
  sound := by
    intro r t s hr h
    obtain ⟨o, q, ho, h⟩ := bind_ok.1 h
    rcases o with _ | ⟨token, a⟩
    · exact absurd h not_refuse_ok
    have ha := advance_ok.1 ho
    cases token with
    | boolean b =>
      obtain ⟨rfl, rfl⟩ := pure_ok.1 h
      exact ⟨_, ha, .boolean, _, rfl⟩
    | quoted written text quote =>
      obtain ⟨rfl, rfl⟩ := pure_ok.1 h
      exact ⟨_, ha, .string, _, rfl⟩
    | number numeral =>
      cases hl : Literal.ofNumeral numeral.toList with
      | ok l =>
        simp only [hl] at h
        obtain ⟨rfl, rfl⟩ := pure_ok.1 h
        exact ⟨_, ha, .number hl, _, rfl⟩
      | error e =>
        simp only [hl] at h
        cases h
    | name path => cases h
    | raw written content => cases h
    | mark m => cases h
  complete := by
    rintro r ts _ s hr ht ⟨h, l, rfl⟩
    cases h with
    | string => exact bind_ok.2 ⟨_, s, advance_ok.2 ht, rfl⟩
    | boolean => exact bind_ok.2 ⟨_, s, advance_ok.2 ht, rfl⟩
    | number hn =>
      refine bind_ok.2 ⟨_, s, advance_ok.2 ht, ?_⟩
      simp only [hn]
      rfl

theorem raw_recognizes {depth : Nat} :
    Recognizes depth raw fun ts t => Derives ts t ∧ t.isRaw = true where
  sound := by
    intro r t s hr h
    obtain ⟨o, q, ho, h⟩ := bind_ok.1 h
    split at h
    · obtain ⟨rfl, rfl⟩ := pure_ok.1 h
      exact ⟨_, advance_ok.1 ho, .raw, rfl⟩
    · exact absurd h not_refuse_ok
  complete := by
    rintro r ts t s hr ht ⟨h, hraw⟩
    cases h with
    | raw => exact bind_ok.2 ⟨_, s, advance_ok.2 ht, rfl⟩
    | _ => cases hraw

/-- One more level around parts that are recognized. At the limit there are no parts to read. -/
theorem valueOf_recognizes {limit depth levels : Nat} {part : Rule Tree}
    (hd : depth + levels = limit)
    (hp : ∀ n, levels = n + 1 → Recognizes (depth + 1) part (Within n)) :
    Recognizes depth (valueOf limit part) (Within levels) where
  sound := by
    intro r t s hr h
    -- One case for each token that the rule looks for.
    obtain ⟨o, r', ho, h⟩ := bind_ok.1 h
    obtain ⟨-, rfl⟩ := peek_ok.1 ho
    have hopen : ∀ {n ts t}, Within n ts t → Opens ts := fun h => h.1.opens
    split at h
    · obtain ⟨hlt, -⟩ := nested_ok.1 h
      obtain ⟨n, rfl⟩ : ∃ n, levels = n + 1 := ⟨levels - 1, by omega⟩
      obtain ⟨ts, ht, _, _, _, _, _, _, hl, rfl, rfl⟩ :=
        (nested_recognizes (by omega) (construct_recognizes (hp n rfl) hopen)).sound hr h
      obtain ⟨hl, hdep⟩ := listed_within.1 hl
      exact ⟨_, ht, .construct hl, Tree.depth_construct_le.2 hdep⟩
    · obtain ⟨hlt, -⟩ := nested_ok.1 h
      obtain ⟨n, rfl⟩ : ∃ n, levels = n + 1 := ⟨levels - 1, by omega⟩
      obtain ⟨ts, ht, _, _, _, _, hl, rfl, rfl⟩ :=
        (nested_recognizes (by omega) (array_recognizes (hp n rfl) hopen)).sound hr h
      obtain ⟨hl, hdep⟩ := listed_within.1 hl
      exact ⟨_, ht, .array hl, Tree.depth_array_le.2 hdep⟩
    · obtain ⟨hlt, -⟩ := nested_ok.1 h
      obtain ⟨n, rfl⟩ : ∃ n, levels = n + 1 := ⟨levels - 1, by omega⟩
      obtain ⟨ts, ht, _, _, _, _, hl, rfl, rfl⟩ :=
        (nested_recognizes (by omega) (map_recognizes (hp n rfl))).sound hr h
      obtain ⟨hl, hdep⟩ := listed_entry_within.1 hl
      exact ⟨_, ht, .map hl, Tree.depth_map_le.2 hdep⟩
    · obtain ⟨ts, ht, hg, l, rfl⟩ := literal_recognizes.sound hr h
      exact ⟨ts, ht, hg, Nat.zero_le _⟩
    · obtain ⟨ts, ht, hg, l, rfl⟩ := literal_recognizes.sound hr h
      exact ⟨ts, ht, hg, Nat.zero_le _⟩
    · obtain ⟨ts, ht, hg, l, rfl⟩ := literal_recognizes.sound hr h
      exact ⟨ts, ht, hg, Nat.zero_le _⟩
    · obtain ⟨ts, ht, hg, hraw⟩ := raw_recognizes.sound hr h
      cases hg with
      | raw => exact ⟨_, ht, .raw, Nat.zero_le _⟩
      | _ => cases hraw
    · exact absurd h not_refuse_ok
  complete := by
    rintro r ts t s hr ht ⟨h, hdep⟩
    have hopen : ∀ {n ts t}, Within n ts t → Opens ts := fun h => h.1.opens
    refine bind_ok.2 ?_
    -- What is derived starts with the token that its own rule is chosen by.
    cases h with
    | construct hl =>
      obtain ⟨n, rfl, hparts⟩ := Tree.levels_of_construct hdep
      refine ⟨_, r, peek_ok.2 ⟨ht.peek, rfl⟩, ?_⟩
      exact (nested_recognizes (by omega) (construct_recognizes (hp n rfl) hopen)).complete hr ht
        ⟨_, _, _, _, _, _, listed_within.2 ⟨hl, hparts⟩, rfl, rfl⟩
    | array hl =>
      obtain ⟨n, rfl, hparts⟩ := Tree.levels_of_array hdep
      refine ⟨_, r, peek_ok.2 ⟨ht.peek, rfl⟩, ?_⟩
      exact (nested_recognizes (by omega) (array_recognizes (hp n rfl) hopen)).complete hr ht
        ⟨_, _, _, _, listed_within.2 ⟨hl, hparts⟩, rfl, rfl⟩
    | map hl =>
      obtain ⟨n, rfl, hparts⟩ := Tree.levels_of_map hdep
      refine ⟨_, r, peek_ok.2 ⟨ht.peek, rfl⟩, ?_⟩
      exact (nested_recognizes (by omega) (map_recognizes (hp n rfl))).complete hr ht
        ⟨_, _, _, _, listed_entry_within.2 ⟨hl, hparts⟩, rfl, rfl⟩
    | string =>
      refine ⟨_, r, peek_ok.2 ⟨ht.peek, rfl⟩, ?_⟩
      exact literal_recognizes.complete hr ht ⟨.string, _, rfl⟩
    | boolean =>
      refine ⟨_, r, peek_ok.2 ⟨ht.peek, rfl⟩, ?_⟩
      exact literal_recognizes.complete hr ht ⟨.boolean, _, rfl⟩
    | number hn =>
      refine ⟨_, r, peek_ok.2 ⟨ht.peek, rfl⟩, ?_⟩
      exact literal_recognizes.complete hr ht ⟨.number hn, _, rfl⟩
    | raw =>
      refine ⟨_, r, peek_ok.2 ⟨ht.peek, rfl⟩, ?_⟩
      exact raw_recognizes.complete hr ht ⟨.raw, rfl⟩

theorem valueWithin_recognizes {limit levels depth : Nat} (hd : depth + levels = limit) :
    Recognizes depth (valueWithin limit levels) (Within levels) := by
  induction levels generalizing depth with
  | zero => exact valueOf_recognizes hd fun n hn => nomatch hn
  | succ levels ih =>
    refine valueOf_recognizes hd fun n hn => ?_
    cases hn
    exact ih (by omega)

theorem value_recognizes (limit : Nat) : Recognizes 0 (value limit) (Within limit) := by
  have hw := valueWithin_recognizes (Nat.zero_add limit)
  refine ⟨fun {r a s} hr h => ?_, fun {r ts a s} hr ht hg => ?_⟩
  · rw [value, hr, Nat.sub_zero] at h
    exact hw.sound hr h
  · rw [value, hr, Nat.sub_zero]
    exact hw.complete hr ht hg

end Rule

end ObjectSpec
