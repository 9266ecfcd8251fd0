import ObjectSpec.Proofs.Grammar.Congruence
import ObjectSpec.Proofs.Grammar.Stopping

/-!
# Rules go forward

A rule never goes back. What it leaves are the last of the tokens that it found, and its
error stands at one of these or where the text ends. That carries over from the steps of
a rule to the rule (`forward_congruence`).
-/

namespace ObjectSpec.Rule

open Reader

/-- What a rule comes to is at the tokens `us` or behind them. -/
def Ahead {α : Type} (us : List Placed) (finish : Nat) :
    EStateM.Result SyntaxError Reader α → Prop
  | .ok _ s => s.cursor.rest <:+ us ∧ s.cursor.finish = finish
  | .error e _ => ∃ vs, vs <:+ us ∧ e.offset = startOf vs finish

/-- Wherever it is read from, the rule comes to something ahead. -/
def Forward {α : Type} (x : Rule α) : Prop := ∀ r, Ahead r.cursor.rest r.cursor.finish (x r)

section
variable {α β : Type} {us vs : List Placed} {finish : Nat}

theorem Ahead.mono {y : EStateM.Result SyntaxError Reader α} (h : Ahead vs finish y)
    (hs : vs <:+ us) : Ahead us finish y := by
  cases y with
  | ok a s => exact ⟨h.1.trans hs, h.2⟩
  | error e s =>
    obtain ⟨ws, hws, ho⟩ := h
    exact ⟨ws, hws.trans hs, ho⟩

/-- What comes next goes on ahead. -/
theorem Ahead.bind {x : Rule α} {f : α → Rule β} {r : Reader} (h : Ahead us finish (x r))
    (hf : ∀ a, Forward (f a)) : Ahead us finish ((x >>= f) r) := by
  cases hx : x r with
  | error e s =>
    rw [hx] at h
    rw [bind_of_error hx]
    exact h
  | ok a s =>
    rw [hx] at h
    obtain ⟨hrest, rfl⟩ := h
    rw [bind_of_ok hx]
    exact (hf a s).mono hrest

theorem Forward.bind {x : Rule α} {f : α → Rule β} (hx : Forward x) (hf : ∀ a, Forward (f a)) :
    Forward (x >>= f) := fun r => (hx r).bind hf

/-! ## Single tokens -/

theorem forward_pure (a : α) : Forward (pure a : Rule α) := fun _ => ⟨List.suffix_rfl, rfl⟩

theorem forward_refuse (expected : Expectation) : Forward (refuse expected : Rule α) :=
  fun r => ⟨r.cursor.rest, List.suffix_rfl, r.cursor.startOf_rest.symm⟩

theorem forward_peek : Forward peek := fun _ => ⟨List.suffix_rfl, rfl⟩

theorem forward_here : Forward here := fun _ => ⟨List.suffix_rfl, rfl⟩

theorem forward_spanFrom (start : Nat) : Forward (spanFrom start) :=
  fun _ => ⟨List.suffix_rfl, rfl⟩

theorem rest_advance_suffix (c : Cursor) :
    c.advance.2.rest <:+ c.rest ∧ c.advance.2.finish = c.finish := by
  rcases c with ⟨taken, _ | ⟨t, rest⟩, finish⟩
  · exact ⟨List.suffix_rfl, rfl⟩
  · exact ⟨List.suffix_cons t rest, rfl⟩

theorem forward_advance : Forward advance := fun r => rest_advance_suffix r.cursor

theorem forward_eat (t : Token) : Forward (eat t) := by
  intro r
  rw [eat, Cursor.eat]
  cases r.cursor.check t with
  | true => exact rest_advance_suffix r.cursor
  | false => exact ⟨List.suffix_rfl, rfl⟩

theorem forward_expect (t : Token) : Forward (expect t) := by
  intro r
  rw [expect, Cursor.expect]
  cases r.cursor.check t with
  | true => exact rest_advance_suffix r.cursor
  | false => exact ⟨r.cursor.rest, List.suffix_rfl, r.cursor.startOf_rest.symm⟩

end

/-! ## Values -/

/-- The error of a literal stands at the token that it has taken. -/
theorem forward_literal : Forward literal := by
  intro r
  cases hrest : r.cursor.rest with
  | nil =>
    have hnone : advance r = .ok none r := by simp [advance, Cursor.advance, hrest]
    rw [← hrest, literal, bind_of_ok hnone]
    exact forward_refuse _ r
  | cons p us =>
    have ht := takes_advance hrest
    have hleft : us = ({ r with cursor := r.cursor.advance.2 } : Reader).cursor.rest := by
      simpa [hrest] using ht.rest
    rw [literal, bind_of_ok (advance_ok.2 ht)]
    have hpure : ∀ t, Ahead (p :: us) r.cursor.finish ((pure t : Rule Tree)
        { r with cursor := r.cursor.advance.2 }) :=
      fun t => ⟨hleft ▸ List.suffix_cons p us, ht.finish⟩
    have hthrow : ∀ expected found, Ahead (p :: us) r.cursor.finish
        ((throw ⟨p.span.start, expected, found⟩ : Rule Tree)
          { r with cursor := r.cursor.advance.2 }) :=
      fun _ _ => ⟨p :: us, List.suffix_rfl, rfl⟩
    obtain ⟨token, a⟩ := p
    cases token with
    | boolean b => exact hpure _
    | quoted written text quote => exact hpure _
    | number numeral =>
      dsimp only
      cases Literal.ofNumeral numeral.toList with
      | ok l => exact hpure _
      | error expected => exact hthrow _ _
    | name path => exact hthrow _ _
    | raw written content => exact hthrow _ _
    | mark m => exact hthrow _ _

theorem nested_of_error {α : Type} {limit : Nat} {x : Rule α} {r q : Reader} {e : SyntaxError}
    (hlt : r.depth < limit) (h : x { r with depth := r.depth + 1 } = .error e q) :
    nested limit x r = .error e { q with depth := q.depth - 1 } := by
  rw [nested, if_neg (Nat.not_le.2 hlt), h]

theorem Ahead.nested {α : Type} {limit : Nat} {x : Rule α} {r : Reader} {us : List Placed}
    {finish : Nat} (hlt : r.depth < limit)
    (h : Ahead us finish (x { r with depth := r.depth + 1 })) :
    Ahead us finish (Rule.nested limit x r) := by
  cases hx : x { r with depth := r.depth + 1 } with
  | ok a s =>
    rw [hx] at h
    rw [nested_ok.2 ⟨hlt, s, hx, rfl⟩]
    exact h
  | error e s =>
    rw [hx] at h
    rw [nested_of_error hlt hx]
    exact h

theorem forward_nested {α : Type} {x : Rule α} (hx : Forward x) (limit : Nat) :
    Forward (nested limit x) := by
  intro r
  rcases Nat.lt_or_ge r.depth limit with hlt | hge
  · exact (hx { r with depth := r.depth + 1 }).nested hlt
  · rw [nested, if_pos hge]
    exact forward_refuse _ r

/-- To go forward carries over from the steps to the rules. -/
theorem forward_congruence : Congruence fun _ _ x _ => Forward x where
  pure := forward_pure
  bind := Forward.bind
  reading := fun h r => h r r
  refuse := forward_refuse
  peek := forward_peek
  here := forward_here
  spanFrom := forward_spanFrom
  advance := forward_advance
  eat := forward_eat
  expect := forward_expect
  literal := forward_literal
  nested := fun limit hx => forward_nested hx limit

variable {part : Rule Tree}

theorem forward_items {α : Type} {item : Rule α} (hi : Forward item) (close : Mark) (turns : Nat) :
    Forward (items close item turns) :=
  forward_congruence.items (d := 0) (y := item) hi turns

theorem forward_entry (hp : Forward part) : Forward (entry part) :=
  forward_congruence.entry (d := 0) (y := part) hp

theorem forward_valueWithin (limit levels : Nat) : Forward (valueWithin limit levels) :=
  forward_congruence.valueWithin (d := 0) limit levels

/-! ## Rules behind their first token -/

/-- A construct takes its name, whatever comes behind it. -/
theorem ahead_construct (hp : Forward part) {r : Reader} {path : String} {a : Span}
    {us : List Placed} (hrest : r.cursor.rest = ⟨.name path, a⟩ :: us) :
    Ahead us r.cursor.finish (construct part r) := by
  have hrow : r.cursor.rest = [⟨.name path, a⟩] ++ us := hrest
  obtain ⟨q, ht, rfl⟩ := Takes.of_rest hrow
  rw [construct, bind_of_ok (here_ok.2 ⟨rfl, rfl⟩), bind_of_ok (advance_ok.2 ht), ← ht.finish]
  exact forward_congruence.arguments (d := 0) (y := part) hp path _ q

/-- Arrays and maps take their opening mark. -/
theorem ahead_bracketed {α : Type} {item : Rule α} {openMark close : Mark}
    (node : List α → Span → Tree) (hf : Forward item) {r : Reader} {a : Span} {us : List Placed}
    (hrest : r.cursor.rest = ⟨.mark openMark, a⟩ :: us) :
    Ahead us r.cursor.finish ((do
      let opening ← expect (.mark openMark)
      let as ← list close item
      return node as (← spanFrom opening.start) : Rule Tree) r) := by
  have hrow : r.cursor.rest = [⟨.mark openMark, a⟩] ++ us := hrest
  obtain ⟨q, ht, rfl⟩ := Takes.of_rest hrow
  rw [bind_of_ok (expect_ok.2 ht), ← ht.finish]
  exact forward_congruence.enclosed (d := 0) (y := item) hf _ node _ q

end ObjectSpec.Rule
