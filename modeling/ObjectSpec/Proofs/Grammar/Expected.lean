import ObjectSpec.Proofs.Double.Notation
import ObjectSpec.Proofs.Grammar.Fault
import ObjectSpec.Proofs.Grammar.Forward
import ObjectSpec.Proofs.Token.Words

/-!
# What the reader can expect

A rule that stops says what it expects, and there is not much that it can say: `Raised` lists
it. What stands in front of a rule decides which of its errors are possible, so that a rule is
looked at where it is used, with the token that it was chosen for. Besides, a name in an error is
one of the text, and those are type names.
-/

namespace ObjectSpec

/-- All that an error of the reader says is expected. -/
inductive Expectation.Raised (limit : Nat) : Expectation → Prop
  | value : Raised limit .value
  | endOfInput : Raised limit .endOfInput
  | nesting : Raised limit (.nesting limit)
  | arguments {typeName} : Token.IsTypeName typeName → Raised limit (.arguments typeName)
  | separator {close} : Token.isClosing (.mark close) = true → Raised limit (.separator close)
  | key : Raised limit .key
  | colon : Raised limit (.token (.mark .colon))
  | wholeLong : Raised limit .wholeLong
  | wideInteger : Raised limit .wideInteger
  | finiteDouble : Raised limit .finiteDouble
  | narrowInteger : Raised limit .narrowInteger

theorem Literal.raised_of_ofNumeral {numeral : List Char} {expected : Expectation} (limit : Nat)
    (h : ofNumeral numeral = .error expected) : expected.Raised limit := by
  have houtcome := outcome_ofNumeral numeral
  rw [h] at houtcome
  cases houtcome with
  | wholeLong => exact .wholeLong
  | wideInteger => exact .wideInteger
  | finiteDouble => exact .finiteDouble
  | narrowInteger => exact .narrowInteger

/-- The tokens to come are such as a text can have. -/
def Reader.WellFormed (r : Reader) : Prop := ∀ p ∈ r.cursor.rest, p.token.WellFormed

namespace Rule

open Reader

section
variable {α β : Type} {limit : Nat} {r q : Reader}

theorem Forward.wellFormed {x : Rule α} (hx : Forward x) {a : α} (h : x r = .ok a q)
    (hr : r.WellFormed) : q.WellFormed := by
  have hahead := hx r
  rw [h] at hahead
  exact fun p hp => hr p (hahead.1.mem hp)

/-- What the rule says if it stops. -/
def Raises (limit : Nat) (x : Rule α) (r : Reader) : Prop :=
  ∀ e s, x r = .error e s → e.expected.Raised limit

theorem Raises.bind {x : Rule α} {f : α → Rule β} (hx : Raises limit x r)
    (hf : ∀ a q, x r = .ok a q → Raises limit (f a) q) : Raises limit (x >>= f) r := by
  intro e s h
  rcases bind_error h with h | ⟨a, q, ha, h⟩
  · exact hx e s h
  · exact hf a q ha e s h

/-- Behind a first step that only goes forward the tokens are still such as a text can have. -/
theorem Raises.step {x : Rule α} {f : α → Rule β} (hr : r.WellFormed) (hx : Raises limit x r)
    (hforward : Forward x) (hf : ∀ a q, q.WellFormed → Raises limit (f a) q) :
    Raises limit (x >>= f) r :=
  hx.bind fun a q ha => hf a q (hforward.wellFormed ha hr)

theorem Quiet.raises {x : Rule α} (hx : Quiet x) : Raises limit x r :=
  fun e s h => absurd h (hx r e s)

theorem raises_refuse {expected : Expectation} (h : expected.Raised limit) :
    Raises limit (refuse expected : Rule α) r := by
  intro e s he
  cases he
  exact h

/-- A colon that is missing is asked for. -/
theorem raises_colon : Raises limit (expect (.mark .colon)) r := by
  intro e s h
  rw [expect, Cursor.expect] at h
  cases hc : r.cursor.check (.mark .colon) with
  | true =>
    rw [hc] at h
    cases h
  | false =>
    rw [hc] at h
    cases h
    exact .colon

/-- A mark that comes next is not asked for. -/
theorem raises_expect {m : Mark} (hp : r.cursor.peek = some (.mark m)) :
    Raises limit (expect (.mark m)) r := by
  intro e s h
  obtain ⟨a, us, hrest⟩ := rest_of_peek hp
  rw [expect_ok.2 (takes_advance hrest)] at h
  cases h

/-! ## Lists -/

variable {item : Rule α} {close : Mark}

theorem raises_items (hi : ∀ r, r.WellFormed → Raises limit item r) (hf : Forward item)
    (hclose : Token.isClosing (.mark close) = true) (turns : Nat) :
    ∀ r, r.WellFormed → Raises limit (items close item turns) r := by
  induction turns with
  | zero => exact fun r hr => (hi r hr).bind fun _ _ _ => raises_refuse (.separator hclose)
  | succ turns ih =>
    intro r hr
    refine .step hr (hi r hr) hf fun first q hq => ?_
    refine .step hq (quiet_eat _).raises (forward_eat _) fun comma q hq => ?_
    cases comma with
    | true => exact (ih q hq).bind fun _ _ _ => (quiet_pure _).raises
    | false =>
      refine (quiet_eat _).raises.bind fun closed q _ => ?_
      cases closed with
      | true => exact (quiet_pure _).raises
      | false => exact raises_refuse (.separator hclose)

theorem raises_list (hi : ∀ r, r.WellFormed → Raises limit item r) (hf : Forward item)
    (hclose : Token.isClosing (.mark close) = true) (hr : r.WellFormed) :
    Raises limit (list close item) r := by
  refine .step hr (quiet_eat _).raises (forward_eat _) fun closed q hq => ?_
  cases closed with
  | true => exact (quiet_pure _).raises
  | false => exact raises_items hi hf hclose _ q hq

/-- A list and a node made of it. -/
theorem raises_enclosed (hi : ∀ r, r.WellFormed → Raises limit item r) (hf : Forward item)
    (hclose : Token.isClosing (.mark close) = true) (hr : r.WellFormed)
    (node : List α → Span → Tree) (start : Nat) :
    Raises limit (do
      let as ← list close item
      return node as (← spanFrom start)) r :=
  (raises_list hi hf hclose hr).bind fun _ _ _ =>
    ((quiet_spanFrom _).bind fun _ => quiet_pure _).raises

end

/-! ## Values -/

section
variable {limit : Nat} {r : Reader} {part : Rule Tree}

theorem raises_construct (hp : ∀ r, r.WellFormed → Raises limit part r) (hf : Forward part)
    (hr : r.WellFormed) {path : String} (hpeek : r.cursor.peek = some (.name path)) :
    Raises limit (construct part) r := by
  refine quiet_here.raises.bind fun start r' hstart => ?_
  obtain ⟨-, rfl⟩ := here_ok.1 hstart
  refine quiet_advance.raises.bind fun o q ho => ?_
  have hq : q.WellFormed := forward_advance.wellFormed ho hr
  obtain ⟨a, rfl, ha⟩ := advance_of_peek hpeek ho
  have hname : Token.IsTypeName path := hr ⟨.name path, a⟩ (by rw [ha.rest]; simp)
  refine .step hq (quiet_eat _).raises (forward_eat _) fun opened q' hq' => ?_
  cases opened with
  | true => exact raises_enclosed hp hf rfl hq' _ _
  | false =>
    exact (raises_refuse (.arguments hname)).bind fun _ _ h => absurd h not_refuse_ok

/-- Arrays and maps: an opening mark, a list, and a node made of both. -/
theorem raises_bracketed {α : Type} {item : Rule α} {openMark close : Mark}
    (node : List α → Span → Tree) (hi : ∀ r, r.WellFormed → Raises limit item r)
    (hf : Forward item) (hclose : Token.isClosing (.mark close) = true) (hr : r.WellFormed)
    (hpeek : r.cursor.peek = some (.mark openMark)) :
    Raises limit (do
      let opening ← expect (.mark openMark)
      let as ← list close item
      return node as (← spanFrom opening.start)) r :=
  .step hr (raises_expect hpeek) (forward_expect _) fun _ _ hq =>
    raises_enclosed hi hf hclose hq node _

theorem raises_entry (hp : ∀ r, r.WellFormed → Raises limit part r) (hr : r.WellFormed) :
    Raises limit (entry part) r := by
  refine .step hr quiet_peek.raises forward_peek fun o q hq => ?_
  split
  · refine .step hq quiet_advance.raises forward_advance fun _ q hq => ?_
    refine .step hq raises_colon (forward_expect _) fun _ q hq => ?_
    exact (hp q hq).bind fun _ _ _ => (quiet_pure _).raises
  · exact raises_refuse .key

/-- A literal is refused for its numeral alone. -/
theorem raises_literal {t : Token}
    (hkind : (∃ numeral, t = .number numeral) ∨ (∃ b, t = .boolean b) ∨ IsQuotation t)
    (hpeek : r.cursor.peek = some t) : Raises limit literal r := by
  intro e s h
  obtain ⟨numeral, expected, -, hl, rfl⟩ := literal_error hkind hpeek h
  exact Literal.raised_of_ofNumeral limit hl

theorem raises_raw {written content : String} (hpeek : r.cursor.peek = some (.raw written content)) :
    Raises limit raw r := by
  refine quiet_advance.raises.bind fun o q ho => ?_
  obtain ⟨a, rfl, -⟩ := advance_of_peek hpeek ho
  exact (quiet_pure _).raises

theorem raises_nested {x : Rule Tree}
    (hx : Raises limit x { r with depth := r.depth + 1 }) : Raises limit (nested limit x) r := by
  intro e s h
  rw [nested] at h
  split at h
  · exact raises_refuse .nesting e s h
  · cases hin : x { r with depth := r.depth + 1 } with
    | ok a q =>
      rw [hin] at h
      cases h
    | error e' q =>
      rw [hin] at h
      cases h
      exact hx e q hin

theorem raises_valueOf (hp : ∀ r, r.WellFormed → Raises limit part r) (hf : Forward part)
    (hr : r.WellFormed) : Raises limit (valueOf limit part) r := by
  refine quiet_peek.raises.bind fun o r' ho => ?_
  obtain ⟨hpeek, rfl⟩ := peek_ok.1 ho
  -- One case for each token that the rule looks for.
  split
  · exact raises_nested (raises_construct (r := { r with depth := r.depth + 1 }) hp hf hr hpeek)
  · exact raises_nested
      (raises_bracketed (r := { r with depth := r.depth + 1 }) .array hp hf rfl hr hpeek)
  · exact raises_nested
      (raises_bracketed (r := { r with depth := r.depth + 1 }) .map (fun _ => raises_entry hp)
        (forward_entry hf) rfl hr hpeek)
  · exact raises_literal (.inl ⟨_, rfl⟩) hpeek
  · exact raises_literal (.inr (.inl ⟨_, rfl⟩)) hpeek
  · exact raises_literal (.inr (.inr ⟨_, _, _, rfl⟩)) hpeek
  · exact raises_raw hpeek
  · exact raises_refuse .value

theorem raises_valueWithin (levels : Nat) :
    ∀ r, r.WellFormed → Raises limit (valueWithin limit levels) r := by
  induction levels with
  | zero =>
    exact fun r hr => raises_valueOf (fun _ _ => raises_refuse .value) (forward_refuse _) hr
  | succ levels ih =>
    exact fun r hr => raises_valueOf ih (forward_valueWithin limit levels) hr

theorem raises_spec (hr : r.WellFormed) : Raises limit (spec limit) r := by
  refine .bind (raises_valueWithin (limit - r.depth) r hr) fun root q _ => ?_
  refine quiet_peek.raises.bind fun next q' _ => ?_
  cases next with
  | none => exact (quiet_pure _).raises
  | some t => exact (raises_refuse .endOfInput).bind fun _ _ _ => (quiet_pure _).raises

end

end Rule

/-- What an error of a text says is expected. -/
theorem Tree.raised_of_parse {limit : Nat} {source : String} {ts : List Placed} {e : SyntaxError}
    (htokens : tokenize source = .ok ts)
    (h : parse limit source = .error (.grammar e)) : e.expected.Raised limit := by
  obtain ⟨_, he, hts⟩ := parse_error htokens h
  cases he
  obtain ⟨s, hs⟩ := ofTokens_error hts
  have hwf : Reader.WellFormed ⟨Cursor.start ts (Text.byteCount source.toList), 0⟩ := fun p hp =>
    (splits_iff.2 ⟨ts, htokens, rfl⟩).wellFormed p.token (List.mem_map_of_mem hp)
  exact Rule.raises_spec hwf e s hs

end ObjectSpec
