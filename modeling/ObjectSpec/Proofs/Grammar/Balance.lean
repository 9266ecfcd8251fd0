import ObjectSpec.Proofs.Grammar.Congruence
import ObjectSpec.Proofs.Grammar.Reading

/-!
# What a rule leaves behind

However a rule ends, it has taken some of the tokens that came next and changed nothing else: the
depth of nesting is what it was, also where a rule has stopped in the middle (`Balanced`). So the
parts of a value are read at the depth that they are counted for, and a value is read by reading
its parts as values again (`value_eq`).
-/

namespace ObjectSpec.Rule

open Reader

/-- Where the reader is when a rule has ended, be it with what it read or with an error. -/
def reached {α : Type} : EStateM.Result SyntaxError Reader α → Reader
  | .ok _ s => s
  | .error _ s => s

/-- However it ends, the rule has taken tokens and changed nothing else. -/
def Balanced {α : Type} (x : Rule α) : Prop := ∀ r : Reader, ∃ ts, r.Takes ts (reached (x r))

section
variable {α β : Type}

/-! ## Steps -/

theorem Balanced.bind {x : Rule α} {f : α → Rule β} (hx : Balanced x) (hf : ∀ a, Balanced (f a)) :
    Balanced (x >>= f) := by
  intro r
  obtain ⟨ts, ht⟩ := hx r
  cases h : x r with
  | ok a q =>
    rw [h] at ht
    obtain ⟨us, hu⟩ := hf a q
    rw [bind_of_ok h]
    exact ⟨ts ++ us, ht.trans hu⟩
  | error e q =>
    rw [h] at ht
    rw [bind_of_error h]
    exact ⟨ts, ht⟩

/-- A rule that leaves the reader where it is. -/
theorem balanced_of_still {x : Rule α} (h : ∀ r, reached (x r) = r) : Balanced x := by
  intro r
  rw [h r]
  exact ⟨[], .refl r⟩

theorem balanced_pure (a : α) : Balanced (pure a : Rule α) := balanced_of_still fun _ => rfl

theorem balanced_throw (e : SyntaxError) : Balanced (throw e : Rule α) :=
  balanced_of_still fun _ => rfl

theorem balanced_refuse (expected : Expectation) : Balanced (refuse expected : Rule α) :=
  balanced_of_still fun _ => rfl

theorem exists_takes_advance (r : Reader) :
    ∃ ts, r.Takes ts { r with cursor := r.cursor.advance.2 } := by
  cases hrest : r.cursor.rest with
  | nil =>
    have hstill : r.cursor.advance.2 = r.cursor := by rw [Cursor.advance, hrest]
    rw [hstill]
    exact ⟨[], .refl r⟩
  | cons p us => exact ⟨[p], takes_advance hrest⟩

theorem balanced_advance : Balanced advance := exists_takes_advance

theorem balanced_eat (t : Token) : Balanced (eat t) := by
  intro r
  rw [eat, Cursor.eat]
  cases r.cursor.check t with
  | true => exact exists_takes_advance r
  | false => exact ⟨[], .refl r⟩

theorem balanced_expect (t : Token) : Balanced (expect t) := by
  intro r
  rw [expect, Cursor.expect]
  cases r.cursor.check t with
  | true => exact exists_takes_advance r
  | false => exact ⟨[], .refl r⟩

theorem balanced_literal : Balanced literal := by
  refine balanced_advance.bind fun o => ?_
  split
  · exact balanced_pure _
  · exact balanced_pure _
  · split
    · exact balanced_pure _
    · exact balanced_throw _
  · exact balanced_throw _
  · exact balanced_refuse _

theorem nested_of_lt {limit : Nat} {x : Rule α} {r : Reader} (h : r.depth < limit) :
    reached (nested limit x r) =
      { reached (x { r with depth := r.depth + 1 }) with
        depth := (reached (x { r with depth := r.depth + 1 })).depth - 1 } := by
  rw [nested, if_neg (Nat.not_le.2 h)]
  cases x { r with depth := r.depth + 1 } <;> rfl

theorem Balanced.nested {x : Rule α} (hx : Balanced x) (limit : Nat) :
    Balanced (nested limit x) := by
  intro r
  by_cases h : r.depth < limit
  · obtain ⟨ts, ht⟩ := hx { r with depth := r.depth + 1 }
    rw [nested_of_lt h]
    exact ⟨ts, ht.of_deeper⟩
  · rw [Rule.nested, if_pos (Nat.not_lt.1 h)]
    exact balanced_refuse _ r

end

/-- To be balanced carries over from the steps to the rules. -/
theorem balanced_congruence : Congruence fun _ _ x _ => Balanced x where
  pure := balanced_pure
  bind := Balanced.bind
  reading := fun h r => h r r
  refuse := balanced_refuse
  peek := balanced_of_still fun _ => rfl
  here := balanced_of_still fun _ => rfl
  spanFrom := fun _ => balanced_of_still fun _ => rfl
  advance := balanced_advance
  eat := balanced_eat
  expect := balanced_expect
  literal := balanced_literal
  nested := fun limit hx => hx.nested limit

theorem balanced_value (limit : Nat) : Balanced (value limit) :=
  fun r => balanced_congruence.valueWithin (d := 0) limit (limit - r.depth) r

/-! ## Values in terms of values -/

/-- The rules come to the same at one depth of nesting. -/
def AgreeAt {α : Type} (depth : Nat) (x y : Rule α) : Prop := ∀ r, r.depth = depth → x r = y r

theorem nested_congr {α : Type} {limit : Nat} {x y : Rule α} {r : Reader}
    (h : x { r with depth := r.depth + 1 } = y { r with depth := r.depth + 1 }) :
    nested limit x r = nested limit y r := by
  rw [nested, nested, h]

/-- To agree carries over as well, since a balanced step leads to the same depth. -/
theorem agreeAt_congruence :
    Congruence fun d _ x y => AgreeAt d x y ∧ Balanced y where
  pure := fun a => ⟨fun _ _ => rfl, balanced_pure a⟩
  bind := by
    rintro d α β x y f g ⟨hxy, hy⟩ hfg
    refine ⟨fun r hr => ?_, hy.bind fun a => (hfg a).2⟩
    refine bind_congr (hxy r hr) fun a q hq => (hfg a).1 q ?_
    obtain ⟨ts, ht⟩ := hy r
    rw [hq] at ht
    exact ht.depth.trans hr
  reading := fun h => ⟨fun r hr => (h r).1 r hr, fun r => (h r).2 r⟩
  refuse := fun expected => ⟨fun _ _ => rfl, balanced_refuse expected⟩
  peek := ⟨fun _ _ => rfl, balanced_congruence.peek (d := 0)⟩
  here := ⟨fun _ _ => rfl, balanced_congruence.here (d := 0)⟩
  spanFrom := fun start => ⟨fun _ _ => rfl, balanced_congruence.spanFrom (d := 0) start⟩
  advance := ⟨fun _ _ => rfl, balanced_advance⟩
  eat := fun t => ⟨fun _ _ => rfl, balanced_eat t⟩
  expect := fun t => ⟨fun _ _ => rfl, balanced_expect t⟩
  literal := ⟨fun _ _ => rfl, balanced_literal⟩
  nested := by
    rintro d x y limit ⟨hxy, hy⟩
    exact ⟨fun r hr => nested_congr (hxy _ (congrArg (· + 1) hr)), hy.nested limit⟩

/-- Where no level is left, no part is read. -/
theorem valueOf_at_limit {limit : Nat} {r : Reader} (h : limit ≤ r.depth) (x y : Rule Tree) :
    valueOf limit x r = valueOf limit y r := by
  have hnested : ∀ v w : Rule Tree, nested limit v r = nested limit w r := by
    intro v w
    rw [nested, nested, if_pos h, if_pos h]
  refine bind_congr rfl fun o q ho => ?_
  obtain ⟨-, rfl⟩ := peek_ok.1 ho
  split
  · exact hnested _ _
  · exact hnested _ _
  · exact hnested _ _
  all_goals rfl

/-- A value is read by reading its parts as values. -/
theorem value_eq {limit : Nat} {r : Reader} (h : r.depth ≤ limit) :
    value limit r = valueOf limit (value limit) r := by
  obtain ⟨levels, rfl⟩ := Nat.exists_eq_add_of_le h
  rw [value, Nat.add_sub_cancel_left]
  cases levels with
  | zero => exact valueOf_at_limit (Nat.le_refl _) _ _
  | succ levels =>
    have hparts : AgreeAt (r.depth + 1) (valueWithin (r.depth + (levels + 1)) levels)
        (value (r.depth + (levels + 1))) := by
      intro q hq
      rw [value, hq]
      congr 1
      omega
    exact (agreeAt_congruence.valueOf ⟨hparts, balanced_value _⟩ _).1 r rfl

end ObjectSpec.Rule
