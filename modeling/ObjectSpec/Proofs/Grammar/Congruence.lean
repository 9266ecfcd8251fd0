import ObjectSpec.Tree.Parser

/-!
# What carries over from steps to rules

The rules are made of a few steps, one behind the other. A relation between rules that the steps
respect is therefore respected by all that is made of them, up to the rule for values
(`Congruence.valueOf`). The relation may be another one at each depth of nesting. A property of
rules is a relation that looks at its left side alone.
-/

namespace ObjectSpec.Rule

/-- Relations between rules, one for each depth of nesting, that the steps respect. -/
structure Congruence (R : Nat → ∀ {α : Type}, Rule α → Rule α → Prop) : Prop where
  pure : ∀ {d : Nat} {α : Type} (a : α), R d (pure a) (pure a)
  bind : ∀ {d : Nat} {α β : Type} {x y : Rule α} {f g : α → Rule β},
    R d x y → (∀ a, R d (f a) (g a)) → R d (x >>= f) (y >>= g)
  /-- Which rule it is may depend on the reader. -/
  reading : ∀ {d : Nat} {α : Type} {x y : Reader → Rule α},
    (∀ q, R d (x q) (y q)) → R d (fun r => x r r) (fun r => y r r)
  refuse : ∀ {d : Nat} {α : Type} (expected : Expectation),
    R d (refuse expected : Rule α) (refuse expected)
  peek : ∀ {d : Nat}, R d peek peek
  here : ∀ {d : Nat}, R d here here
  spanFrom : ∀ {d : Nat} (start : Nat), R d (spanFrom start) (spanFrom start)
  advance : ∀ {d : Nat}, R d advance advance
  eat : ∀ {d : Nat} (t : Token), R d (eat t) (eat t)
  expect : ∀ {d : Nat} (t : Token), R d (expect t) (expect t)
  literal : ∀ {d : Nat}, R d literal literal
  nested : ∀ {d : Nat} {x y : Rule Tree} (limit : Nat),
    R (d + 1) x y → R d (nested limit x) (nested limit y)

namespace Congruence

variable {R : Nat → ∀ {α : Type}, Rule α → Rule α → Prop} {d : Nat}

/-! ## Lists -/

section
variable {α : Type} {x y : Rule α} {close : Mark}

/-- What follows an item: a comma and more, or the closing mark. -/
theorem separator (h : Congruence R) {x y : Rule (List α)} (hxy : R d x y) (first : α) :
    R d
      (do
        if ← Rule.eat (.mark .comma) then
          let more ← x
          return first :: more
        else if ← Rule.eat (.mark close) then
          return [first]
        else
          Rule.refuse (.separator close))
      (do
        if ← Rule.eat (.mark .comma) then
          let more ← y
          return first :: more
        else if ← Rule.eat (.mark close) then
          return [first]
        else
          Rule.refuse (.separator close)) := by
  refine h.bind (h.eat _) fun comma => ?_
  cases comma with
  | true => exact h.bind hxy fun more => h.pure _
  | false =>
    refine h.bind (h.eat _) fun closed => ?_
    cases closed with
    | true => exact h.pure _
    | false => exact h.refuse _

theorem items (h : Congruence R) (hxy : R d x y) (turns : Nat) :
    R d (items close x turns) (items close y turns) := by
  induction turns with
  | zero => exact h.bind hxy fun _ => h.refuse _
  | succ turns ih => exact h.bind hxy fun first => h.separator ih first

theorem list (h : Congruence R) (hxy : R d x y) : R d (list close x) (list close y) := by
  have hitems : R d (fun r => Rule.items close x r.cursor.rest.length r)
      (fun r => Rule.items close y r.cursor.rest.length r) :=
    h.reading fun q => h.items hxy q.cursor.rest.length
  refine h.bind (h.eat _) fun closed => ?_
  cases closed with
  | true => exact h.pure _
  | false => exact hitems

/-- A list and a node made of it. -/
theorem enclosed (h : Congruence R) (hxy : R d x y) (close : Mark) (node : List α → Span → Tree)
    (start : Nat) :
    R d
      (do
        let as ← Rule.list close x
        return node as (← Rule.spanFrom start))
      (do
        let as ← Rule.list close y
        return node as (← Rule.spanFrom start)) :=
  h.bind (h.list hxy) fun _ => h.bind (h.spanFrom _) fun _ => h.pure _

end

/-! ## Values -/

section
variable {x y : Rule Tree}

/-- What follows the name of a type. -/
theorem arguments (h : Congruence R) (hxy : R d x y) (typeName : String) (start : Nat) :
    R d
      (do
        unless ← Rule.eat (.mark .openParen) do
          Rule.refuse (.arguments typeName)
        let args ← Rule.list .closeParen x
        return Tree.construct typeName args (← Rule.spanFrom start))
      (do
        unless ← Rule.eat (.mark .openParen) do
          Rule.refuse (.arguments typeName)
        let args ← Rule.list .closeParen y
        return Tree.construct typeName args (← Rule.spanFrom start)) := by
  have hargs := h.enclosed hxy .closeParen (.construct typeName) start
  refine h.bind (h.eat _) fun opened => ?_
  cases opened with
  | true => exact hargs
  | false => exact h.bind (h.refuse _) fun _ => hargs

theorem construct (h : Congruence R) (hxy : R d x y) : R d (construct x) (construct y) := by
  refine h.bind h.here fun start => h.bind h.advance fun o => ?_
  split
  · exact h.arguments hxy _ _
  · exact h.refuse _

theorem array (h : Congruence R) (hxy : R d x y) : R d (array x) (array y) :=
  h.bind (h.expect _) fun _ => h.enclosed hxy _ .array _

theorem entry (h : Congruence R) (hxy : R d x y) : R d (entry x) (entry y) := by
  refine h.bind h.peek fun o => ?_
  split
  · exact h.bind h.advance fun _ => h.bind (h.expect _) fun _ => h.bind hxy fun _ => h.pure _
  · exact h.refuse _

theorem map (h : Congruence R) (hxy : R d x y) : R d (map x) (map y) :=
  h.bind (h.expect _) fun _ => h.enclosed (h.entry hxy) _ .map _

theorem raw (h : Congruence R) : R d raw raw := by
  refine h.bind h.advance fun o => ?_
  split
  · exact h.pure _
  · exact h.refuse _

/-- The rule for values respects the relation that its parts have one level deeper. -/
theorem valueOf (h : Congruence R) (hxy : R (d + 1) x y) (limit : Nat) :
    R d (valueOf limit x) (valueOf limit y) := by
  refine h.bind h.peek fun o => ?_
  split
  · exact h.nested limit (h.construct hxy)
  · exact h.nested limit (h.array hxy)
  · exact h.nested limit (h.map hxy)
  · exact h.literal
  · exact h.literal
  · exact h.literal
  · exact h.raw
  · exact h.refuse _

theorem valueWithin (h : Congruence R) (limit levels : Nat) :
    R d (valueWithin limit levels) (valueWithin limit levels) := by
  induction levels generalizing d with
  | zero => exact h.valueOf (h.refuse _) limit
  | succ levels ih => exact h.valueOf ih limit

end

end Congruence

end ObjectSpec.Rule
