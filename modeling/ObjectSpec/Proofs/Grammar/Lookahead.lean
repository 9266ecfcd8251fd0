import ObjectSpec.Proofs.Grammar.Balance
import ObjectSpec.Proofs.Grammar.Expected

/-!
# The token that a rule is chosen for

A value is read by the rule that its first token calls for, and the rule looks at that token once
more. What it would do if another one stood there makes no difference to any run: whatever is put
in its place, the reader is the same (`Fallbacks.spec_eq`). Together with what a rule leaves
behind, that is the account of a value (`value_accounted`): the depth and the place of the reader,
the tokens that were taken, and the errors that never come up.
-/

namespace ObjectSpec

namespace Rule

open Reader

/-! ## Rules with something else to fall back on -/

/-- What the rules do if the first token is not the one that they were chosen for. -/
structure Fallbacks where
  noName : Rule Tree
  noBracket : SyntaxError → Rule Tree
  noBrace : SyntaxError → Rule Tree
  noLiteral : Option Placed → Rule Tree
  noRaw : Rule Tree

namespace Fallbacks

/-- What the rules of the reader do. -/
def own : Fallbacks where
  noName := refuse .typePath
  noBracket e := throw e
  noBrace e := throw e
  noLiteral
    | some p => throw ⟨p.span.start, .literal, .token p.token⟩
    | none => refuse .literal
  noRaw := refuse .rawText

def construct (f : Fallbacks) (value : Rule Tree) : Rule Tree := do
  let start ← here
  match ← advance with
  | some ⟨.name typeName, _⟩ =>
    unless ← eat (.mark .openParen) do
      refuse (.arguments typeName)
    let args ← list .closeParen value
    return .construct typeName args (← spanFrom start)
  | _ => f.noName

/-- Arrays and maps: an opening mark, a list, and a node made of both. -/
def bracketed {α : Type} (openMark close : Mark) (item : Rule α) (node : List α → Span → Tree)
    (fallback : SyntaxError → Rule Tree) : Rule Tree := fun r =>
  match expect (.mark openMark) r with
  | .ok opening s =>
    (do
      let as ← list close item
      return node as (← spanFrom opening.start) : Rule Tree) s
  | .error e s => fallback e s

def array (f : Fallbacks) (value : Rule Tree) : Rule Tree :=
  bracketed .openBracket .closeBracket value .array f.noBracket

def map (f : Fallbacks) (value : Rule Tree) : Rule Tree :=
  bracketed .openBrace .closeBrace (entry value) .map f.noBrace

def literal (f : Fallbacks) : Rule Tree := do
  match ← advance with
  | some ⟨.boolean b, _⟩ => return .literal (.boolean b)
  | some ⟨.quoted _ text _, _⟩ => return .literal (.string text)
  | some ⟨.number numeral, span⟩ =>
    match Literal.ofNumeral numeral.toList with
    | .ok l => return .literal l
    | .error expected => throw ⟨span.start, expected, .numeral numeral⟩
  | o => f.noLiteral o

def raw (f : Fallbacks) : Rule Tree := do
  match ← advance with
  | some ⟨.raw written content, span⟩ => return .raw written content span
  | _ => f.noRaw

def valueOf (f : Fallbacks) (limit : Nat) (part : Rule Tree) : Rule Tree := do
  match ← peek with
  | some (.name _) => nested limit (f.construct part)
  | some (.mark .openBracket) => nested limit (f.array part)
  | some (.mark .openBrace) => nested limit (f.map part)
  | some (.number _) | some (.boolean _) | some (.quoted _ _ _) => f.literal
  | some (.raw _ _) => f.raw
  | _ => refuse .value

def valueWithin (f : Fallbacks) (limit : Nat) : Nat → Rule Tree
  | 0 => f.valueOf limit (refuse .value)
  | levels + 1 => f.valueOf limit (f.valueWithin limit levels)

def value (f : Fallbacks) (limit : Nat) : Rule Tree := fun r =>
  f.valueWithin limit (limit - r.depth) r

def spec (f : Fallbacks) (limit : Nat) : Rule Tree := do
  let root ← f.value limit
  if (← peek).isSome then
    refuse .endOfInput
  return root

/-- With what they have of their own, the rules are those of the reader. -/
theorem own_rules : own.construct = Rule.construct ∧ own.array = Rule.array ∧
    own.map = Rule.map ∧ own.literal = Rule.literal ∧ own.raw = Rule.raw := by
  have hbracketed : ∀ {α : Type} (openMark close : Mark) (item : Rule α)
      (node : List α → Span → Tree),
      bracketed openMark close item node (fun e => throw e) = do
        let opening ← expect (.mark openMark)
        let as ← list close item
        return node as (← spanFrom opening.start) := by
    intro α openMark close item node
    funext r
    unfold bracketed
    cases h : expect (.mark openMark) r with
    | ok opening s => rw [bind_of_ok h]
    | error e s =>
      rw [bind_of_error h]
      rfl
  refine ⟨rfl, funext fun value => hbracketed _ _ _ _, funext fun value => hbracketed _ _ _ _, ?_,
    rfl⟩
  refine funext fun r => bind_congr rfl fun o q _ => ?_
  rcases o with _ | ⟨token, a⟩
  · rfl
  · cases token <;> rfl

/-! ## Rules at their first token -/

section
variable {r : Reader} (f : Fallbacks)

theorem construct_eq {part : Rule Tree} {path : String} (hp : r.cursor.peek = some (.name path)) :
    f.construct part r = Rule.construct part r := by
  refine bind_congr rfl fun start r' hstart => ?_
  obtain ⟨-, rfl⟩ := here_ok.1 hstart
  refine bind_congr rfl fun o q ho => ?_
  obtain ⟨a, rfl, -⟩ := advance_of_peek hp ho
  rfl

theorem bracketed_eq {α : Type} {openMark close : Mark} {item : Rule α}
    {node : List α → Span → Tree} (fallback : SyntaxError → Rule Tree)
    (hp : r.cursor.peek = some (.mark openMark)) :
    bracketed openMark close item node fallback r = (do
      let opening ← expect (.mark openMark)
      let as ← list close item
      return node as (← spanFrom opening.start) : Rule Tree) r := by
  obtain ⟨a, us, hrest⟩ := rest_of_peek hp
  have hexpect := expect_ok.2 (takes_advance hrest)
  unfold bracketed
  rw [bind_of_ok hexpect, hexpect]

theorem literal_eq {t : Token} (hp : r.cursor.peek = some t)
    (hkind : (∃ numeral, t = .number numeral) ∨ (∃ b, t = .boolean b) ∨ IsQuotation t) :
    f.literal r = Rule.literal r := by
  refine bind_congr rfl fun o q ho => ?_
  obtain ⟨a, rfl, -⟩ := advance_of_peek hp ho
  rcases hkind with ⟨numeral, rfl⟩ | ⟨b, rfl⟩ | ⟨written, text, quote, rfl⟩
  · rfl
  · rfl
  · rfl

theorem raw_eq {written content : String} (hp : r.cursor.peek = some (.raw written content)) :
    f.raw r = Rule.raw r := by
  refine bind_congr rfl fun o q ho => ?_
  obtain ⟨a, rfl, -⟩ := advance_of_peek hp ho
  rfl

/-- What the rules fall back on makes no difference to a value, whatever its parts are read by. -/
theorem valueOf_eq (limit : Nat) (part : Rule Tree) :
    f.valueOf limit part = Rule.valueOf limit part := by
  refine funext fun r => bind_congr rfl fun o r' ho => ?_
  obtain ⟨hpeek, rfl⟩ := peek_ok.1 ho
  rcases o with _ | t
  · rfl
  cases t with
  | name path => exact nested_congr (f.construct_eq hpeek)
  | number numeral => exact f.literal_eq hpeek (.inl ⟨_, rfl⟩)
  | boolean b => exact f.literal_eq hpeek (.inr (.inl ⟨_, rfl⟩))
  | quoted written text quote => exact f.literal_eq hpeek (.inr (.inr ⟨_, _, _, rfl⟩))
  | raw written content => exact f.raw_eq hpeek
  | mark m =>
    cases m with
    | openBracket => exact nested_congr (bracketed_eq f.noBracket hpeek)
    | openBrace => exact nested_congr (bracketed_eq f.noBrace hpeek)
    | _ => rfl

theorem valueWithin_eq (limit levels : Nat) :
    f.valueWithin limit levels = Rule.valueWithin limit levels := by
  induction levels with
  | zero => exact f.valueOf_eq limit _
  | succ levels ih => rw [valueWithin, ih, f.valueOf_eq, Rule.valueWithin]

theorem spec_eq (limit : Nat) : f.spec limit = Rule.spec limit := by
  have hvalue : f.value limit = Rule.value limit := by
    refine funext fun r => ?_
    rw [value, f.valueWithin_eq, Rule.value]
  rw [spec, hvalue, Rule.spec]

end

end Fallbacks

/-! ## The account of a value -/

/-- No value is the beginning of another. -/
theorem beginning_unique {ts us xs ys : List Placed} {t u : Tree} (ht : Derives ts t)
    (hu : Derives us u) (h : ts ++ xs = us ++ ys) : ts = us ∧ t = u := by
  have hitem := valueWithin_recognizes (Nat.zero_add (max t.depth u.depth))
  obtain ⟨rfl, -⟩ := piece_unique hitem ⟨ht, Nat.le_max_left _ _⟩ ⟨hu, Nat.le_max_right _ _⟩ h
  exact ⟨rfl, ht.unique hu⟩

/-- What a call for a value comes to, from a reader and under a limit. -/
structure Accounted (limit : Nat) (r : Reader) : Prop where
  /-- Whether a value was read or not, the depth is what it was. -/
  depth_eq : (reached (value limit r)).depth = r.depth
  tokens_eq : (reached (value limit r)).cursor.tokens = r.cursor.tokens
  position_le : r.cursor.position ≤ (reached (value limit r)).cursor.position
  /-- What was taken are the tokens of the value, and no others that come next are a value. -/
  taken : ∀ t s, value limit r = .ok t s → r.cursor.position < s.cursor.position ∧
    ∃ ts, r.Takes ts s ∧ Derives ts t ∧
      ∀ us vs u, r.cursor.rest = us ++ vs → Derives us u → us = ts ∧ u = t
  /-- The parts of the value are read by calls of the same kind. -/
  parts : value limit r = valueOf limit (value limit) r

theorem accounted {limit : Nat} {r : Reader} (h : r.depth ≤ limit) : Accounted limit r := by
  obtain ⟨ts, ht⟩ := balanced_value limit r
  refine ⟨ht.depth, ?_, ?_, fun t s hok => ?_, value_eq h⟩
  · simp [Cursor.tokens, ht.taken, ht.rest]
  · simp [Cursor.position, ht.taken]
  · have hvalue := valueWithin_recognizes (Nat.add_sub_cancel' h)
    obtain ⟨us, hu, hderives, -⟩ := hvalue.sound rfl hok
    refine ⟨?_, us, hu, hderives, fun vs ws u hrest hv => ?_⟩
    · obtain ⟨p, vs, rfl, -⟩ := hderives.opens
      rw [Cursor.position, Cursor.position, hu.taken, List.length_append, List.length_reverse,
        List.length_cons]
      omega
    · exact beginning_unique hv hderives (hrest.symm.trans hu.rest)

end Rule

/-- What the rules say if the first token is not the one that they were chosen for. -/
def Expectation.ofFirstToken : List Expectation :=
  [.typePath, .literal, .rawText, .token (.mark .openBracket), .token (.mark .openBrace)]

theorem Expectation.Raised.not_mem_ofFirstToken {limit : Nat} {expected : Expectation}
    (h : expected.Raised limit) : expected ∉ ofFirstToken := by
  unfold ofFirstToken
  cases h <;> simp

/-- A call for a value is accounted for wherever it is made, at any depth within the limit. No rule
ever comes to do what it does without its first token: whatever that is, the reader is the same,
and no error of a text speaks of it. -/
theorem Rule.value_accounted (limit : Nat) (r : Reader) (h : r.depth ≤ limit) :
    Accounted limit r ∧
    (Fallbacks.own.construct = construct ∧ Fallbacks.own.array = array ∧
      Fallbacks.own.map = map ∧ Fallbacks.own.literal = literal ∧ Fallbacks.own.raw = raw) ∧
    (∀ f : Fallbacks, f.spec limit = spec limit) ∧
    ∀ source e, Tree.parse limit source = .error (.grammar e) →
      e.expected ∉ Expectation.ofFirstToken := by
  refine ⟨accounted h, Fallbacks.own_rules, fun f => f.spec_eq limit, fun source e he => ?_⟩
  cases htokens : tokenize source with
  | error x =>
    rw [Tree.parse, htokens] at he
    cases he
  | ok ts => exact (Tree.raised_of_parse htokens he).not_mem_ofFirstToken

/-- In the middle of `[{'k': [}`, a map that stops two levels further down. -/
theorem Rule.value_accounted_openMap :
    let r : Reader := ⟨⟨[⟨.mark .openBracket, ⟨0, 1⟩⟩], [⟨.mark .openBrace, ⟨1, 2⟩⟩,
      ⟨.quoted "'k'" "k" '\x27', ⟨2, 5⟩⟩, ⟨.mark .colon, ⟨5, 6⟩⟩, ⟨.mark .openBracket, ⟨7, 8⟩⟩,
      ⟨.mark .closeBrace, ⟨8, 9⟩⟩], 9⟩, 1⟩
    r.depth ≤ 3 ∧ Accounted 3 r ∧ (reached (value 3 r)).depth = 1 ∧
      (reached (value 3 r)).cursor.position = 5 := by
  intro r
  have h : r.depth ≤ 3 := by decide
  have haccounted := (value_accounted 3 r h).1
  exact ⟨h, haccounted, haccounted.depth_eq, by decide⟩

end ObjectSpec
