import ObjectSpec.Proofs.Grammar.Reading
import ObjectSpec.Proofs.Token.Splitting

/-!
# What the reader accepts

A text is read as a tree if and only if its tokens derive the tree and the tree is
nested no deeper than the limit (`Tree.parse_ok`). A limit of as many levels as
there are tokens refuses nothing, so that under it the reader accepts exactly the
grammar. The grammar is unambiguous (`Derives.unique`, `Derives.shape_unique`).
-/

namespace ObjectSpec

open Reader

namespace Rule

theorem spec_ok {limit : Nat} {r s : Reader} {t : Tree} (hr : r.depth = 0) :
    spec limit r = .ok t s ↔ r.Takes r.cursor.rest s ∧ Within limit r.cursor.rest t := by
  have hv := value_recognizes limit
  constructor
  · intro h
    obtain ⟨root, q, hroot, h⟩ := bind_ok.1 h
    obtain ⟨ts, ht, hg⟩ := hv.sound hr hroot
    obtain ⟨next, q', hnext, h⟩ := bind_ok.1 h
    obtain ⟨rfl, rfl⟩ := peek_ok.1 hnext
    cases hq : q.cursor.rest with
    | nil =>
      have hp : q.cursor.peek = none := by rw [Cursor.peek, hq]; rfl
      rw [hp, if_neg (by simp)] at h
      obtain ⟨rfl, rfl⟩ := pure_ok.1 h
      have hts : r.cursor.rest = ts := by rw [ht.rest, hq, List.append_nil]
      rw [hts]
      exact ⟨ht, hg⟩
    | cons p us =>
      have hp : q.cursor.peek = some p.token := by rw [Cursor.peek, hq]; rfl
      rw [hp, if_pos (by simp)] at h
      obtain ⟨_, _, h, -⟩ := bind_ok.1 h
      exact absurd h not_refuse_ok
  · rintro ⟨ht, hg⟩
    have hrest : s.cursor.rest = [] := by simpa using ht.rest
    have hp : s.cursor.peek = none := by rw [Cursor.peek, hrest]; rfl
    refine bind_ok.2 ⟨t, s, hv.complete hr ht hg, ?_⟩
    refine bind_ok.2 ⟨none, s, peek_ok.2 ⟨hp, rfl⟩, rfl⟩

end Rule

namespace Tree

theorem ofTokens_ok {limit : Nat} (finish : Nat) {ts : List Placed} {t : Tree} :
    ofTokens limit ts finish = .ok t ↔ Derives ts t ∧ t.depth ≤ limit := by
  have hs : ∀ s, Rule.spec limit ⟨Cursor.start ts finish, 0⟩ = .ok t s ↔ _ :=
    fun s => Rule.spec_ok rfl
  rw [ofTokens]
  constructor
  · intro h
    split at h
    · next s h' =>
      cases h
      exact ((hs _).1 h').2
    · cases h
  · intro h
    obtain ⟨s, ht, -⟩ := Takes.of_rest (r := ⟨Cursor.start ts finish, 0⟩) (List.append_nil ts).symm
    rw [(hs s).2 ⟨ht, h⟩]

/-- What a text is read as, under any limit. -/
theorem parse_ok {limit : Nat} {source : String} {t : Tree} :
    parse limit source = .ok t ↔
      ∃ ts, tokenize source = .ok ts ∧ DerivesSpec source ts t ∧ t.depth ≤ limit := by
  rw [parse]
  cases htok : tokenize source with
  | error e =>
    constructor
    · intro h
      cases h
    · rintro ⟨_, h, -⟩
      cases h
  | ok ts =>
    have hmap : ((ofTokens limit ts (Text.byteCount source.toList)).mapError ParseError.grammar =
        .ok t) ↔ Derives ts t ∧ t.depth ≤ limit := by
      rw [← ofTokens_ok (Text.byteCount source.toList)]
      cases ofTokens limit ts (Text.byteCount source.toList) with
      | error e => exact ⟨fun h => (nomatch h), fun h => (nomatch h)⟩
      | ok u =>
        refine ⟨fun h => ?_, fun h => ?_⟩
        · cases h
          rfl
        · cases h
          rfl
    simp only [Except.ok.injEq, exists_eq_left']
    split
    · show _ ↔ t = _ ∧ _
      constructor
      · intro h
        cases h
        exact ⟨rfl, Nat.zero_le _⟩
      · rintro ⟨rfl, -⟩
        rfl
    · next hne =>
      rw [derivesSpec_of_ne_raw fun w c s h => hne w c s h]
      exact hmap

end Tree

/-! ## One tree for each row of tokens -/

theorem Derives.unique {ts : List Placed} {t u : Tree} (ht : Derives ts t) (hu : Derives ts u) :
    t = u := by
  have ht' := (Tree.ofTokens_ok 0).2 ⟨ht, Nat.le_max_left t.depth u.depth⟩
  have hu' := (Tree.ofTokens_ok 0).2 ⟨hu, Nat.le_max_right t.depth u.depth⟩
  rw [ht'] at hu'
  cases hu'
  rfl

/-- Where the tokens stand matters for the spans alone. -/
theorem Derives.shape_unique {ts us : List Placed} {t u : Tree} (ht : Derives ts t)
    (hu : Derives us u) (h : ts.map Placed.token = us.map Placed.token) : t.shape = u.shape := by
  obtain ⟨v, hv, hshape⟩ := hu.of_tokens h
  rw [ht.unique hv, hshape]

/-! ## The grammar is what is read -/

namespace Tree

/-- With a level of nesting for every token, a text is read as a tree just if its tokens derive
that tree; and whatever the spans, tokens derive one tree at most. -/
theorem parse_iff_derives (source : String) (limit : Nat)
    (h : ∀ ts, tokenize source = .ok ts → ts.length ≤ limit) :
    (∀ t, parse limit source = .ok t ↔
      ∃ ts, tokenize source = .ok ts ∧ DerivesSpec source ts t) ∧
    ∀ ts us t u, Derives ts t → Derives us u →
      ts.map Placed.token = us.map Placed.token → t.shape = u.shape := by
  refine ⟨fun t => ?_, fun ts us t u ht hu hts => ht.shape_unique hu hts⟩
  rw [parse_ok]
  constructor
  · rintro ⟨ts, hts, hd, -⟩
    exact ⟨ts, hts, hd⟩
  · rintro ⟨ts, hts, hd⟩
    exact ⟨ts, hts, hd, Nat.le_trans hd.depth_le (h ts hts)⟩

/-- A construct with a number and an array that holds a raw text, eight tokens in all. -/
theorem parse_call_of_number_and_raw :
    (∀ ts, tokenize "a.B(7, [\"\"\"x\"\"\"])" = .ok ts → ts.length ≤ 8) ∧
    parse 8 "a.B(7, [\"\"\"x\"\"\"])" = .ok (.construct "a.B"
      [.literal (.integer 7), .array [.raw "\"\"\"x\"\"\"" "x" ⟨8, 15⟩] ⟨7, 16⟩] ⟨0, 17⟩) := by
  have htok : tokenize "a.B(7, [\"\"\"x\"\"\"])" = .ok
      (⟨.name "a.B", ⟨0, 3⟩⟩ :: ⟨.mark .openParen, ⟨3, 4⟩⟩ ::
        (([⟨.number "7", ⟨4, 5⟩⟩] ++ ⟨.mark .comma, ⟨5, 6⟩⟩ ::
          (⟨.mark .openBracket, ⟨7, 8⟩⟩ :: ([⟨.raw "\"\"\"x\"\"\"" "x", ⟨8, 15⟩⟩] ++
            [⟨.mark .closeBracket, ⟨15, 16⟩⟩]))) ++ [⟨.mark .closeParen, ⟨16, 17⟩⟩])) :=
    tokenize_of_toOption (by decide +kernel)
  have hlimit : ∀ ts, tokenize "a.B(7, [\"\"\"x\"\"\"])" = .ok ts → ts.length ≤ 8 := by
    intro ts hts
    rw [htok] at hts
    cases hts
    decide
  refine ⟨hlimit, ((parse_iff_derives _ 8 hlimit).1 _).2 ⟨_, htok, ?_⟩⟩
  have hnumber : Derives [⟨.number "7", ⟨4, 5⟩⟩] (.literal (.integer 7)) := .number rfl
  have hraw : Derives [⟨.raw "\"\"\"x\"\"\"" "x", ⟨8, 15⟩⟩] (.raw "\"\"\"x\"\"\"" "x" ⟨8, 15⟩) := .raw
  exact Derives.construct (.some (.more hnumber (.one (.array (.some (.one hraw))))))

end Tree

end ObjectSpec
