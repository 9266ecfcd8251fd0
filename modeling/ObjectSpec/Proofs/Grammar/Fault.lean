import ObjectSpec.Proofs.Grammar.Acceptance
import ObjectSpec.Proofs.Grammar.Stopping

/-!
# The token at fault

Tokens that are no spec are refused at the earliest token that shows it. Those in front
of it are the beginning of some spec within the limit, and with it they are the
beginning of none; if the error stands at the end of the text, the tokens only lack
what would come next. So the offset of an error tells which token is at fault
(`Tree.parse_error_fault`), be it for the grammar, for a numeral out of range or for a
container nested too deep.
-/

namespace ObjectSpec

open Reader
open Text (byteCount)

namespace Rule

/-- A value is no beginning of a longer one, so that a token behind it is at fault. -/
theorem spec_locates (limit : Nat) : Locates 0 (spec limit) (pieces (Within limit)) := by
  intro r e s hr h
  have hv := value_recognizes limit
  rcases bind_error h with h | ⟨root, q, hroot, h⟩
  · exact value_locates limit hr h
  obtain ⟨ts, ht, hg⟩ := hv.sound hr hroot
  obtain ⟨next, q', hnext, h⟩ := quiet_peek.bind_error h
  obtain ⟨rfl, rfl⟩ := peek_ok.1 hnext
  split at h
  · refine .behind ht (.here ⟨[], root, by rwa [List.append_nil]⟩ ?_ (refuse_bind_error h))
    rintro p vs - more ⟨t, hlonger⟩
    obtain ⟨-, hnil⟩ := piece_unique hv hg hlonger (List.append_nil _).symm
    cases hnil
  · exact absurd h (quiet_pure _ _ _ _)

end Rule

namespace Tree

/-! ## Accepted rows of tokens -/

/-- Tokens that are read as a tree, wherever they stand. -/
def Accepts (limit : Nat) (ts : List Token) : Prop :=
  ∃ ps finish t, ps.map Placed.token = ts ∧ ofTokens limit ps finish = .ok t

theorem accepts_tokens_iff {limit : Nat} {ps : List Placed} :
    Accepts limit (ps.map Placed.token) ↔ Rule.pieces (Rule.Within limit) ps := by
  constructor
  · rintro ⟨qs, finish, t, htokens, h⟩
    obtain ⟨hd, hdepth⟩ := (ofTokens_ok finish).1 h
    obtain ⟨u, hu, hshape⟩ := hd.of_tokens htokens.symm
    exact ⟨u, hu, by rwa [depth_eq_of_shape hshape]⟩
  · rintro ⟨t, h⟩
    exact ⟨ps, 0, t, rfl, (ofTokens_ok 0).2 h⟩

/-- Rows of the grammar that begin with given tokens, in terms of the tokens alone. -/
theorem accepts_prefix_iff {limit : Nat} {ps : List Placed} :
    (∃ us, Accepts limit us ∧ ps.map Placed.token <+: us) ↔
      ∃ more, Rule.pieces (Rule.Within limit) (ps ++ more) := by
  constructor
  · rintro ⟨_, h, ts, rfl⟩
    have hplaced : ps.map Placed.token ++ ts =
        (ps ++ ts.map fun t => Placed.mk t {}).map Placed.token := by
      rw [List.map_append, List.map_map]
      exact congrArg _ (List.map_id ts).symm
    rw [hplaced] at h
    exact ⟨_, accepts_tokens_iff.1 h⟩
  · rintro ⟨more, h⟩
    refine ⟨_, accepts_tokens_iff.2 h, more.map Placed.token, ?_⟩
    rw [List.map_append]

/-! ## Errors -/

theorem ofTokens_error {limit finish : Nat} {ts : List Placed} {e : SyntaxError}
    (h : ofTokens limit ts finish = .error e) :
    ∃ s, Rule.spec limit ⟨Cursor.start ts finish, 0⟩ = .error e s := by
  rw [ofTokens] at h
  split at h
  · cases h
  · next s h' =>
    cases h
    exact ⟨s, h'⟩

theorem parse_error {limit : Nat} {source : String} {ts : List Placed} {e : ParseError}
    (htokens : tokenize source = .ok ts) (h : parse limit source = .error e) :
    ∃ e', e = .grammar e' ∧ ofTokens limit ts (byteCount source.toList) = .error e' := by
  rw [parse, htokens] at h
  simp only at h
  split at h
  · cases h
  · cases hts : ofTokens limit ts (byteCount source.toList) with
    | ok t =>
      rw [hts] at h
      cases h
    | error e' =>
      rw [hts] at h
      cases h
      exact ⟨e', rfl, rfl⟩

/-- The error is where token number `k` starts, or where the text ends if `k` is the number of
tokens. -/
def ErrorAt (e : ParseError) (source : String) (ts : List Placed) (k : Nat) : Prop :=
  k ≤ ts.length ∧ e.offset = startOf (ts.drop k) (byteCount source.toList)

/-- The tokens before number `k` begin a row that is accepted, and with it they begin none. -/
structure FaultAt (limit : Nat) (ts : List Token) (k : Nat) : Prop where
  begins : ∃ us, Accepts limit us ∧ ts.take k <+: us
  ends : k < ts.length → ∀ us, Accepts limit us → ¬ ts.take (k + 1) <+: us
  refused : ¬ Accepts limit ts

/-- Where tokens are stuck, there is the fault. -/
theorem faultAt_of_stuck {limit : Nat} {ps qs : List Placed}
    (h : Stuck (Rule.pieces (Rule.Within limit)) ps qs)
    (hrefused : ¬ Accepts limit ((ps ++ qs).map Placed.token)) :
    FaultAt limit ((ps ++ qs).map Placed.token) ps.length where
  begins := by
    rw [← List.map_take, List.take_left' rfl]
    exact accepts_prefix_iff.2 h.begins
  ends := by
    intro hlength us hus hprefix
    cases qs with
    | nil => simp at hlength
    | cons p vs =>
      have htake : (ps ++ p :: vs).take (ps.length + 1) = ps ++ [p] := by
        rw [List.append_cons]
        exact List.take_left' (by rw [List.length_append]; rfl)
      rw [← List.map_take, htake] at hprefix
      obtain ⟨more, hmore⟩ := accepts_prefix_iff.1 ⟨us, hus, hprefix⟩
      rw [← List.append_cons] at hmore
      exact h.ends p vs rfl more hmore
  refused := hrefused

/-- An error stands at one token of the text and no other, or at its end. That token is the first
that no spec within the limit has behind the tokens in front of it. -/
theorem parse_error_fault (limit : Nat) (source : String) (ts : List Placed) (e : ParseError)
    (htokens : tokenize source = .ok ts) (herror : parse limit source = .error e) :
    ∃ k, (∀ j, ErrorAt e source ts j ↔ j = k) ∧ FaultAt limit (ts.map Placed.token) k := by
  obtain ⟨e, rfl, h⟩ := parse_error htokens herror
  have hrefused : ¬ Accepts limit (ts.map Placed.token) := by
    intro haccepts
    obtain ⟨t, ht⟩ := accepts_tokens_iff.1 haccepts
    rw [(ofTokens_ok _).2 ht] at h
    cases h
  obtain ⟨s, hs⟩ := ofTokens_error h
  obtain ⟨ps, qs, rfl : ts = ps ++ qs, hstuck, ho⟩ := Rule.spec_locates limit rfl hs
  refine ⟨ps.length, fun j => ⟨?_, ?_⟩, faultAt_of_stuck hstuck hrefused⟩
  · -- Later tokens start later, so that the offset is the start of one of them alone.
    rintro ⟨hj, hoffset⟩
    have hpartition := (covers_of_tokenize htokens).partition
    have hk : ps.length ≤ (ps ++ qs).length := by rw [List.length_append]; omega
    have hstart : startOf ((ps ++ qs).drop j) (byteCount source.toList) =
        startOf ((ps ++ qs).drop ps.length) (byteCount source.toList) := by
      rw [List.drop_left' rfl, ← hoffset]
      exact ho
    rcases Nat.lt_trichotomy j ps.length with hlt | heq | hgt
    · exact absurd hstart (Nat.ne_of_lt (hpartition.startOf_lt hlt hk))
    · exact heq
    · exact absurd hstart.symm (Nat.ne_of_lt (hpartition.startOf_lt hgt hj))
  · rintro rfl
    exact ⟨by rw [List.length_append]; omega, by rw [List.drop_left' rfl]; exact ho⟩

/-- A key without its colon, in a map in a construct. The number behind it is at fault. -/
theorem parse_error_fault_missingColon :
    let source := "a.B(1, \x7b\"k\" 2\x7d)"
    let ts : List Placed := [⟨.name "a.B", ⟨0, 3⟩⟩, ⟨.mark .openParen, ⟨3, 4⟩⟩,
      ⟨.number "1", ⟨4, 5⟩⟩, ⟨.mark .comma, ⟨5, 6⟩⟩, ⟨.mark .openBrace, ⟨7, 8⟩⟩,
      ⟨.quoted "\"k\"" "k" '\x22', ⟨8, 11⟩⟩, ⟨.number "2", ⟨12, 13⟩⟩,
      ⟨.mark .closeBrace, ⟨13, 14⟩⟩, ⟨.mark .closeParen, ⟨14, 15⟩⟩]
    let e : ParseError := .grammar ⟨12, .token (.mark .colon), .token (.number "2")⟩
    tokenize source = .ok ts ∧ parse 5 source = .error e ∧
      (∀ j, ErrorAt e source ts j ↔ j = 6) ∧ FaultAt 5 (ts.map Placed.token) 6 := by
  intro source ts e
  have htokens : tokenize source = .ok ts := tokenize_of_toOption (by decide +kernel)
  have herror : parse 5 source = .error e := by
    rw [parse, htokens]
    rfl
  obtain ⟨k, hk, hfault⟩ := parse_error_fault 5 source ts e htokens herror
  obtain rfl : 6 = k := (hk 6).1 ⟨by decide, rfl⟩
  exact ⟨htokens, herror, hk, hfault⟩

end Tree

end ObjectSpec
