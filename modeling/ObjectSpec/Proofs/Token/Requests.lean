import ObjectSpec.Proofs.Token.Partition
import ObjectSpec.Token.Cursor

/-!
# Runs of requests

A cursor is asked one thing after the other: what comes next, to take it, to take it if it is of
a kind, what is wrong with it. Each request takes the next token and hands it out, or it changes
nothing (`Cursor.Served`). So after any run of requests the tokens handed out are the first ones
of the row. In the tokens of a text the last one taken ends in front of the next one, and both
only move on, also where requests are made past the end (`Cursor.orderly_run`).
-/

namespace ObjectSpec

open Text (byteCount)

/-- What a cursor can be asked. -/
inductive Request
  | peek
  | advance
  | check (kind : Token)
  | eat (kind : Token)
  | expect (kind : Token)
  | failure (expected : Expectation)
deriving DecidableEq

/-- The token is one that the request takes. -/
def Request.takes : Request → Token → Bool
  | .advance, _ => true
  | .eat kind, t | .expect kind, t => t.sameKind kind
  | .peek, _ | .check _, _ | .failure _, _ => false

namespace Cursor

/-- The cursor after a request. To peek, to check and to name an error is to look at it alone. -/
def after (c : Cursor) : Request → Cursor
  | .peek | .check _ | .failure _ => c
  | .advance => c.advance.2
  | .eat kind => (c.eat kind).2
  | .expect kind => (c.expect kind).2

/-- What a request hands out if it succeeds: the token that advancing gives, the one that eating
has found to be of the kind, the one that stands at the span that expecting gives. -/
def handed (c : Cursor) : Request → Option Placed
  | .peek | .check _ | .failure _ => none
  | .advance => c.advance.1
  | .eat kind => if (c.eat kind).1 then c.rest.head? else none
  | .expect kind =>
    match (c.expect kind).1 with
    | .ok span => c.peek.map fun t => ⟨t, span⟩
    | .error _ => none

def run (c : Cursor) (requests : List Request) : Cursor := requests.foldl after c

/-- All that a run of requests hands out, in order. -/
def handedBy (c : Cursor) : List Request → List Placed
  | [] => []
  | q :: qs => (c.handed q).toList ++ (c.after q).handedBy qs

/-- The request only looks, or it fails: there is nothing left, or what comes next is of another
kind. -/
inductive Declines (c : Cursor) : Request → Prop
  | peek : Declines c .peek
  | check {kind} : Declines c (.check kind)
  | failure {expected} : Declines c (.failure expected)
  | advance : c.atEnd = true → Declines c .advance
  | eat {kind} : (c.eat kind).1 = false → Declines c (.eat kind)
  | expect {kind e} : (c.expect kind).1 = .error e → Declines c (.expect kind)

/-! ## One request -/

section
variable {c : Cursor} {kind : Token} {p : Placed} {us : List Placed}

theorem check_iff :
    c.check kind = true ↔ ∃ p us, c.rest = p :: us ∧ p.token.sameKind kind = true := by
  unfold check peek
  cases c.rest with
  | nil => simp
  | cons p us => simp

theorem advance_of_rest (hrest : c.rest = p :: us) :
    c.advance = (some p, ⟨p :: c.taken, us, c.finish⟩) := by
  rw [advance, hrest]

theorem eat_of_rest (hrest : c.rest = p :: us) (hkind : p.token.sameKind kind = true) :
    c.eat kind = (true, ⟨p :: c.taken, us, c.finish⟩) := by
  rw [eat, if_pos (check_iff.2 ⟨p, us, hrest, hkind⟩), advance_of_rest hrest]

theorem expect_of_rest (hrest : c.rest = p :: us) (hkind : p.token.sameKind kind = true) :
    c.expect kind = (.ok p.span, ⟨p :: c.taken, us, c.finish⟩) := by
  rw [expect, if_pos (check_iff.2 ⟨p, us, hrest, hkind⟩), advance_of_rest hrest, currentSpan, hrest]

theorem eat_of_check (h : c.check kind = false) : c.eat kind = (false, c) := by
  rw [eat, h]
  rfl

theorem expect_of_check (h : c.check kind = false) :
    c.expect kind = (.error (c.failure (.token kind)), c) := by
  rw [expect, h]
  rfl

end

/-- How a request is served: it takes the next token and hands it out, or changes nothing. -/
theorem served (c : Cursor) (q : Request) :
    (∃ p us, c.rest = p :: us ∧ q.takes p.token = true ∧
      c.handed q = some p ∧ c.after q = ⟨p :: c.taken, us, c.finish⟩) ∨
    (c.Declines q ∧ c.handed q = none ∧ c.after q = c) := by
  cases q with
  | peek => exact .inr ⟨.peek, rfl, rfl⟩
  | check kind => exact .inr ⟨.check, rfl, rfl⟩
  | failure expected => exact .inr ⟨.failure, rfl, rfl⟩
  | advance =>
    rw [handed, after]
    cases hrest : c.rest with
    | nil =>
      right
      have hadvance : c.advance = (none, c) := by rw [advance, hrest]
      have hend : c.atEnd = true := by rw [atEnd, hrest]; rfl
      rw [hadvance]
      exact ⟨.advance hend, rfl, rfl⟩
    | cons p us =>
      left
      rw [advance_of_rest hrest]
      exact ⟨p, us, rfl, rfl, rfl, rfl⟩
  | eat kind =>
    rw [handed, after]
    cases hcheck : c.check kind with
    | true =>
      left
      obtain ⟨p, us, hrest, hkind⟩ := check_iff.1 hcheck
      rw [eat_of_rest hrest hkind, hrest]
      exact ⟨p, us, rfl, hkind, rfl, rfl⟩
    | false =>
      right
      have heat := eat_of_check hcheck
      rw [heat]
      exact ⟨.eat (congrArg Prod.fst heat), rfl, rfl⟩
  | expect kind =>
    rw [handed, after]
    cases hcheck : c.check kind with
    | true =>
      left
      obtain ⟨p, us, hrest, hkind⟩ := check_iff.1 hcheck
      rw [expect_of_rest hrest hkind, peek, hrest]
      exact ⟨p, us, rfl, hkind, rfl, rfl⟩
    | false =>
      right
      have hexpect := expect_of_check hcheck
      rw [hexpect]
      exact ⟨.expect (congrArg Prod.fst hexpect), rfl, rfl⟩

/-- What fails is no request that takes the next token. -/
theorem Declines.takes_eq_false {c : Cursor} {q : Request} (h : c.Declines q) {p : Placed}
    {us : List Placed} (hrest : c.rest = p :: us) : q.takes p.token = false := by
  cases h with
  | peek => rfl
  | check => rfl
  | failure => rfl
  | advance hend =>
    rw [atEnd, hrest] at hend
    cases hend
  | @eat kind heat =>
    by_contra hkind
    rw [eat_of_rest hrest (Bool.not_eq_false _ ▸ hkind)] at heat
    cases heat
  | @expect kind e hexpect =>
    by_contra hkind
    rw [expect_of_rest hrest (Bool.not_eq_false _ ▸ hkind)] at hexpect
    cases hexpect

/-! ## Runs -/

/-- What a run keeps: the row of tokens, the end of the text, and that what was handed out is what
was taken. -/
theorem run_eq (c : Cursor) (requests : List Request) :
    (c.run requests).tokens = c.tokens ∧ (c.run requests).finish = c.finish ∧
      (c.run requests).taken = (c.handedBy requests).reverse ++ c.taken := by
  induction requests generalizing c with
  | nil => exact ⟨rfl, rfl, rfl⟩
  | cons q qs ih =>
    obtain ⟨htokens, hfinish, htaken⟩ := ih (c.after q)
    rw [run, List.foldl_cons, ← run, handedBy, htokens, hfinish, htaken]
    rcases c.served q with ⟨p, us, hrest, -, hhanded, hafter⟩ | ⟨-, hhanded, hafter⟩
    · rw [hhanded, hafter]
      refine ⟨?_, rfl, ?_⟩
      · simp [tokens, hrest]
      · simp
    · rw [hhanded, hafter]
      exact ⟨rfl, rfl, rfl⟩

/-- The cursor stands in the tokens of a text. -/
structure InText (source : String) (c : Cursor) : Prop where
  partition : Partition source c.tokens
  finish_eq : c.finish = byteCount source.toList

namespace InText
variable {source : String} {c : Cursor}

theorem run (h : c.InText source) (requests : List Request) :
    (c.run requests).InText source := by
  obtain ⟨htokens, hfinish, -⟩ := c.run_eq requests
  exact ⟨htokens ▸ h.partition, hfinish.trans h.finish_eq⟩

/-- The next token, or the end of the text, is a span of the text. -/
theorem currentSpan_le (h : c.InText source) :
    c.currentSpan.start ≤ c.currentSpan.stop ∧ c.currentSpan.stop ≤ byteCount source.toList := by
  unfold currentSpan
  cases hrest : c.rest with
  | nil => exact ⟨Nat.le_refl _, Nat.le_of_eq h.finish_eq⟩
  | cons p us =>
    have hp : p ∈ c.tokens := by simp [tokens, hrest]
    exact ⟨Nat.le_of_lt (h.partition.nonempty p hp), (h.partition.boundaries p hp).2.le⟩

/-- What has been taken ends in front of the next token. -/
theorem lastEnd_le (h : c.InText source) : c.lastEnd ≤ c.currentSpan.start := by
  unfold lastEnd
  cases htaken : c.taken with
  | nil => exact Nat.zero_le _
  | cons q older =>
    unfold currentSpan
    cases hrest : c.rest with
    | nil =>
      have hq : q ∈ c.tokens := by simp [tokens, htaken]
      rw [h.finish_eq]
      exact (h.partition.boundaries q hq).2.le
    | cons p us =>
      have hordered := h.partition.ordered
      rw [tokens, htaken, hrest] at hordered
      exact (List.pairwise_append.1 hordered).2.2 q (by simp) p List.mem_cons_self

/-- One request moves neither the end of what has been taken nor the next token back. -/
theorem after_mono (h : c.InText source) (q : Request) :
    c.lastEnd ≤ (c.after q).lastEnd ∧ c.currentSpan.start ≤ (c.after q).currentSpan.start := by
  have hnext : (c.after q).InText source := h.run [q]
  rcases c.served q with ⟨p, us, hrest, -, -, hafter⟩ | ⟨-, -, hafter⟩
  · have hspan : c.currentSpan = p.span := by rw [currentSpan, hrest]
    have hlast : (c.after q).lastEnd = p.span.stop := by rw [hafter]; rfl
    have hbefore := h.lastEnd_le
    have hwidth := h.currentSpan_le.1
    have hbehind := hnext.lastEnd_le
    rw [hspan] at hbefore hwidth ⊢
    omega
  · rw [hafter]
    exact ⟨Nat.le_refl _, Nat.le_refl _⟩

theorem run_mono (h : c.InText source) (requests : List Request) :
    c.lastEnd ≤ (c.run requests).lastEnd ∧
      c.currentSpan.start ≤ (c.run requests).currentSpan.start := by
  induction requests generalizing c with
  | nil => exact ⟨Nat.le_refl _, Nat.le_refl _⟩
  | cons q qs ih =>
    have hstep := h.after_mono q
    have hrest := ih (h.run [q])
    exact ⟨hstep.1.trans hrest.1, hstep.2.trans hrest.2⟩

end InText

/-- A cursor in the tokens `ts` of a text of so many bytes, where `handed` has been handed out. -/
structure Orderly (ts : List Placed) (finish : Nat) (handed : List Placed) (c : Cursor) : Prop where
  position_le : c.position ≤ ts.length
  handed_eq : handed = ts.take c.position
  /-- A request that only looks or fails changes nothing, and there is no token for it to take. -/
  unmoved : ∀ q, c.Declines q → c.handed q = none ∧ c.after q = c ∧
    ∀ p, ts[c.position]? = some p → q.takes p.token = false
  /-- Any other one takes the next token. -/
  moved : ∀ q, ¬ c.Declines q → ∃ p, ts[c.position]? = some p ∧ q.takes p.token = true ∧
    c.handed q = some p ∧ (c.after q).position = c.position + 1
  lastEnd_le : c.lastEnd ≤ c.currentSpan.start
  start_le : c.currentSpan.start ≤ c.currentSpan.stop
  stop_le : c.currentSpan.stop ≤ finish
  /-- Whatever is asked for then, neither goes back. -/
  onward : ∀ more, c.lastEnd ≤ (c.run more).lastEnd ∧
    c.currentSpan.start ≤ (c.run more).currentSpan.start

theorem rest_getElem? (c : Cursor) : c.tokens[c.position]? = c.rest.head? := by
  have hlength : c.position = c.taken.reverse.length := List.length_reverse.symm
  rw [tokens, hlength, List.getElem?_append_right (Nat.le_refl _), Nat.sub_self,
    List.head?_eq_getElem?]

theorem InText.orderly {source : String} {c : Cursor} (h : c.InText source) :
    Orderly c.tokens (byteCount source.toList) c.taken.reverse c where
  position_le := by
    rw [tokens, List.length_append, List.length_reverse]
    exact Nat.le_add_right _ _
  handed_eq := (List.take_left' List.length_reverse).symm
  unmoved := by
    intro q hq
    rw [c.rest_getElem?]
    rcases c.served q with ⟨p, us, hrest, htakes, -, -⟩ | ⟨-, hhanded, hafter⟩
    · rw [hq.takes_eq_false hrest] at htakes
      cases htakes
    · refine ⟨hhanded, hafter, fun p hp => ?_⟩
      obtain ⟨us, hrest⟩ := List.head?_eq_some_iff.1 hp
      exact hq.takes_eq_false hrest
  moved := by
    intro q hq
    rw [c.rest_getElem?]
    rcases c.served q with ⟨p, us, hrest, htakes, hhanded, hafter⟩ | ⟨hdeclines, -, -⟩
    · refine ⟨p, by rw [hrest]; rfl, htakes, hhanded, ?_⟩
      rw [hafter]
      rfl
    · exact absurd hdeclines hq
  lastEnd_le := h.lastEnd_le
  start_le := h.currentSpan_le.1
  stop_le := h.currentSpan_le.2
  onward := h.run_mono

/-- In the tokens of a text, any run of requests hands out the first of the tokens, each once and in
order. What only looks or fails changes nothing. What has been taken ends in front of what comes
next, within the text, and neither ever goes back. -/
theorem orderly_run (source : String) (ts : List Placed) (h : tokenize source = .ok ts)
    (requests : List Request) :
    let c := start ts (byteCount source.toList)
    Orderly ts (byteCount source.toList) (c.handedBy requests) (c.run requests) := by
  intro c
  have hstart : c.InText source := ⟨(covers_of_tokenize h).partition, rfl⟩
  obtain ⟨htokens, -, htaken⟩ := c.run_eq requests
  have horderly := (hstart.run requests).orderly
  have hhanded : (c.run requests).taken.reverse = c.handedBy requests := by
    rw [htaken]
    simp [c, start]
  rwa [htokens, hhanded] at horderly

/-- Requests that succeed and that fail, the last two of them past the end. -/
theorem orderly_run_pastEnd :
    let ts : List Placed := [⟨.name "A", ⟨0, 1⟩⟩, ⟨.mark .openParen, ⟨1, 2⟩⟩,
      ⟨.quoted "'é'" "é" '\x27', ⟨3, 7⟩⟩]
    let requests : List Request := [.peek, .advance, .eat (.mark .comma),
      .expect (.mark .openParen), .eat (.quoted "" "" '\x22'), .expect (.mark .colon), .advance]
    let c := start ts 7
    tokenize "A( 'é'" = .ok ts ∧ Orderly ts 7 (c.handedBy requests) (c.run requests) ∧
      c.handedBy requests = ts ∧ (c.run requests).currentSpan = ⟨7, 7⟩ := by
  intro ts requests c
  have htokens : tokenize "A( 'é'" = .ok ts := tokenize_of_toOption (by decide +kernel)
  have hfinish : byteCount "A( 'é'".toList = 7 := by decide +kernel
  have horderly := orderly_run "A( 'é'" ts htokens requests
  rw [hfinish] at horderly
  exact ⟨htokens, horderly, by decide, by decide⟩

end Cursor

end ObjectSpec
