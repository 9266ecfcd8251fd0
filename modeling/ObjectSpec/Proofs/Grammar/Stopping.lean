import ObjectSpec.Proofs.Grammar.Reading
import ObjectSpec.Proofs.Token.Partition

/-!
# Where the rules of the reader stop

A rule that stops has read the beginning of some row of its grammar, and no row goes on
with the next token: that is `Stuck`, and `PointsAt` says that the error stands at this
token. Each rule has one lemma here, made from those of the rules it uses; the last one,
`value_locates`, is about values nested as deep as the limit allows.

What may come behind the tokens already taken is again a set of rows (`PointsAt.behind`),
so that the lemmas follow the rules step by step. Since a recognized piece is never the
beginning of another, what is stuck in a piece is stuck in all that the piece begins
(`Rule.followed_points`).
-/

namespace ObjectSpec

/-! ## Errors and the tokens in front of them -/

/-- Rows of tokens. -/
abbrev Rows : Type := List Placed → Prop

/-- The tokens `ts` begin a row, and together with the first of `us` they begin none. -/
structure Stuck (L : Rows) (ts us : List Placed) : Prop where
  begins : ∃ more, L (ts ++ more)
  ends : ∀ p vs, us = p :: vs → ∀ more, ¬ L (ts ++ p :: more)

/-- The error stands at the first of the coming tokens that no row has in its place. -/
def PointsAt (L : Rows) (c : Cursor) (e : SyntaxError) : Prop :=
  ∃ ts us, c.rest = ts ++ us ∧ Stuck L ts us ∧ e.offset = startOf us c.finish

theorem Cursor.startOf_rest (c : Cursor) : startOf c.rest c.finish = c.currentSpan.start := by
  rw [startOf, Cursor.currentSpan]
  cases c.rest <;> rfl

namespace PointsAt

variable {L K : Rows} {c : Cursor} {e : SyntaxError}

/-- No row starts with the next token. -/
theorem here (hL : ∃ more, L more)
    (hends : ∀ p vs, c.rest = p :: vs → ∀ more, ¬ L (p :: more))
    (ho : e.offset = c.currentSpan.start) : PointsAt L c e :=
  ⟨[], c.rest, rfl, ⟨hL, hends⟩, ho.trans c.startOf_rest.symm⟩

/-- An error behind tokens that have been taken. -/
theorem behind {r q : Reader} {ts : List Placed} (ht : r.Takes ts q)
    (h : PointsAt (fun us => L (ts ++ us)) q.cursor e) : PointsAt L r.cursor e := by
  obtain ⟨us, vs, hrest, hstuck, ho⟩ := h
  refine ⟨ts ++ us, vs, by rw [ht.rest, hrest, List.append_assoc], ⟨?_, ?_⟩, by rw [ho, ht.finish]⟩
  · obtain ⟨more, hm⟩ := hstuck.begins
    exact ⟨more, by rwa [List.append_assoc]⟩
  · intro p ws hvs more hm
    rw [List.append_assoc] at hm
    exact hstuck.ends p ws hvs more hm

/-- Of more rows only those matter that start with the next token. -/
theorem widen (h : PointsAt K c e) (hsub : ∀ us, K us → L us)
    (hhead : ∀ p vs, c.rest = p :: vs → ∀ more, L (p :: more) → K (p :: more)) :
    PointsAt L c e := by
  obtain ⟨ts, us, hrest, hstuck, ho⟩ := h
  refine ⟨ts, us, hrest, ⟨hstuck.begins.imp fun _ => hsub _, fun p vs hus more hm => ?_⟩, ho⟩
  subst hus
  -- The row starts with the next token, be it the one where the error stands or one before it.
  apply hstuck.ends p vs rfl more
  cases ts with
  | nil => exact hhead p vs hrest more hm
  | cons q ts => exact hhead q _ hrest _ hm

theorem congr (h : PointsAt K c e) (hiff : ∀ us, L us ↔ K us) : PointsAt L c e :=
  h.widen (fun us => (hiff us).2) fun _ _ _ _ => (hiff _).1

end PointsAt

/-- Every error of the rule stands at the first token that no row has in its place. -/
def Locates {α : Type} (depth : Nat) (rule : Rule α) (L : Rows) : Prop :=
  ∀ {r : Reader} {e : SyntaxError} {s : Reader}, r.depth = depth → rule r = .error e s →
    PointsAt L r.cursor e

/-! ## A first token -/

/-- Rows that start with a token of a kind, with a row of `K` behind it. -/
def Headed (kind : Token → Prop) (K : Rows) : Rows :=
  fun ts => ∃ p us, ts = p :: us ∧ kind p.token ∧ K us

section Headed
variable {kind : Token → Prop} {K : Rows}

theorem headed_cons {p : Placed} (hp : kind p.token) (us : List Placed) :
    Headed kind K (p :: us) ↔ K us := by
  constructor
  · rintro ⟨q, vs, h, -, hk⟩
    cases h
    exact hk
  · exact fun hk => ⟨p, us, rfl, hp, hk⟩

theorem exists_headed {t : Token} (ht : kind t) (hK : ∃ us, K us) : ∃ us, Headed kind K us := by
  obtain ⟨us, hk⟩ := hK
  exact ⟨_, ⟨t, {}⟩, us, rfl, ht, hk⟩

theorem PointsAt.head {r q : Reader} {e : SyntaxError} {p : Placed} (ht : r.Takes [p] q)
    (hp : kind p.token) (h : PointsAt K q.cursor e) : PointsAt (Headed kind K) r.cursor e :=
  behind ht (h.congr (headed_cons hp))

theorem PointsAt.not_head {c : Cursor} {e : SyntaxError} {t : Token} (ht : kind t)
    (hK : ∃ us, K us) (hp : ∀ p vs, c.rest = p :: vs → ¬ kind p.token)
    (ho : e.offset = c.currentSpan.start) : PointsAt (Headed kind K) c e := by
  refine here (exists_headed ht hK) (fun p vs hrest more => ?_) ho
  rintro ⟨q, us, h, hq, -⟩
  cases h
  exact hp p vs hrest hq

end Headed

namespace Rule
open Reader

/-! ## Errors of single tokens -/

section
variable {α β : Type}

/-- A rule that never stops. -/
def Quiet (x : Rule α) : Prop := ∀ r e s, x r ≠ .error e s

theorem Quiet.bind_error {x : Rule α} (hx : Quiet x) {f : α → Rule β} {r s : Reader}
    {e : SyntaxError} (h : (x >>= f) r = .error e s) :
    ∃ a q, x r = .ok a q ∧ f a q = .error e s :=
  (ObjectSpec.bind_error h).resolve_left (hx r e s)

/-- If the second step never stops, the first one has. -/
theorem Quiet.error_of_bind {x : Rule α} {f : α → Rule β} (hf : ∀ a, Quiet (f a)) {r s : Reader}
    {e : SyntaxError} (h : (x >>= f) r = .error e s) : x r = .error e s := by
  rcases ObjectSpec.bind_error h with h | ⟨a, q, -, h⟩
  · exact h
  · exact absurd h (hf a q e s)

theorem Quiet.bind {x : Rule α} (hx : Quiet x) {f : α → Rule β} (hf : ∀ a, Quiet (f a)) :
    Quiet (x >>= f) := fun r e s h => hx r e s (error_of_bind hf h)

theorem quiet_pure (a : α) : Quiet (pure a : Rule α) := fun _ _ _ h => nomatch h

theorem quiet_peek : Quiet peek := fun _ _ _ h => nomatch h

theorem quiet_here : Quiet here := fun _ _ _ h => nomatch h

theorem quiet_spanFrom (start : Nat) : Quiet (spanFrom start) := fun _ _ _ h => nomatch h

theorem quiet_advance : Quiet advance := fun _ _ _ h => nomatch h

theorem quiet_eat (t : Token) : Quiet (eat t) := fun _ _ _ h => nomatch h

theorem refuse_error {expected : Expectation} {r s : Reader} {e : SyntaxError}
    (h : (refuse expected : Rule α) r = .error e s) : e.offset = r.cursor.currentSpan.start := by
  cases h
  rfl

theorem refuse_bind_error {expected : Expectation} {f : α → Rule β} {r s : Reader} {e : SyntaxError}
    (h : ((refuse expected : Rule α) >>= f) r = .error e s) :
    e.offset = r.cursor.currentSpan.start := by
  rcases bind_error h with h | ⟨_, _, h, -⟩
  · exact refuse_error h
  · exact absurd h not_refuse_ok

end

theorem eat_false {r s : Reader} {m : Mark} (h : eat (.mark m) r = .ok false s) :
    r = s ∧ ∀ p vs, r.cursor.rest = p :: vs → p.token ≠ .mark m := by
  refine ⟨?_, ?_⟩
  · rcases eat_ok h with ⟨h, -⟩ | ⟨-, h⟩
    · cases h
    · exact h
  · rintro ⟨t, e⟩ vs hrest (rfl : t = .mark m)
    rw [eat_of_takes (takes_advance hrest)] at h
    cases h

theorem expect_error {r s : Reader} {m : Mark} {e : SyntaxError}
    (h : expect (.mark m) r = .error e s) :
    e.offset = r.cursor.currentSpan.start ∧ ∀ p vs, r.cursor.rest = p :: vs → p.token ≠ .mark m := by
  refine ⟨?_, ?_⟩
  · rw [expect, Cursor.expect] at h
    split at h
    · next heq =>
      split at heq
      · cases heq
        cases h
      · cases heq
    · next heq =>
      split at heq
      · cases heq
      · cases heq
        cases h
        rfl
  · rintro ⟨t, a⟩ vs hrest (rfl : t = .mark m)
    rw [expect_ok.2 (takes_advance hrest)] at h
    cases h

/-! ## Pieces and what comes behind them -/

section
variable {α : Type} {depth : Nat} {item : Rule α} {G : List Placed → α → Prop}

/-- The pieces of a grammar, whatever they stand for. -/
def pieces (G : List Placed → α → Prop) : Rows := fun ts => ∃ a, G ts a

/-- Rows of a piece with a row of `K` behind it. -/
def Followed (G : List Placed → α → Prop) (K : Rows) : Rows :=
  fun ts => ∃ xs ys a, ts = xs ++ ys ∧ G xs a ∧ K ys

/-- One row has one recognized piece at its start. -/
theorem piece_unique (hi : Recognizes depth item G) {xs ys us vs : List Placed} {a b : α}
    (hx : G xs a) (hu : G us b) (h : xs ++ ys = us ++ vs) : xs = us ∧ ys = vs := by
  obtain ⟨s, hs, rfl⟩ := Takes.of_rest (r := ⟨⟨[], xs ++ ys, 0⟩, depth⟩) rfl
  obtain ⟨q, hq, rfl⟩ := Takes.of_rest (r := ⟨⟨[], xs ++ s.cursor.rest, 0⟩, depth⟩) h
  have hread := hi.complete rfl hs hx
  rw [hi.complete rfl hq hu] at hread
  cases hread
  exact ⟨List.append_cancel_right h, rfl⟩

theorem followed_behind (hi : Recognizes depth item G) {K : Rows} {ts : List Placed} {a : α}
    (hg : G ts a) (us : List Placed) : Followed G K (ts ++ us) ↔ K us := by
  constructor
  · rintro ⟨xs, ys, b, h, hx, hk⟩
    obtain ⟨rfl, rfl⟩ := piece_unique hi hg hx h
    exact hk
  · exact fun hk => ⟨ts, us, a, rfl, hg, hk⟩

/-- What is stuck in a piece is stuck in the rows that the piece begins. -/
theorem followed_points (hi : Recognizes depth item G) (hl : Locates depth item (pieces G))
    {K : Rows} (hK : ∃ ys, K ys) {r s : Reader} {e : SyntaxError} (hr : r.depth = depth)
    (h : item r = .error e s) : PointsAt (Followed G K) r.cursor e := by
  obtain ⟨ts, us, hrest, hstuck, ho⟩ := hl hr h
  refine ⟨ts, us, hrest, ⟨?_, ?_⟩, ho⟩
  · obtain ⟨more, a, hg⟩ := hstuck.begins
    obtain ⟨ys, hk⟩ := hK
    exact ⟨more ++ ys, ts ++ more, ys, a, (List.append_assoc _ _ _).symm, hg, hk⟩
  · rintro p vs rfl more ⟨xs, ys, a, hrow, hg, -⟩
    rw [List.append_cons] at hrow
    rcases List.append_eq_append_iff.1 hrow with ⟨mid, rfl, -⟩ | ⟨mid, hxs, -⟩
    · -- The piece would go on with the token.
      rw [List.append_assoc] at hg
      exact hstuck.ends p vs rfl mid ⟨a, hg⟩
    · -- The piece would end before it, and then the item would have been read.
      have hread : r.cursor.rest = xs ++ (mid ++ vs) := by
        rw [hrest, List.append_cons, hxs, List.append_assoc]
      obtain ⟨q, ht, -⟩ := Takes.of_rest hread
      rw [hi.complete hr ht hg] at h
      cases h

end

/-! ## Lists -/

section
variable {α : Type} {depth : Nat} {item : Rule α} {G : List Placed → α → Prop} {close : Mark}

/-- One part or more, and the closing mark. -/
def Parts (close : Mark) (G : List Placed → α → Prop) : Rows :=
  fun ts => ∃ us e as, ts = us ++ [⟨.mark close, e⟩] ∧ Separated G us as

/-- The closing mark, or a comma and more. -/
def Continued (close : Mark) (K : Rows) : Rows :=
  fun ts => Headed (· = .mark close) (· = []) ts ∨ Headed (· = .mark .comma) K ts

/-- Parts, or none, and the closing mark. -/
def ListRows (close : Mark) (G : List Placed → α → Prop) : Rows :=
  fun ts => ∃ us e as, ts = us ++ [⟨.mark close, e⟩] ∧ Listed G us as

theorem parts_iff {ts : List Placed} :
    Parts close G ts ↔ Followed G (Continued close (Parts close G)) ts := by
  constructor
  · rintro ⟨us, e, as, rfl, h⟩
    cases h with
    | one hg => exact ⟨us, _, _, rfl, hg, .inl ⟨_, [], rfl, rfl, rfl⟩⟩
    | @more ts us a as s hg hs =>
      refine ⟨ts, _, _, by rw [List.append_assoc, List.cons_append], hg, .inr ⟨_, _, rfl, rfl, ?_⟩⟩
      exact ⟨us, e, as, rfl, hs⟩
  · rintro ⟨xs, _, a, rfl, hg, ⟨⟨_, e⟩, _, rfl, rfl, rfl⟩ | ⟨⟨_, e⟩, _, rfl, rfl, us, f, as, rfl, hs⟩⟩
    · exact ⟨xs, e, [a], rfl, .one hg⟩
    · exact ⟨_, f, a :: as, by rw [List.append_assoc, List.cons_append], .more hg hs⟩

theorem listRows_iff {ts : List Placed} :
    ListRows close G ts ↔ Headed (· = .mark close) (· = []) ts ∨ Parts close G ts := by
  constructor
  · rintro ⟨us, e, as, rfl, h⟩
    cases h with
    | none => exact .inl ⟨_, [], rfl, rfl, rfl⟩
    | some h => exact .inr ⟨us, e, as, rfl, h⟩
  · rintro (⟨⟨_, e⟩, _, rfl, rfl, rfl⟩ | ⟨us, e, as, rfl, h⟩)
    · exact ⟨[], e, [], rfl, .none⟩
    · exact ⟨us, e, as, rfl, .some h⟩

theorem exists_continued (close : Mark) (K : Rows) : ∃ us, Continued close K us :=
  ⟨_, .inl ⟨⟨.mark close, {}⟩, [], rfl, rfl, rfl⟩⟩

theorem exists_listRows (close : Mark) (G : List Placed → α → Prop) : ∃ us, ListRows close G us :=
  ⟨[⟨.mark close, {}⟩], [], {}, [], rfl, .none⟩

theorem items_locates (hi : Recognizes depth item G) (hl : Locates depth item (pieces G))
    (hopen : ∀ {ts a}, G ts a → Opens ts) (hclose : close ≠ .comma) {turns : Nat} {r s : Reader}
    {e : SyntaxError} (hr : r.depth = depth) (hn : r.cursor.rest.length ≤ turns)
    (h : items close item turns r = .error e s) : PointsAt (Parts close G) r.cursor e := by
  -- Each turn takes a token, so that there is a turn for every part.
  induction turns generalizing r with
  | zero =>
    rcases bind_error h with h | ⟨a, q, ha, -⟩
    · exact (followed_points hi hl (exists_continued _ _) hr h).congr fun _ => parts_iff
    · obtain ⟨ts, ht, hg⟩ := hi.sound hr ha
      obtain ⟨p, us, rfl, -⟩ := hopen hg
      rw [ht.rest] at hn
      simp at hn
  | succ turns ih =>
    rcases bind_error h with h | ⟨a, q, ha, h⟩
    · exact (followed_points hi hl (exists_continued _ _) hr h).congr fun _ => parts_iff
    obtain ⟨ts, ht, hg⟩ := hi.sound hr ha
    have hbehind : ∀ us, Parts close G (ts ++ us) ↔ Continued close (Parts close G) us :=
      fun us => parts_iff.trans (followed_behind hi hg us)
    refine .behind ht (.congr ?_ hbehind)
    obtain ⟨comma, q', hcomma, h⟩ := (quiet_eat _).bind_error h
    cases comma with
    | true =>
      obtain ⟨c, hc⟩ : ∃ c, q.Takes [⟨.mark .comma, c⟩] q' := by
        simpa using eat_ok hcomma
      have hlength : q'.cursor.rest.length ≤ turns := by
        rw [ht.rest, hc.rest] at hn
        simp only [List.length_append, List.length_cons, List.length_nil] at hn
        omega
      have hmore := ih (hc.depth.trans (ht.depth.trans hr)) hlength
        (Quiet.error_of_bind (fun as => quiet_pure _) h)
      refine .behind hc (hmore.congr fun us => ?_)
      constructor
      · rintro (⟨p, vs, hp, hmark, -⟩ | hk)
        · cases hp
          exact absurd (Token.mark.inj hmark).symm hclose
        · exact (headed_cons (by rfl) us).1 hk
      · exact fun hk => .inr ⟨_, us, rfl, rfl, hk⟩
    | false =>
      obtain ⟨rfl, hnext⟩ := eat_false hcomma
      obtain ⟨closed, q', hclosed, h⟩ := (quiet_eat _).bind_error h
      cases closed with
      | true => exact absurd h (quiet_pure _ _ _ _)
      | false =>
        obtain ⟨rfl, hend⟩ := eat_false hclosed
        refine .here (exists_continued _ _) (fun p vs hrest more => ?_) (refuse_error h)
        rintro (⟨_, _, hp, hmark, -⟩ | ⟨_, _, hp, hmark, -⟩)
        · cases hp
          exact hend p vs hrest hmark
        · cases hp
          exact hnext p vs hrest hmark

theorem list_locates (hi : Recognizes depth item G) (hl : Locates depth item (pieces G))
    (hopen : ∀ {ts a}, G ts a → Opens ts) (hclose : close ≠ .comma) :
    Locates depth (list close item) (ListRows close G) := by
  intro r e s hr h
  obtain ⟨closed, q, hclosed, h⟩ := (quiet_eat _).bind_error h
  cases closed with
  | true => exact absurd h (quiet_pure _ _ _ _)
  | false =>
    obtain ⟨rfl, hend⟩ := eat_false hclosed
    refine (items_locates hi hl hopen hclose hr (Nat.le_refl _) h).widen
      (fun us hus => listRows_iff.2 (.inr hus)) fun p vs hrest more hm => ?_
    rcases listRows_iff.1 hm with ⟨_, _, hp, hmark, -⟩ | hm
    · cases hp
      exact absurd hmark (hend p vs hrest)
    · exact hm

end

/-! ## Constructs, arrays and maps -/

section
variable {depth : Nat} {value : Rule Tree} {G : List Placed → Tree → Prop}

def IsName (t : Token) : Prop := ∃ path, t = .name path

def IsQuotation (t : Token) : Prop := ∃ written text quote, t = .quoted written text quote

/-- Rows that start with a mark, with a list behind it. -/
def EnclosedRows {α : Type} (openMark close : Mark) (G : List Placed → α → Prop) : Rows :=
  Headed (· = .mark openMark) (ListRows close G)

theorem construct_locates (hv : Recognizes depth value G) (hl : Locates depth value (pieces G))
    (hopen : ∀ {ts t}, G ts t → Opens ts) {r s : Reader} {e : SyntaxError} (hr : r.depth = depth)
    {path : String} (hp : r.cursor.peek = some (.name path))
    (h : construct value r = .error e s) :
    PointsAt (Headed IsName (EnclosedRows .openParen .closeParen G)) r.cursor e := by
  obtain ⟨n, r', hn, h⟩ := quiet_here.bind_error h
  obtain ⟨-, rfl⟩ := here_ok.1 hn
  obtain ⟨o, q, ho, h⟩ := quiet_advance.bind_error h
  obtain ⟨a, rfl, ha⟩ := advance_of_peek hp ho
  refine .head ha ⟨path, rfl⟩ ?_
  obtain ⟨b, q', hb, h⟩ := (quiet_eat _).bind_error h
  cases b with
  | true =>
    obtain ⟨p, hp⟩ : ∃ p, q.Takes [⟨.mark .openParen, p⟩] q' := by simpa using eat_ok hb
    refine .head hp rfl ?_
    exact list_locates hv hl hopen (by simp) (hp.depth.trans (ha.depth.trans hr))
      (Quiet.error_of_bind (fun args => (quiet_spanFrom _).bind fun _ => quiet_pure _) h)
  | false =>
    obtain ⟨rfl, hend⟩ := eat_false hb
    exact .not_head rfl (exists_listRows _ _) hend (refuse_bind_error h)

/-- Arrays and maps: an opening mark, a list, and a node made of both. -/
theorem enclosed_locates {α : Type} {item : Rule α} {H : List Placed → α → Prop}
    {openMark close : Mark} (node : List α → Span → Tree) (hi : Recognizes depth item H)
    (hl : Locates depth item (pieces H)) (hopen : ∀ {ts a}, H ts a → Opens ts)
    (hclose : close ≠ .comma) :
    Locates depth (do
      let opening ← expect (.mark openMark)
      let as ← list close item
      return node as (← spanFrom opening.start)) (EnclosedRows openMark close H) := by
  intro r e s hr h
  rcases bind_error h with h | ⟨a, q, ha, h⟩
  · obtain ⟨ho, hend⟩ := expect_error h
    exact .not_head rfl (exists_listRows _ _) hend ho
  · have ha := expect_ok.1 ha
    refine .head ha rfl ?_
    exact list_locates hi hl hopen hclose (ha.depth.trans hr)
      (Quiet.error_of_bind (fun as => (quiet_spanFrom _).bind fun _ => quiet_pure _) h)

theorem pieces_entry {ts : List Placed} :
    pieces (Entry G) ts ↔ Headed IsQuotation (Headed (· = .mark .colon) (pieces G)) ts := by
  constructor
  · rintro ⟨_, ⟨h⟩⟩
    exact ⟨_, _, rfl, ⟨_, _, _, rfl⟩, _, _, rfl, rfl, _, h⟩
  · rintro ⟨⟨_, a⟩, _, rfl, ⟨written, text, quote, rfl⟩, ⟨_, c⟩, us, rfl, rfl, t, h⟩
    exact ⟨(text, t), .mk h⟩

theorem entry_locates (hl : Locates depth value (pieces G)) (hG : ∃ us, pieces G us) :
    Locates depth (entry value) (pieces (Entry G)) := by
  intro r e s hr h
  refine PointsAt.congr ?_ fun _ => pieces_entry
  obtain ⟨o, r', ho, h⟩ := quiet_peek.bind_error h
  obtain ⟨hp, rfl⟩ := peek_ok.1 ho
  have hvalue : ∃ us, Headed (· = .mark .colon) (pieces G) us := exists_headed rfl hG
  split at h
  · next written text quote =>
    obtain ⟨o, q, ho, h⟩ := quiet_advance.bind_error h
    obtain ⟨a, -, hk⟩ := advance_of_peek hp ho
    refine .head hk ⟨written, text, quote, rfl⟩ ?_
    rcases bind_error h with h | ⟨c, q', hc, h⟩
    · obtain ⟨ho, hend⟩ := expect_error h
      exact .not_head rfl hG hend ho
    · have hc := expect_ok.1 hc
      refine .head hc rfl ?_
      exact hl (hc.depth.trans (hk.depth.trans hr))
        (Quiet.error_of_bind (fun t => quiet_pure _) h)
  · next hne =>
    refine .not_head (t := .quoted "" "" '\x22') ⟨_, _, _, rfl⟩ hvalue ?_ (refuse_error h)
    rintro p vs hrest ⟨written, text, quote, hq⟩
    refine hne written text quote ?_
    rw [← hp, (takes_advance hrest).peek, hq]

end

/-! ## Values -/

theorem exists_within (levels : Nat) : ∃ us, pieces (Within levels) us :=
  ⟨[⟨.boolean true, {}⟩], .literal (.boolean true), .boolean, Nat.zero_le _⟩

theorem token_of_peek {r : Reader} {t : Token} {p : Placed} {vs : List Placed}
    (hp : r.cursor.peek = some t) (hrest : r.cursor.rest = p :: vs) : p.token = t := by
  rw [(takes_advance hrest).peek] at hp
  exact Option.some.inj hp

/-- A literal stops at a numeral out of range alone. -/
theorem literal_error {r s : Reader} {e : SyntaxError} {t : Token}
    (hkind : (∃ numeral, t = .number numeral) ∨ (∃ b, t = .boolean b) ∨ IsQuotation t)
    (hp : r.cursor.peek = some t) (h : literal r = .error e s) :
    ∃ numeral expected, t = .number numeral ∧
      Literal.ofNumeral numeral.toList = .error expected ∧
        e = ⟨r.cursor.currentSpan.start, expected, .numeral numeral⟩ := by
  obtain ⟨o, q, ho, h⟩ := quiet_advance.bind_error h
  obtain ⟨a, rfl, ha⟩ := advance_of_peek hp ho
  rcases hkind with ⟨numeral, rfl⟩ | ⟨b, rfl⟩ | ⟨written, text, quote, rfl⟩
  · cases hl : Literal.ofNumeral numeral.toList with
    | ok l =>
      simp only [hl] at h
      exact absurd h (quiet_pure _ _ _ _)
    | error expected =>
      simp only [hl] at h
      cases h
      exact ⟨numeral, expected, rfl, hl, by rw [ha.currentSpan]⟩
  · exact absurd h (quiet_pure _ _ _ _)
  · exact absurd h (quiet_pure _ _ _ _)

theorem literal_points {levels : Nat} {r s : Reader} {e : SyntaxError} {t : Token}
    (hkind : (∃ numeral, t = .number numeral) ∨ (∃ b, t = .boolean b) ∨ IsQuotation t)
    (hp : r.cursor.peek = some t) (h : literal r = .error e s) :
    PointsAt (pieces (Within levels)) r.cursor e := by
  obtain ⟨numeral, expected, rfl, hl, rfl⟩ := literal_error hkind hp h
  refine .here (exists_within levels) ?_ rfl
  rintro ⟨token, a⟩ vs hrest more ⟨u, hd, -⟩
  have htoken : token = .number numeral := token_of_peek hp hrest
  subst htoken
  cases hd with
  | number hn =>
    rw [hn] at hl
    cases hl

/-! Values that start with the first token of a container are containers. -/

section
variable {levels : Nat} {p : Placed} {more : List Placed}

theorem within_name {path : String} (hp : p.token = .name path)
    (h : pieces (Within levels) (p :: more)) : ∃ n, levels = n + 1 ∧
      Headed IsName (EnclosedRows .openParen .closeParen (Within n)) (p :: more) := by
  obtain ⟨token, a⟩ := p
  subst hp
  obtain ⟨t, hd, hdepth⟩ := h
  cases hd with
  | construct hl =>
    obtain ⟨n, rfl, hparts⟩ := Tree.levels_of_construct hdepth
    refine ⟨n, rfl, _, _, rfl, ⟨path, rfl⟩, _, _, rfl, rfl, ?_⟩
    exact ⟨_, _, _, rfl, listed_within.2 ⟨hl, hparts⟩⟩

theorem within_openBracket (hp : p.token = .mark .openBracket)
    (h : pieces (Within levels) (p :: more)) : ∃ n, levels = n + 1 ∧
      EnclosedRows .openBracket .closeBracket (Within n) (p :: more) := by
  obtain ⟨token, a⟩ := p
  subst hp
  obtain ⟨t, hd, hdepth⟩ := h
  cases hd with
  | array hl =>
    obtain ⟨n, rfl, hparts⟩ := Tree.levels_of_array hdepth
    refine ⟨n, rfl, _, _, rfl, rfl, ?_⟩
    exact ⟨_, _, _, rfl, listed_within.2 ⟨hl, hparts⟩⟩

theorem within_openBrace (hp : p.token = .mark .openBrace)
    (h : pieces (Within levels) (p :: more)) : ∃ n, levels = n + 1 ∧
      EnclosedRows .openBrace .closeBrace (Entry (Within n)) (p :: more) := by
  obtain ⟨token, a⟩ := p
  subst hp
  obtain ⟨t, hd, hdepth⟩ := h
  cases hd with
  | map hl =>
    obtain ⟨n, rfl, hparts⟩ := Tree.levels_of_map hdepth
    refine ⟨n, rfl, _, _, rfl, rfl, ?_⟩
    exact ⟨_, _, _, rfl, listed_entry_within.2 ⟨hl, hparts⟩⟩

end

section
variable {n : Nat} {us : List Placed}

theorem within_of_construct
    (h : Headed IsName (EnclosedRows .openParen .closeParen (Within n)) us) :
    pieces (Within (n + 1)) us := by
  obtain ⟨⟨_, a⟩, _, rfl, ⟨path, rfl⟩, ⟨_, b⟩, _, rfl, rfl, vs, e, as, rfl, hl⟩ := h
  obtain ⟨hl, hdepth⟩ := listed_within.1 hl
  exact ⟨_, .construct hl, Tree.depth_construct_le.2 hdepth⟩

theorem within_of_array (h : EnclosedRows .openBracket .closeBracket (Within n) us) :
    pieces (Within (n + 1)) us := by
  obtain ⟨⟨_, a⟩, _, rfl, rfl, vs, e, as, rfl, hl⟩ := h
  obtain ⟨hl, hdepth⟩ := listed_within.1 hl
  exact ⟨_, .array hl, Tree.depth_array_le.2 hdepth⟩

theorem within_of_map (h : EnclosedRows .openBrace .closeBrace (Entry (Within n)) us) :
    pieces (Within (n + 1)) us := by
  obtain ⟨⟨_, a⟩, _, rfl, rfl, vs, e, as, rfl, hl⟩ := h
  obtain ⟨hl, hdepth⟩ := listed_entry_within.1 hl
  exact ⟨_, .map hl, Tree.depth_map_le.2 hdepth⟩

end

theorem nested_error {α : Type} {limit : Nat} {rule : Rule α} {r s : Reader} {e : SyntaxError}
    (h : nested limit rule r = .error e s) :
    (limit ≤ r.depth ∧ e.offset = r.cursor.currentSpan.start) ∨
      (r.depth < limit ∧ ∃ q, rule { r with depth := r.depth + 1 } = .error e q) := by
  rw [nested] at h
  split at h
  · next hle => exact .inl ⟨hle, refuse_error h⟩
  · next hlt =>
    refine .inr ⟨Nat.lt_of_not_le hlt, ?_⟩
    cases hrule : rule { r with depth := r.depth + 1 } with
    | ok a q =>
      rw [hrule] at h
      cases h
    | error e' q =>
      rw [hrule] at h
      cases h
      exact ⟨q, rfl⟩

/-- A container stops where its rule does, or at its first token if that is too deep. -/
theorem nested_points {limit depth levels : Nat} (hd : depth + levels = limit) {rule : Rule Tree}
    {r s : Reader} {e : SyntaxError} {K : Nat → Rows} (hr : r.depth = depth)
    (hhead : ∀ p vs, r.cursor.rest = p :: vs → ∀ more, pieces (Within levels) (p :: more) →
      ∃ n, levels = n + 1 ∧ K n (p :: more))
    (hsub : ∀ n us, K n us → pieces (Within (n + 1)) us)
    (hrule : ∀ n, levels = n + 1 → ∀ q, rule { r with depth := r.depth + 1 } = .error e q →
      PointsAt (K n) r.cursor e)
    (h : nested limit rule r = .error e s) : PointsAt (pieces (Within levels)) r.cursor e := by
  rcases nested_error h with ⟨hle, ho⟩ | ⟨hlt, q, hq⟩
  · refine .here (exists_within levels) (fun p vs hrest more hm => ?_) ho
    obtain ⟨n, rfl, -⟩ := hhead p vs hrest more hm
    omega
  · obtain ⟨n, rfl⟩ : ∃ n, levels = n + 1 := ⟨levels - 1, by omega⟩
    refine (hrule n rfl q hq).widen (hsub n) fun p vs hrest more hm => ?_
    obtain ⟨n', hn, hk⟩ := hhead p vs hrest more hm
    cases hn
    exact hk

/-- One more level around parts that are located. At the limit there are no parts to read. -/
theorem valueOf_locates {limit depth levels : Nat} {part : Rule Tree}
    (hd : depth + levels = limit)
    (hp : ∀ n, levels = n + 1 → Recognizes (depth + 1) part (Within n))
    (hl : ∀ n, levels = n + 1 → Locates (depth + 1) part (pieces (Within n))) :
    Locates depth (valueOf limit part) (pieces (Within levels)) := by
  intro r e s hr h
  have hopen : ∀ {n ts t}, Within n ts t → Opens ts := fun h => h.1.opens
  have hdeep : ({ r with depth := r.depth + 1 } : Reader).depth = depth + 1 := congrArg (· + 1) hr
  obtain ⟨o, r', ho, h⟩ := quiet_peek.bind_error h
  obtain ⟨hpeek, rfl⟩ := peek_ok.1 ho
  -- One case for each token that the rule looks for.
  split at h
  · refine nested_points hd hr (fun p vs hrest more => within_name (token_of_peek hpeek hrest))
      (fun n us => within_of_construct) (fun n hn q hq => ?_) h
    exact construct_locates (r := { r with depth := r.depth + 1 }) (hp n hn) (hl n hn) hopen hdeep
      hpeek hq
  · refine nested_points hd hr
      (fun p vs hrest more => within_openBracket (token_of_peek hpeek hrest))
      (fun n us => within_of_array) (fun n hn q hq => ?_) h
    exact enclosed_locates (r := { r with depth := r.depth + 1 }) Tree.array (hp n hn) (hl n hn)
      hopen (by simp) hdeep hq
  · refine nested_points hd hr
      (fun p vs hrest more => within_openBrace (token_of_peek hpeek hrest))
      (fun n us => within_of_map) (fun n hn q hq => ?_) h
    exact enclosed_locates (r := { r with depth := r.depth + 1 }) Tree.map
      (entry_recognizes (hp n hn)) (entry_locates (hl n hn) (exists_within n)) Entry.opens (by simp)
      hdeep hq
  · exact literal_points (.inl ⟨_, rfl⟩) hpeek h
  · exact literal_points (.inr (.inl ⟨_, rfl⟩)) hpeek h
  · exact literal_points (.inr (.inr ⟨_, _, _, rfl⟩)) hpeek h
  · next written content =>
    -- A raw text that is the next token is read.
    obtain ⟨o, q, ho, h⟩ := quiet_advance.bind_error h
    obtain ⟨a, rfl, -⟩ := advance_of_peek hpeek ho
    exact absurd h (quiet_pure _ _ _ _)
  · next hname hbracket hbrace hnumber hboolean hquoted hraw =>
    refine .here (exists_within levels) ?_ (refuse_error h)
    rintro ⟨token, a⟩ vs hrest more ⟨t, hderives, -⟩
    have htoken : r.cursor.peek = some token := (takes_advance hrest).peek
    cases hderives with
    | construct => exact hname _ (hpeek.symm.trans htoken)
    | array => exact hbracket (hpeek.symm.trans htoken)
    | map => exact hbrace (hpeek.symm.trans htoken)
    | string => exact hquoted _ _ _ (hpeek.symm.trans htoken)
    | boolean => exact hboolean _ (hpeek.symm.trans htoken)
    | number => exact hnumber _ (hpeek.symm.trans htoken)
    | raw => exact hraw _ _ (hpeek.symm.trans htoken)

theorem valueWithin_locates {limit levels depth : Nat} (hd : depth + levels = limit) :
    Locates depth (valueWithin limit levels) (pieces (Within levels)) := by
  induction levels generalizing depth with
  | zero =>
    exact valueOf_locates hd (fun n hn => nomatch hn) fun n hn => nomatch hn
  | succ levels ih =>
    refine valueOf_locates hd (fun n hn => ?_) fun n hn => ?_
    · cases hn
      exact valueWithin_recognizes (by omega)
    · cases hn
      exact ih (by omega)

theorem value_locates (limit : Nat) : Locates 0 (value limit) (pieces (Within limit)) := by
  intro r e s hr h
  rw [value, hr, Nat.sub_zero] at h
  exact valueWithin_locates (Nat.zero_add limit) hr h

end Rule

end ObjectSpec
