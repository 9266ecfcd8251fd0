import ObjectSpec.Proofs.Grammar.Fault
import ObjectSpec.Proofs.Grammar.Forward

/-!
# The limit of nesting

A reader under a limit reads as one under a larger limit does, up to the first token that
opens a construct, an array or a map beyond its limit. There it stops, and nothing else
changes: `Capped` compares what a rule comes to under both limits, and each rule has one
lemma, made from those of the rules it uses. Levels are counted on the tokens alone, with
no reader and no tree (`FirstOpening`).
-/

namespace ObjectSpec

open Text (byteCount)

/-! ## Levels of tokens -/

namespace Token

/-- The token opens a construct, an array or a map. -/
def isOpening : Token → Bool
  | .name _ | .mark .openBracket | .mark .openBrace => true
  | _ => false

/-- The level behind a token that stands at a level. -/
def levelBehind (level : Nat) : Token → Nat
  | .name _ | .mark .openBracket | .mark .openBrace => level + 1
  | .mark .closeParen | .mark .closeBracket | .mark .closeBrace => level - 1
  | _ => level

end Token

/-- The level behind tokens. -/
def levelBehind (level : Nat) (ts : List Placed) : Nat :=
  ts.foldl (fun l p => p.token.levelBehind l) level

/-- Token number `k` opens a construct, an array or a map at the level, the outermost one being
at level one. -/
def OpensAt (ts : List Placed) (level k : Nat) : Prop :=
  ∃ p, ts[k]? = some p ∧ p.token.isOpening = true ∧ levelBehind 0 (ts.take k) + 1 = level

/-- Token `p` is the first one that opens a construct, an array or a map at the level. -/
def FirstOpening (ts : List Placed) (level : Nat) (p : Placed) : Prop :=
  ∃ k, ts[k]? = some p ∧ OpensAt ts level k ∧ ∀ j < k, ¬ OpensAt ts level j

/-- From one level to another, with nothing opened beyond the limit. -/
inductive Climbs (limit : Nat) : Nat → List Placed → Nat → Prop
  | nil {level} : Climbs limit level [] level
  | cons {level p ts final} : (p.token.isOpening = true → level < limit) →
      Climbs limit (p.token.levelBehind level) ts final → Climbs limit level (p :: ts) final

namespace Climbs
variable {limit level mid final : Nat} {ts us : List Placed}

theorem append (h : Climbs limit level ts mid) (h' : Climbs limit mid us final) :
    Climbs limit level (ts ++ us) final := by
  induction h with
  | nil => exact h'
  | cons hopen _ ih => exact .cons hopen (ih h')

/-- A token that opens nothing. -/
theorem one {p : Placed} (hp : p.token.isOpening = false) :
    Climbs limit level [p] (p.token.levelBehind level) :=
  .cons (fun h => absurd (hp.symm.trans h) Bool.false_ne_true) .nil

theorem levelBehind_eq (h : Climbs limit level ts final) : levelBehind level ts = final := by
  induction h with
  | nil => rfl
  | cons _ _ ih => exact ih

theorem opening_lt (h : Climbs limit level ts final) {k : Nat} {p : Placed}
    (hp : ts[k]? = some p) (hopen : p.token.isOpening = true) :
    levelBehind level (ts.take k) < limit := by
  induction h generalizing k with
  | nil => cases hp
  | cons hlt _ ih =>
    cases k with
    | zero =>
      cases hp
      exact hlt hopen
    | succ k => exact ih hp

/-- Each level takes a token. -/
theorem final_le (h : Climbs limit level ts final) : final ≤ level + ts.length := by
  induction h with
  | nil => exact Nat.le_refl _
  | @cons level p ts final _ _ ih =>
    have hp : p.token.levelBehind level ≤ level + 1 := by
      unfold Token.levelBehind
      split <;> omega
    rw [List.length_cons]
    omega

/-- A token at the limit that opens one more is the first that does. -/
theorem firstOpening {p : Placed} (h : Climbs limit 0 ts limit)
    (hopen : p.token.isOpening = true) : FirstOpening (ts ++ p :: us) (limit + 1) p := by
  have hp : (ts ++ p :: us)[ts.length]? = some p := by simp
  have hlevel : levelBehind 0 ((ts ++ p :: us).take ts.length) + 1 = limit + 1 := by
    rw [List.take_left' rfl, h.levelBehind_eq]
  refine ⟨ts.length, hp, ⟨p, hp, hopen, hlevel⟩, ?_⟩
  rintro j hj ⟨q, hq, hopen', hlevel'⟩
  rw [List.getElem?_append_left hj] at hq
  rw [List.take_append_of_le_length (Nat.le_of_lt hj)] at hlevel'
  have := h.opening_lt hq hopen'
  omega

end Climbs

namespace Rule

open Reader

/-! ## Two limits -/

/-- What a rule comes to under a limit, and under a larger one. If it is not the same, then the
first has stopped at a token that opens one level too many, and the second is further ahead. -/
inductive Capped {α : Type} (limit level final : Nat) (r : Reader) :
    EStateM.Result SyntaxError Reader α → EStateM.Result SyntaxError Reader α → Prop
  | ok {ts a s} : r.Takes ts s → Climbs limit level ts final →
      Capped limit level final r (.ok a s) (.ok a s)
  | error {e s} : Capped limit level final r (.error e s) (.error e s)
  | beyond {ts p us s y} : r.cursor.rest = ts ++ p :: us → Climbs limit level ts limit →
      p.token.isOpening = true → Ahead us r.cursor.finish y →
      Capped limit level final r (.error ⟨p.span.start, .nesting limit, .token p.token⟩ s) y

/-- At one depth of nesting, a rule under the limit compared with one under a larger one. -/
def CapsAt {α : Type} (limit depth level final : Nat) (x y : Rule α) : Prop :=
  ∀ r, r.depth = depth → Capped limit level final r (x r) (y r)

section
variable {α β : Type} {limit depth level mid final : Nat} {r : Reader}

/-- Behind tokens that both have taken. -/
theorem Capped.behind {q : Reader} {ts : List Placed} {x y : EStateM.Result SyntaxError Reader α}
    (ht : r.Takes ts q) (hc : Climbs limit level ts mid) (h : Capped limit mid final q x y) :
    Capped limit level final r x y := by
  cases h with
  | ok ht' hc' => exact .ok (ht.trans ht') (hc.append hc')
  | error => exact .error
  | @beyond us p vs _ _ hrest hc' hopen hahead =>
    refine .beyond ?_ (hc.append hc') hopen (ht.finish ▸ hahead)
    rw [ht.rest, hrest, List.append_assoc]

theorem Capped.bind {x y : Rule α} {f g : α → Rule β} (h : Capped limit level mid r (x r) (y r))
    (hfg : ∀ a, CapsAt limit r.depth mid final (f a) (g a)) (hg : ∀ a, Forward (g a)) :
    Capped limit level final r ((x >>= f) r) ((y >>= g) r) := by
  generalize hx : x r = small, hy : y r = large at h
  cases h with
  | ok ht hc =>
    rw [bind_of_ok hx, bind_of_ok hy]
    exact (hfg _ _ ht.depth).behind ht hc
  | error =>
    rw [bind_of_error hx, bind_of_error hy]
    exact .error
  | beyond hrest hc hopen hahead =>
    rw [bind_of_error hx]
    subst hy
    exact .beyond hrest hc hopen (hahead.bind hg)

/-- A first step that both have. -/
theorem Capped.step {x : Rule α} {f g : α → Rule β}
    (h : ∀ a q, x r = .ok a q → Capped limit level final r (f a q) (g a q)) :
    Capped limit level final r ((x >>= f) r) ((x >>= g) r) := by
  cases hx : x r with
  | ok a q =>
    rw [bind_of_ok hx, bind_of_ok hx]
    exact h a q hx
  | error e q =>
    rw [bind_of_error hx, bind_of_error hx]
    exact .error

theorem Capped.pure (a : α) : Capped limit level level r ((Pure.pure a : Rule α) r)
    ((Pure.pure a : Rule α) r) := .ok (.refl r) .nil

/-! ## Lists -/

variable {item item' : Rule α} {close : Mark}

theorem items_capped (hi : CapsAt limit depth level level item item') (hf : Forward item')
    (hclose : (Token.mark close).isOpening = false)
    (hfinal : (Token.mark close).levelBehind level = final) (turns : Nat) :
    CapsAt limit depth level final (items close item turns) (items close item' turns) := by
  induction turns with
  | zero => exact fun r hr => (hi r hr).bind (fun _ _ _ => .error) fun _ => forward_refuse _
  | succ turns ih =>
    intro r hr
    have hmore : Forward (items close item' turns) := forward_items hf close turns
    refine (hi r hr).bind (fun first q hq => ?_) fun first =>
      forward_congruence.separator (d := 0) (y := items close item' turns) hmore first
    refine .step fun comma q' hcomma => ?_
    rcases eat_ok hcomma with ⟨rfl, c, hc⟩ | ⟨rfl, rfl⟩
    · refine .behind hc (.one rfl) ?_
      exact (ih q' (hc.depth.trans (hq.trans hr))).bind (fun more _ _ => .pure _) fun _ =>
        forward_pure _
    · refine .step fun closed q' hclosed => ?_
      rcases eat_ok hclosed with ⟨rfl, c, hc⟩ | ⟨rfl, rfl⟩
      · subst hfinal
        exact .behind hc (.one hclose) (.pure _)
      · exact .error

theorem list_capped (hi : CapsAt limit depth level level item item') (hf : Forward item')
    (hclose : (Token.mark close).isOpening = false)
    (hfinal : (Token.mark close).levelBehind level = final) :
    CapsAt limit depth level final (list close item) (list close item') := by
  intro r hr
  refine .step fun closed q hclosed => ?_
  rcases eat_ok hclosed with ⟨rfl, c, hc⟩ | ⟨rfl, rfl⟩
  · subst hfinal
    exact .behind hc (.one hclose) (.pure _)
  · exact items_capped hi hf hclose hfinal _ r hr

/-- A list and a node made of it. -/
theorem enclosed_capped (hi : CapsAt limit depth level level item item') (hf : Forward item')
    (hclose : (Token.mark close).isOpening = false)
    (hfinal : (Token.mark close).levelBehind level = final) (node : List α → Span → Tree)
    (start : Nat) :
    CapsAt limit depth level final
      (do
        let as ← list close item
        return node as (← spanFrom start))
      (do
        let as ← list close item'
        return node as (← spanFrom start)) := by
  intro r hr
  refine (list_capped hi hf hclose hfinal r hr).bind (fun as q hq => ?_) fun as =>
    (forward_spanFrom _).bind fun _ => forward_pure _
  refine .step fun span q' hspan => ?_
  obtain ⟨-, rfl⟩ := spanFrom_ok.1 hspan
  exact .pure _

end

/-! ## Values -/

section
variable {limit depth level : Nat} {part part' : Rule Tree}

theorem construct_capped (hlt : level < limit)
    (hp : CapsAt limit depth (level + 1) (level + 1) part part') (hf : Forward part') :
    CapsAt limit depth level level (construct part) (construct part') := by
  intro r hr
  refine .step fun start r' hstart => ?_
  obtain ⟨-, rfl⟩ := here_ok.1 hstart
  refine .step fun o q ho => ?_
  split
  · next typeName a =>
    have ha := advance_ok.1 ho
    refine .behind ha (.cons (fun _ => hlt) .nil) ?_
    refine .step fun opened q' hopened => ?_
    rcases eat_ok hopened with ⟨rfl, c, hc⟩ | ⟨rfl, rfl⟩
    · refine .behind hc (.one rfl) ?_
      exact enclosed_capped hp hf (by rfl) (by rfl) _ _ q' (hc.depth.trans (ha.depth.trans hr))
    · exact .error
  · exact .error

/-- Arrays and maps: an opening mark, a list, and a node made of both. -/
theorem bracketed_capped {α : Type} {item item' : Rule α} {openMark close : Mark}
    (node : List α → Span → Tree) (hlt : level < limit)
    (hi : CapsAt limit depth (level + 1) (level + 1) item item') (hf : Forward item')
    (hopen : (Token.mark openMark).levelBehind level = level + 1)
    (hclose : (Token.mark close).isOpening = false)
    (hfinal : (Token.mark close).levelBehind (level + 1) = level) :
    CapsAt limit depth level level
      (do
        let opening ← expect (.mark openMark)
        let as ← list close item
        return node as (← spanFrom opening.start))
      (do
        let opening ← expect (.mark openMark)
        let as ← list close item'
        return node as (← spanFrom opening.start)) := by
  intro r hr
  refine .step fun opening q hopening => ?_
  have ha := expect_ok.1 hopening
  have hclimbs : Climbs limit level [⟨.mark openMark, opening⟩] (level + 1) :=
    .cons (fun _ => hlt) (hopen ▸ .nil)
  exact (enclosed_capped hi hf hclose hfinal _ _ q (ha.depth.trans hr)).behind ha hclimbs

theorem entry_capped (hp : CapsAt limit depth level level part part') :
    CapsAt limit depth level level (entry part) (entry part') := by
  intro r hr
  refine .step fun o r' ho => ?_
  obtain ⟨hpeek, rfl⟩ := peek_ok.1 ho
  split
  · refine .step fun o q ho => ?_
    obtain ⟨a, -, hk⟩ := advance_of_peek hpeek ho
    refine .behind hk (.one rfl) ?_
    refine .step fun colon q' hcolon => ?_
    have hc := expect_ok.1 hcolon
    refine .behind hc (.one rfl) ?_
    exact (hp q' (hc.depth.trans (hk.depth.trans hr))).bind (fun t _ _ => .pure _) fun _ =>
      forward_pure _
  · exact .error

/-- One level deeper, where neither limit is reached. -/
theorem nested_capped {α : Type} {final larger : Nat} {x y : Rule α} (hlt : depth < limit)
    (hlarger : limit ≤ larger) (h : CapsAt limit (depth + 1) level final x y) :
    CapsAt limit depth level final (nested limit x) (nested larger y) := by
  rintro r rfl
  have h := h { r with depth := r.depth + 1 } rfl
  have hlt' : r.depth < larger := Nat.lt_of_lt_of_le hlt hlarger
  generalize hx : x { r with depth := r.depth + 1 } = small,
    hy : y { r with depth := r.depth + 1 } = large at h
  cases h with
  | ok ht hc =>
    rw [nested_ok.2 ⟨hlt, _, hx, rfl⟩, nested_ok.2 ⟨hlt', _, hy, rfl⟩]
    exact .ok ht.of_deeper hc
  | error =>
    rw [nested_of_error hlt hx, nested_of_error hlt' hy]
    exact .error
  | beyond hrest hc hopen hahead =>
    rw [nested_of_error hlt hx]
    subst hy
    exact .beyond hrest hc hopen (hahead.nested hlt')

/-- At the limit the smaller one refuses what the larger one reads on. -/
theorem nested_beyond {α : Type} {larger : Nat} {x : Rule α} {y : Rule α} (hlarger : limit < larger)
    {r : Reader} (hr : r.depth = limit) {p : Placed} {us : List Placed}
    (hrest : r.cursor.rest = p :: us) (hopen : p.token.isOpening = true)
    (hahead : Ahead us r.cursor.finish (y { r with depth := r.depth + 1 })) :
    Capped limit limit limit r (nested limit x r) (nested larger y r) := by
  have herror : nested limit x r =
      .error ⟨p.span.start, .nesting limit, .token p.token⟩ r := by
    rw [nested, if_pos (Nat.le_of_eq hr.symm), refuse, Cursor.failure, Cursor.currentSpan,
      Cursor.found, Cursor.peek, hrest]
    rfl
  rw [herror]
  exact .beyond hrest .nil hopen (hahead.nested (hr ▸ hlarger))

/-- A rule that has nothing but its tokens to read. -/
theorem Capped.of_recognizes {G : List Placed → Tree → Prop} {x : Rule Tree}
    (hx : Recognizes depth x G) (hG : ∀ {ts t}, G ts t → Climbs limit level ts level) :
    CapsAt limit depth level level x x := by
  intro r hr
  cases h : x r with
  | ok t s =>
    obtain ⟨ts, ht, hg⟩ := hx.sound hr h
    exact .ok ht (hG hg)
  | error e s => exact .error

theorem literal_capped : CapsAt limit depth level level literal literal := by
  refine Capped.of_recognizes literal_recognizes ?_
  rintro ts _ ⟨h, l, rfl⟩
  cases h with
  | string => exact .one rfl
  | boolean => exact .one rfl
  | number hl => exact .one rfl

theorem raw_capped : CapsAt limit depth level level raw raw := by
  refine Capped.of_recognizes raw_recognizes ?_
  rintro ts t ⟨h, hraw⟩
  cases h with
  | raw => exact .one rfl
  | _ => cases hraw

variable {larger : Nat}

theorem container_capped (hd : depth ≤ limit) (hlarger : limit < larger) {x y : Rule Tree}
    {r : Reader} (hr : r.depth = depth) {t : Token} (hpeek : r.cursor.peek = some t)
    (hopen : t.isOpening = true) (hin : depth < limit → CapsAt limit (depth + 1) depth depth x y)
    (hahead : ∀ {q : Reader} {a us}, q.cursor.rest = ⟨t, a⟩ :: us →
      Ahead us q.cursor.finish (y q)) :
    Capped limit depth depth r (nested limit x r) (nested larger y r) := by
  rcases Nat.lt_or_eq_of_le hd with hlt | rfl
  · exact nested_capped hlt (Nat.le_of_lt hlarger) (hin hlt) r hr
  · obtain ⟨a, us, hrest⟩ := rest_of_peek hpeek
    exact nested_beyond hlarger hr hrest hopen
      (hahead (q := { r with depth := r.depth + 1 }) hrest)

theorem valueOf_capped (hd : depth ≤ limit) (hlarger : limit < larger)
    (hp : depth < limit → CapsAt limit (depth + 1) (depth + 1) (depth + 1) part part')
    (hf : Forward part') :
    CapsAt limit depth depth depth (valueOf limit part) (valueOf larger part') := by
  intro r hr
  refine .step fun o r' ho => ?_
  obtain ⟨hpeek, rfl⟩ := peek_ok.1 ho
  -- One case for each token that the rule looks for.
  split
  · exact container_capped hd hlarger hr hpeek rfl (fun hlt => construct_capped hlt (hp hlt) hf)
      (ahead_construct hf)
  · exact container_capped hd hlarger hr hpeek rfl
      (fun hlt => bracketed_capped .array hlt (hp hlt) hf rfl rfl rfl) (ahead_bracketed .array hf)
  · exact container_capped hd hlarger hr hpeek rfl
      (fun hlt => bracketed_capped .map hlt (entry_capped (hp hlt)) (forward_entry hf) rfl rfl rfl)
      (ahead_bracketed .map (forward_entry hf))
  · exact literal_capped r hr
  · exact literal_capped r hr
  · exact literal_capped r hr
  · exact raw_capped r hr
  · exact .error

theorem valueWithin_capped {levels levels' : Nat} (hd : depth + levels = limit)
    (hd' : depth + levels' = larger) (hlarger : limit < larger) :
    CapsAt limit depth depth depth (valueWithin limit levels) (valueWithin larger levels') := by
  induction levels generalizing depth levels' with
  | zero =>
    obtain ⟨n, rfl⟩ : ∃ n, levels' = n + 1 := ⟨levels' - 1, by omega⟩
    exact valueOf_capped (by omega) hlarger (fun hlt => absurd hlt (by omega))
      (forward_valueWithin larger n)
  | succ levels ih =>
    obtain ⟨n, rfl⟩ : ∃ n, levels' = n + 1 := ⟨levels' - 1, by omega⟩
    exact valueOf_capped (by omega) hlarger (fun _ => ih (by omega) (by omega))
      (forward_valueWithin larger n)

theorem spec_capped (hlarger : limit < larger) : CapsAt limit 0 0 0 (spec limit) (spec larger) := by
  intro r hr
  have hvalue : Capped limit 0 0 r (value limit r) (value larger r) := by
    rw [value, value, hr]
    exact valueWithin_capped (Nat.zero_add _) (Nat.zero_add _) hlarger r hr
  refine hvalue.bind (fun root q hq => ?_) fun root => forward_peek.bind fun next => ?_
  · refine .step fun next q' hnext => ?_
    obtain ⟨-, rfl⟩ := peek_ok.1 hnext
    cases next with
    | none => exact .pure _
    | some t => exact .error
  · cases next with
    | none => exact forward_pure _
    | some t => exact (forward_refuse _).bind fun _ => forward_pure _

end

end Rule

/-! ## Rows of tokens and texts -/

/-- The error at a token that opens one level too many. -/
def tooDeep (limit : Nat) (p : Placed) : SyntaxError :=
  ⟨p.span.start, .nesting limit, .token p.token⟩

namespace Tree

theorem ofTokens_capped {limit larger : Nat} (hlarger : limit < larger) (ts : List Placed)
    (finish : Nat) :
    ofTokens limit ts finish = ofTokens larger ts finish ∨
    ∃ older p newer, ts = older ++ p :: newer ∧ Climbs limit 0 older limit ∧
      p.token.isOpening = true ∧ ofTokens limit ts finish = .error (tooDeep limit p) ∧
      ∀ e, ofTokens larger ts finish = .error e →
        ∃ vs, vs <:+ newer ∧ e.offset = startOf vs finish := by
  have h := Rule.spec_capped hlarger ⟨Cursor.start ts finish, 0⟩ rfl
  simp only [ofTokens]
  generalize Rule.spec limit ⟨Cursor.start ts finish, 0⟩ = small,
    Rule.spec larger ⟨Cursor.start ts finish, 0⟩ = large at h
  cases h with
  | ok => exact .inl rfl
  | error => exact .inl rfl
  | @beyond older p newer _ _ hrest hclimbs hopen hahead =>
    refine .inr ⟨older, p, newer, hrest, hclimbs, hopen, rfl, fun e he => ?_⟩
    cases large with
    | ok a s => cases he
    | error e' s =>
      cases he
      exact hahead

theorem parse_capped {limit larger : Nat} (hlarger : limit < larger) {source : String}
    {ts : List Placed} (htokens : tokenize source = .ok ts) :
    parse limit source = parse larger source ∨
    ∃ older p newer, ts = older ++ p :: newer ∧ Climbs limit 0 older limit ∧
      p.token.isOpening = true ∧ parse limit source = .error (.grammar (tooDeep limit p)) ∧
      ∀ e, parse larger source = .error e → p.span.start < e.offset := by
  have h := ofTokens_capped hlarger ts (byteCount source.toList)
  rw [parse, parse, htokens]
  dsimp only
  split
  · exact .inl rfl
  rcases h with h | ⟨older, p, newer, rfl, hclimbs, hopen, hsmall, hlarge⟩
  · exact .inl (congrArg (Except.mapError ParseError.grammar) h)
  refine .inr ⟨older, p, newer, rfl, hclimbs, hopen, by rw [hsmall]; rfl, fun e he => ?_⟩
  cases he' : ofTokens larger (older ++ p :: newer) (byteCount source.toList) with
  | ok t =>
    rw [he'] at he
    cases he
  | error e' =>
    rw [he'] at he
    cases he
    obtain ⟨vs, ⟨us, rfl⟩, ho⟩ := hlarge e' he'
    have hrow : older ++ p :: (us ++ vs) = (older ++ p :: us) ++ vs := by simp
    have hlt := (covers_of_tokenize htokens).partition.startOf_lt
      (show older.length < (older ++ p :: us).length by simp) (by simp)
    rw [List.drop_left' rfl, hrow, List.drop_left' rfl, ← ho] at hlt
    exact hlt

/-- A limit that has a level for every token is as good as a larger one. -/
theorem parse_eq_of_enough {limit larger : Nat} (hlarger : limit < larger) {source : String}
    {ts : List Placed} (htokens : tokenize source = .ok ts) (hlength : ts.length ≤ limit) :
    parse limit source = parse larger source := by
  rcases parse_capped hlarger htokens with hsame | ⟨older, p, newer, rfl, hclimbs, -⟩
  · exact hsame
  · -- There are not tokens enough to reach the limit and go beyond.
    have hle := hclimbs.final_le
    rw [List.length_append, List.length_cons] at hlength
    omega

/-- The error names the limit, at the first token of the text that opens a construct, an array or a
map beyond it. -/
def NestedTooDeep (limit : Nat) (source : String) (e : ParseError) : Prop :=
  ∃ ts p, tokenize source = .ok ts ∧ FirstOpening ts (limit + 1) p ∧
    e = .grammar (tooDeep limit p) ∧
    (tooDeep limit p).expected.text = s!"at most {limit} levels of nesting"

/-- A limit that is not reached makes no difference, and one that is reached comes before any other
error. -/
theorem parse_eq_or_nested {source : String} (limit : Nat) {unlimited : Nat}
    (h : ∀ ts, tokenize source = .ok ts → ts.length ≤ unlimited) :
    parse limit source = parse unlimited source ∨
    ∃ e, NestedTooDeep limit source e ∧ parse limit source = .error e ∧
      ∀ e', parse unlimited source = .error e' → e.offset < e'.offset := by
  cases htokens : tokenize source with
  | error e => exact .inl (by rw [parse, parse, htokens])
  | ok ts =>
    rcases Nat.lt_trichotomy limit unlimited with hlt | rfl | hgt
    · rcases parse_capped hlt htokens with hsame | ⟨older, p, newer, rfl, hclimbs, hopen, hparse⟩
      · exact .inl hsame
      · exact .inr ⟨_, ⟨_, p, htokens, hclimbs.firstOpening hopen, rfl, rfl⟩, hparse⟩
    · exact .inl rfl
    · exact .inl (parse_eq_of_enough hgt htokens (h ts htokens)).symm

/-- The limit is exact and changes nothing else. Compared with a reader that has a level for every
token, a reader under a limit gives the same tree if it is nested no deeper than that, and else
the error at the first token beyond the limit. An error is the same, or that token comes before
it. -/
theorem parse_limit (source : String) (limit unlimited : Nat)
    (h : ∀ ts, tokenize source = .ok ts → ts.length ≤ unlimited) :
    match parse unlimited source with
    | .ok t => (t.depth ≤ limit → parse limit source = .ok t) ∧
      (limit < t.depth → ∃ e, NestedTooDeep limit source e ∧ parse limit source = .error e)
    | .error e => parse limit source = .error e ∨
      ∃ e', NestedTooDeep limit source e' ∧ parse limit source = .error e' ∧
        e'.offset < e.offset := by
  have hcompare := parse_eq_or_nested limit h
  cases hparse : parse unlimited source with
  | error e =>
    rcases hcompare with hsame | ⟨e', hdeep, hsmall, hlt⟩
    · exact .inl (hsame.trans hparse)
    · exact .inr ⟨e', hdeep, hsmall, hlt e hparse⟩
  | ok t =>
    obtain ⟨ts, hts, hd, -⟩ := parse_ok.1 hparse
    refine ⟨fun hdepth => parse_ok.2 ⟨ts, hts, hd, hdepth⟩, fun hdepth => ?_⟩
    rcases hcompare with hsame | ⟨e', hdeep, hsmall, -⟩
    · obtain ⟨_, -, -, hle⟩ := parse_ok.1 (hsame.trans hparse)
      omega
    · exact ⟨e', hdeep, hsmall⟩

/-- An array of two levels under a limit of one. -/
theorem parse_limit_secondLevel :
    (∀ ts, tokenize "[TRUE, []]" = .ok ts → ts.length ≤ 6) ∧
    ∃ e, NestedTooDeep 1 "[TRUE, []]" e ∧ parse 1 "[TRUE, []]" = .error e := by
  have htokens : tokenize "[TRUE, []]" = .ok [⟨.mark .openBracket, ⟨0, 1⟩⟩,
      ⟨.boolean true, ⟨1, 5⟩⟩, ⟨.mark .comma, ⟨5, 6⟩⟩, ⟨.mark .openBracket, ⟨7, 8⟩⟩,
      ⟨.mark .closeBracket, ⟨8, 9⟩⟩, ⟨.mark .closeBracket, ⟨9, 10⟩⟩] :=
    tokenize_of_toOption (by decide +kernel)
  have hlimit : ∀ ts, tokenize "[TRUE, []]" = .ok ts → ts.length ≤ 6 := by
    intro ts hts
    rw [htokens] at hts
    cases hts
    decide
  have hparse : parse 6 "[TRUE, []]" =
      .ok (.array [.literal (.boolean true), .array [] ⟨7, 9⟩] ⟨0, 10⟩) := by
    rw [parse, htokens]
    rfl
  have h := parse_limit "[TRUE, []]" 1 6 hlimit
  rw [hparse] at h
  exact ⟨hlimit, h.2 (by decide)⟩

end Tree

/-- The tokens of a tree open the levels that the tree has, and no others. -/
theorem Derives.opensAt_iff {ts : List Placed} {t : Tree} (h : Derives ts t) (level : Nat) :
    (∃ k, OpensAt ts (level + 1) k) ↔ level < t.depth := by
  constructor
  · rintro ⟨k, p, hp, hopen, hlevel⟩
    refine Nat.lt_of_not_le fun hle => ?_
    -- The reader gets by with the limit, and then nothing is opened beyond it.
    have hcapped := Rule.spec_capped (Nat.lt_succ_self level) ⟨Cursor.start ts 0, 0⟩ rfl
    obtain ⟨s, ht, hrest⟩ := Reader.Takes.of_rest (r := ⟨Cursor.start ts 0, 0⟩)
      (List.append_nil ts).symm
    rw [(Rule.spec_ok rfl).2 ⟨ht, h, hle⟩] at hcapped
    generalize Rule.spec (level + 1) ⟨Cursor.start ts 0, 0⟩ = large at hcapped
    cases hcapped with
    | ok ht' hclimbs =>
      have hts : _ ++ s.cursor.rest = ts ++ s.cursor.rest := ht'.rest.symm.trans ht.rest
      rw [List.append_cancel_right hts] at hclimbs
      have := hclimbs.opening_lt hp hopen
      omega
  · intro hlt
    rcases Tree.ofTokens_capped hlt ts 0 with hsame | ⟨older, p, newer, rfl, hclimbs, hopen, -⟩
    · have hlarge := (Tree.ofTokens_ok 0).2 ⟨h, Nat.le_refl t.depth⟩
      obtain ⟨-, hle⟩ := (Tree.ofTokens_ok 0).1 (hsame.trans hlarge)
      omega
    · have hfirst : FirstOpening (older ++ p :: newer) (level + 1) p := hclimbs.firstOpening hopen
      obtain ⟨k, -, hk, -⟩ := hfirst
      exact ⟨k, hk⟩

end ObjectSpec
