import ObjectSpec.Proofs.Build.Labels
import ObjectSpec.Proofs.Tree.RoundTrip
import ObjectSpec.Registry.Standard
import ObjectSpec.Spec.Basic

/-!
# The canonical text of a spec

Every tree that is read from a text can be written (`Derives.wellFormed`), since a
reader gives names, raw texts and doubles in the forms that can. The exception is a
text that is one raw text with blanks around it: it is kept as it is, and is its own
canonical text. So making a spec again from its canonical text gives the same spec but
for the spans (`make_text`), and spans do not matter for a build.
-/

namespace ObjectSpec

/-- What well-formed tokens derive can be written. -/
theorem Derives.wellFormed {ps : List Placed} {t : Tree} (h : Derives ps t)
    (htokens : ∀ p ∈ ps, p.token.WellFormed) : t.WellFormed := by
  induction t generalizing ps with
  | literal l =>
    refine .literal fun d hd => ?_
    subst hd
    cases h with
    | number hn =>
      cases Literal.numeric_of_ofNumeral hn with
      | double hfinite => exact hfinite
  | construct typeName args span ih =>
    cases h with
    | @construct _ s p e us _ h =>
      refine .construct (htokens ⟨.name typeName, s⟩ List.mem_cons_self) fun a ha => ?_
      obtain ⟨vs, hv, hi⟩ := h.of_mem ha
      exact ih a ha hv fun q hq => htokens q (by simp [hi.subset hq])
  | array items span ih =>
    cases h with
    | @array s e us _ h =>
      refine .array fun a ha => ?_
      obtain ⟨vs, hv, hi⟩ := h.of_mem ha
      exact ih a ha hv fun q hq => htokens q (by simp [hi.subset hq])
  | map entries span ih =>
    cases h with
    | @map s e us _ h =>
      refine .map fun a ha => ?_
      obtain ⟨vs, hv, hi⟩ := h.of_mem ha
      cases hv with
      | mk hv =>
        refine ih _ ha hv fun q hq => htokens q ?_
        have : q ∈ us := hi.subset (by simp [hq])
        simp [this]
  | raw written content span =>
    cases h with
    | raw => exact .raw (htokens ⟨.raw written content, span⟩ List.mem_cons_self)

theorem wellFormed_of_tokenize {source : String} {ps : List Placed}
    (h : tokenize source = .ok ps) : ∀ p ∈ ps, p.token.WellFormed := by
  intro p hp
  have hsplits : Splits source.toList (ps.map Placed.token) := splits_iff.2 ⟨ps, h, rfl⟩
  exact hsplits.wellFormed p.token (List.mem_map_of_mem hp)

/-- What is read from a text is that text as one raw text, or it can be written. -/
theorem Tree.wellFormed_of_parse {limit : Nat} {source : String} {t : Tree}
    (h : parse limit source = .ok t) :
    (∃ content span, t = .raw source content span) ∨ t.WellFormed := by
  obtain ⟨ps, hps, hd, -⟩ := parse_ok.1 h
  rcases hd.raw_or with ⟨written, content, s, rfl, ht⟩ | ⟨-, hderives⟩
  · exact .inl ⟨content, _, ht⟩
  · exact .inr (hderives.wellFormed (wellFormed_of_tokenize hps))

/-- Reading what was read and written again gives the same tree, but for the spans. -/
theorem Tree.parse_render_of_parse {limit : Nat} {source : String} {t : Tree}
    (h : parse limit source = .ok t) :
    ∃ u, parse limit t.render = .ok u ∧ u.shape = t.shape := by
  rcases wellFormed_of_parse h with ⟨content, span, rfl⟩ | hwf
  · -- The text is kept, so it is read once more.
    exact ⟨_, by rw [render, h], rfl⟩
  · -- The tree can be written, so its canonical text is read as this tree.
    obtain ⟨qs, u, hqs, hu, hshape⟩ := tokenize_render hwf
    obtain ⟨-, -, -, hdepth⟩ := parse_ok.1 h
    refine ⟨u, parse_ok.2 ⟨qs, hqs, hu, ?_⟩, hshape⟩
    rw [depth_eq_of_shape hshape]
    exact hdepth

/-- The constructors that an instance of the spec calls. -/
def Spec.calls {σ : Type} (spec : Spec σ) (context : Context) (s : σ) : List (Invocation σ) :=
  spec.root.calls spec.registry spec.aliases context s

namespace Repo

variable {σ : Type}

/-- Making a spec of the canonical text of a spec gives the same tree but for the spans, and the
same canonical text. In every context and state, both are built with one outcome by the same
calls. -/
theorem make_text (repo : Repo σ) (owner : Urn) (source : String) (spec : Spec σ)
    (h : repo.make owner source = .ok spec) :
    ∃ again, repo.make owner spec.text = .ok again ∧ again.root.shape = spec.root.shape ∧
      again.text = spec.text ∧ ∀ (context : Context) (s : σ),
        again.instantiate context s = spec.instantiate context s ∧
        (again.calls context s).map Invocation.shape =
          (spec.calls context s).map Invocation.shape := by
  rw [make] at h
  cases hparse : Tree.parse repo.settings.maxDepth source with
  | error e =>
    rw [hparse] at h
    cases h
  | ok root =>
    rw [hparse] at h
    cases h
    obtain ⟨again, hagain, hshape⟩ := Tree.parse_render_of_parse hparse
    refine ⟨⟨owner, root.render, again, repo.registry, repo.settings.aliases⟩, ?_, hshape,
      Tree.render_eq_of_shape hshape, fun context s => ⟨?_, ?_⟩⟩
    · rw [make, Spec.text, hagain]
      rfl
    · exact congrFun (Tree.build_eq_of_shape _ _ _ hshape) s
    · exact Tree.calls_eq_of_shape _ _ _ hshape s

/-- The standard types, one of them under a shorter name as well. -/
def standard : Repo Unit := ⟨.standard, { aliases := [("Long", "java.lang.Long")] }⟩

/-- What a call with blanks in it is made to. -/
def spacedCall : Spec Unit :=
  ⟨.anonymous, " Long( 7 )", .construct "Long" [.literal (.integer 7)] ⟨1, 10⟩, .standard,
    [("Long", "java.lang.Long")]⟩

theorem make_text_spacedCall :
    standard.make .anonymous " Long( 7 )" = .ok spacedCall ∧ spacedCall.text = "Long(7)" ∧
    ∃ again, standard.make .anonymous spacedCall.text = .ok again ∧
      again.root.shape = spacedCall.root.shape ∧ again.text = spacedCall.text ∧
      ∀ (context : Context) (s : Unit),
        again.instantiate context s = spacedCall.instantiate context s ∧
        (again.calls context s).map Invocation.shape =
          (spacedCall.calls context s).map Invocation.shape := by
  have htokens : tokenize " Long( 7 )" = .ok (⟨.name "Long", ⟨1, 5⟩⟩ ::
      ⟨.mark .openParen, ⟨5, 6⟩⟩ :: ([⟨.number "7", ⟨7, 8⟩⟩] ++
        [⟨.mark .closeParen, ⟨9, 10⟩⟩])) := tokenize_of_toOption (by decide +kernel)
  have hnumber : Derives [⟨.number "7", ⟨7, 8⟩⟩] (.literal (.integer 7)) := .number rfl
  have hparse : Tree.parse 64 " Long( 7 )" =
      .ok (.construct "Long" [.literal (.integer 7)] ⟨1, 10⟩) :=
    Tree.parse_ok.2 ⟨_, htokens, Derives.construct (.some (.one hnumber)), by decide⟩
  have hmake : standard.make .anonymous " Long( 7 )" = .ok spacedCall := by
    show (Tree.parse 64 " Long( 7 )").map _ = _
    rw [hparse]
    rfl
  have htext : spacedCall.text = "Long(7)" := by
    show Tree.render (.construct "Long" [.literal (.integer 7)] ⟨1, 10⟩) = _
    decide +kernel
  exact ⟨hmake, htext, make_text standard .anonymous " Long( 7 )" spacedCall hmake⟩

end Repo

end ObjectSpec
