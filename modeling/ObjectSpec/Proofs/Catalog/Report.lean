import ObjectSpec.Proofs.Catalog.Finding
import ObjectSpec.Proofs.Grammar.Names
import ObjectSpec.Proofs.Text.Location
import ObjectSpec.Proofs.Tree.Preorder

/-!
# What a report says

A check says one thing about every construct of an unknown type and about every one with a number
of arguments that its type does not take, and nothing about any other node. It does so in the
order of the nodes, and its counts are those of the nodes (`Exact`). If the tree was read from the
text, each of these constructs starts with its type name, the lines and columns of the report are
those of the name, and they increase (`Positioned`).
-/

namespace ObjectSpec

open Text (byteCount byteCount_append)

namespace Catalog

/-- What there is to say about a node: what is wrong with it, if it is a construct. -/
def Says (catalog : Catalog) (source : String) (t : Tree) (d : Diagnostic) : Prop :=
  ∃ call, t.call? = some call ∧ Finds catalog source call d

/-- A construct of an unknown type. -/
def misses (catalog : Catalog) : Tree → Bool
  | .construct typeName _ _ => !catalog.contains typeName
  | _ => false

/-- A report says what there is to say about the nodes of a tree, in their order, and counts
them. -/
structure Exact (catalog : Catalog) (source : String) (tree : Tree) (report : Report) : Prop where
  ordered : (tree.nodes.map Prod.fst).Pairwise (· < ·)
  complete : ∀ way node, (way, node) ∈ tree.nodes ↔ tree.at? way = some node
  said : ∃ found, found.Sublist tree.nodes ∧
    (∀ place ∈ tree.nodes, place ∈ found ↔ ∃ d, Says catalog source place.2 d) ∧
    List.Forall₂ (fun place d => Says catalog source place.2 d) found report.diagnostics
  constructs : report.constructs = tree.nodes.countP fun place => place.2.isConstruct
  unknown : report.unknown = tree.nodes.countP fun place => catalog.misses place.2
  raws : report.raws = tree.nodes.countP fun place => place.2.isRaw
  depth : ∀ n, report.depth ≤ n ↔
    ∀ way node, tree.at? way = some node → node.isContainer = true → way.length < n
  valid : report.isValid = true ↔ ∀ way typeName args span,
    tree.at? way = some (.construct typeName args span) → catalog.contains typeName = true

/-- A tree and a report give the places of the text where the type names are written. -/
structure Positioned (source : String) (tree : Tree) (report : Report) : Prop where
  names : ∀ way typeName args span, tree.at? way = some (.construct typeName args span) →
    (Span.mk span.start (span.start + byteCount typeName.toList)).slice? source = some typeName
  ranges : ∀ way typeName args span, tree.at? way = some (.construct typeName args span) →
    ∃ front rest, source.toList = front ++ typeName.toList ++ rest ∧
      byteCount front = span.start ∧ nameRange source ⟨typeName, args.length, span⟩ =
        .between front (front ++ typeName.toList)
  increasing : byteCount source.toList < UInt32.size → report.diagnostics.Pairwise fun d e =>
    ∃ a b, d.range = some a ∧ e.range = some b ∧ a.Before b

/-! ## Findings about nodes -/

variable {catalog : Catalog} {source : String}

/-- What is found in a node. -/
def findingAt (catalog : Catalog) (source : String) (t : Tree) : Option Diagnostic :=
  t.call?.bind (catalog.finding source)

theorem findingAt_iff {t : Tree} {d : Diagnostic} :
    catalog.findingAt source t = some d ↔ Says catalog source t d := by
  rw [findingAt, Option.bind_eq_some_iff]
  exact exists_congr fun call => and_congr_right fun _ => finding_iff

theorem diagnostics_eq_nodes (tree : Tree) :
    (catalog.check source tree).diagnostics =
      tree.nodes.filterMap fun place => catalog.findingAt source place.2 := by
  rw [check, Tree.constructs_eq_nodes, List.filterMap_filterMap]
  rfl

/-- What a list is mapped to where it can be, beside the elements where it can. -/
theorem forall₂_filterMap {α β : Type} (f : α → Option β) (as : List α) :
    List.Forall₂ (fun a b => f a = some b) (as.filter fun a => (f a).isSome) (as.filterMap f) := by
  induction as with
  | nil => exact .nil
  | cons a as ih =>
    cases ha : f a with
    | none =>
      rw [List.filterMap_cons_none ha, List.filter_cons_of_neg (by simp [ha])]
      exact ih
    | some b =>
      rw [List.filterMap_cons_some ha, List.filter_cons_of_pos (by simp [ha])]
      exact .cons ha ih

theorem check_said (tree : Tree) : ∃ found, found.Sublist tree.nodes ∧
    (∀ place ∈ tree.nodes, place ∈ found ↔ ∃ d, Says catalog source place.2 d) ∧
    List.Forall₂ (fun place d => Says catalog source place.2 d) found
      (catalog.check source tree).diagnostics := by
  refine ⟨tree.nodes.filter fun place => (catalog.findingAt source place.2).isSome,
    List.filter_sublist, fun place hplace => ?_, ?_⟩
  · rw [List.mem_filter, and_iff_right hplace, Option.isSome_iff_exists]
    exact exists_congr fun d => findingAt_iff
  · rw [diagnostics_eq_nodes]
    have hfound := forall₂_filterMap (fun place => catalog.findingAt source place.2) tree.nodes
    exact hfound.imp fun place d hd => findingAt_iff.1 hd

/-! ## Counts -/

theorem constructs_check (tree : Tree) : (catalog.check source tree).constructs =
    tree.nodes.countP fun place => place.2.isConstruct := by
  show tree.constructs.length = _
  rw [Tree.constructs_eq_nodes, List.length_filterMap_eq_countP]
  congr 1
  funext place
  cases place.2 <;> rfl

theorem unknown_check (tree : Tree) : (catalog.check source tree).unknown =
    tree.nodes.countP fun place => catalog.misses place.2 := by
  show tree.constructs.countP _ = _
  rw [Tree.constructs_eq_nodes, List.countP_filterMap]
  congr 1
  funext place
  cases place.2 <;> rfl

theorem isValid_iff {report : Report} :
    report.isValid = true ↔ ∀ d ∈ report.diagnostics, ¬ d.isError = true := by
  simp [Report.isValid, Report.hasErrors]

/-- Only an unknown type is an error. -/
theorem isValid_check (tree : Tree) : (catalog.check source tree).isValid = true ↔
    ∀ way typeName args span, tree.at? way = some (.construct typeName args span) →
      catalog.contains typeName = true := by
  rw [isValid_iff, diagnostics_eq_nodes]
  constructor
  · intro h way typeName args span hnode
    by_contra hcontains
    have hsays : Says catalog source (.construct typeName args span) _ :=
      ⟨⟨typeName, args.length, span⟩, rfl, .unknown (Bool.eq_false_iff.2 hcontains)⟩
    exact h _ (List.mem_filterMap.2 ⟨_, Tree.mem_nodes.2 hnode, findingAt_iff.2 hsays⟩) rfl
  · intro h d hd herror
    obtain ⟨⟨way, node⟩, hplace, hfinding⟩ := List.mem_filterMap.1 hd
    obtain ⟨call, hcall, hfinds⟩ := findingAt_iff.1 hfinding
    cases node with
    | construct typeName args span =>
      cases hcall
      have hunknown := hfinds.isError_iff.1 herror
      rw [h way typeName args span (Tree.mem_nodes.1 hplace)] at hunknown
      cases hunknown
    | literal | array | map | raw => cases hcall

theorem exact_check (catalog : Catalog) (source : String) (tree : Tree) :
    Exact catalog source tree (catalog.check source tree) where
  ordered := tree.nodes_ordered
  complete _ _ := Tree.mem_nodes
  said := check_said tree
  constructs := constructs_check tree
  unknown := unknown_check tree
  raws := tree.rawCount_eq_nodes
  depth _ := Tree.depth_le_iff
  valid := isValid_check tree

/-! ## Places -/

section Places
variable {limit : Nat} {tree : Tree}

/-- A construct starts with its type name, and the range of the name is counted off the text. -/
theorem exists_name (h : Tree.parse limit source = .ok tree) {call : Call}
    (hcall : call ∈ tree.constructs) : ∃ front rest,
      source.toList = front ++ call.typeName.toList ++ rest ∧ byteCount front = call.span.start ∧
      call.typeName.toList ≠ [] ∧
      nameRange source call = .between front (front ++ call.typeName.toList) := by
  obtain ⟨ts, htokens, hderives, -⟩ := Tree.derives_of_parse h (List.ne_nil_of_mem hcall)
  obtain ⟨s, hmem, hs⟩ := hderives.name_mem hcall
  obtain ⟨-, hne, -, front, rest, htext, hspan⟩ := (covers_of_tokenize htokens).placed _ hmem
  rw [List.nil_append] at htext
  have hstart : byteCount front = call.span.start := by
    rw [← hs, show s = _ from hspan]
  refine ⟨front, rest, htext, hstart, hne, ?_⟩
  rw [nameRange, ← hstart]
  exact LineRange.ofOffsets_append htext

/-- What starts later in the text is on a later line, or in a later column of the same line. -/
theorem nameRange_before (h : Tree.parse limit source = .ok tree)
    (hsize : byteCount source.toList < UInt32.size) {a b : Call} (ha : a ∈ tree.constructs)
    (hb : b ∈ tree.constructs) (hlt : a.span.start < b.span.start) :
    (nameRange source a).Before (nameRange source b) := by
  obtain ⟨front, rest, htext, hstart, -, hrange⟩ := exists_name h ha
  obtain ⟨front', rest', htext', hstart', hname, hrange'⟩ := exists_name h hb
  rw [← hstart, ← hstart'] at hlt
  -- The text in front of the later construct starts with the text in front of the other one.
  obtain ⟨inner, rfl, hinner⟩ : ∃ inner, front' = front ++ inner ∧ inner ≠ [] := by
    have hsame : front ++ (a.typeName.toList ++ rest) = front' ++ (b.typeName.toList ++ rest') := by
      rw [← List.append_assoc, ← List.append_assoc, ← htext, ← htext']
    rcases List.append_eq_append_iff.1 hsame with ⟨inner, rfl, -⟩ | ⟨inner, rfl, -⟩
    · refine ⟨inner, rfl, ?_⟩
      rintro rfl
      rw [List.append_nil] at hlt
      exact Nat.lt_irrefl _ hlt
    · rw [byteCount_append] at hlt
      omega
  have hbound : byteCount (front ++ inner) < LineRange.bound := by
    have hpos := Text.byteCount_pos hname
    rw [htext', byteCount_append, byteCount_append] at hsize
    rw [LineRange.bound]
    omega
  rw [hrange, hrange']
  exact LineRange.between_before hinner hbound _ _

theorem mem_constructs {call : Call} : call ∈ tree.constructs ↔
    ∃ way node, tree.at? way = some node ∧ node.call? = some call := by
  rw [Tree.constructs_eq_nodes, List.mem_filterMap]
  constructor
  · rintro ⟨⟨way, node⟩, hplace, hcall⟩
    exact ⟨way, node, Tree.mem_nodes.1 hplace, hcall⟩
  · rintro ⟨way, node, hnode, hcall⟩
    exact ⟨(way, node), Tree.mem_nodes.2 hnode, hcall⟩

theorem positioned_check (catalog : Catalog) (h : Tree.parse limit source = .ok tree) :
    Positioned source tree (catalog.check source tree) where
  names way typeName args span hnode := by
    obtain ⟨front, rest, htext, hstart, -⟩ :=
      exists_name h (mem_constructs.2 ⟨way, _, hnode, rfl⟩)
    refine Span.slice?_eq_some_iff.2 ⟨front, rest, htext, ?_⟩
    rw [byteCount_append, hstart]
  ranges way typeName args span hnode := by
    obtain ⟨front, rest, htext, hstart, -, hrange⟩ :=
      exists_name h (mem_constructs.2 ⟨way, _, hnode, rfl⟩)
    exact ⟨front, rest, htext, hstart, hrange⟩
  increasing hsize := by
    have hstarts : tree.constructs.Pairwise fun a b => a.span.start < b.span.start := by
      by_cases hnone : tree.constructs = []
      · rw [hnone]
        exact .nil
      · obtain ⟨ts, -, hderives, horder, -⟩ := Tree.derives_of_parse h hnone
        exact hderives.starts horder
    have hranges := hstarts.imp_of_mem fun ha hb hlt => nameRange_before h hsize ha hb hlt
    refine hranges.filterMap _ fun a b hbefore d hd e he => ?_
    exact ⟨_, _, (finding_iff.1 hd).range, (finding_iff.1 he).range, hbefore⟩

end Places

/-- A check finds each faulty construct once and nothing else, in the order of the nodes, and its
counts are right. If the tree was read from the text, the report gives the places of the names. -/
theorem check_exact (catalog : Catalog) (source : String) (tree : Tree) :
    Exact catalog source tree (catalog.check source tree) ∧
    ∀ limit, Tree.parse limit source = .ok tree →
      Positioned source tree (catalog.check source tree) :=
  ⟨exact_check catalog source tree, fun _ h => positioned_check catalog h⟩

/-- A catalog of one type, which takes one argument. -/
def numbersOnly : Catalog where
  contains name := name == "Long"
  names := ["Long"]
  arities _ := some [1]

/-- What the text below is read as. -/
def unknownInCall : Tree :=
  .construct "Long" [.literal (.integer 1), .construct "a.B" [] ⟨10, 15⟩] ⟨0, 16⟩

/-- A type with one argument too many, and on the next line an unknown one. -/
theorem check_exact_unknownInCall :
    Tree.parse 2 "Long(1,\n  a.B())" = .ok unknownInCall ∧
    Exact numbersOnly "Long(1,\n  a.B())" unknownInCall
      (numbersOnly.check "Long(1,\n  a.B())" unknownInCall) ∧
    Positioned "Long(1,\n  a.B())" unknownInCall
      (numbersOnly.check "Long(1,\n  a.B())" unknownInCall) ∧
    ((numbersOnly.check "Long(1,\n  a.B())" unknownInCall).diagnostics.map fun d =>
      (d.topic, d.range)) =
        [(.arityMismatch, some ⟨1, 1, 1, 5⟩), (.unknownType, some ⟨2, 3, 2, 6⟩)] := by
  have htokens : tokenize "Long(1,\n  a.B())" = .ok
      (⟨.name "Long", ⟨0, 4⟩⟩ :: ⟨.mark .openParen, ⟨4, 5⟩⟩ ::
        (([⟨.number "1", ⟨5, 6⟩⟩] ++ ⟨.mark .comma, ⟨6, 7⟩⟩ ::
          (⟨.name "a.B", ⟨10, 13⟩⟩ :: ⟨.mark .openParen, ⟨13, 14⟩⟩ ::
            ([] ++ [⟨.mark .closeParen, ⟨14, 15⟩⟩]))) ++ [⟨.mark .closeParen, ⟨15, 16⟩⟩])) :=
    tokenize_of_toOption (by decide +kernel)
  have hparse : Tree.parse 2 "Long(1,\n  a.B())" = .ok unknownInCall := by
    refine Tree.parse_ok.2 ⟨_, htokens, ?_, by decide⟩
    exact Derives.construct (.some (.more (.number rfl) (.one (.construct .none))))
  obtain ⟨hexact, hpositioned⟩ := check_exact numbersOnly "Long(1,\n  a.B())" unknownInCall
  exact ⟨hparse, hexact, hpositioned 2 hparse, by decide +kernel⟩

end Catalog

end ObjectSpec
