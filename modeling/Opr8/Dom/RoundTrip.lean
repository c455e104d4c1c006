import Opr8.Dom.BuilderSim
import Opr8.Dom.Marshal

/-!
# Opr8 — unmarshal, marshal, unmarshal again: a fixed point

Feed a fresh Builder on an empty Document any tokens it accepts, marshal the Document,
and feed the tokens to a second fresh Builder with the same options: marshaling the second
Document gives the same tokens again. The first run can lose what it never closes and
change what the options change (text trimmed, comments dropped); what it keeps is `Built`,
and marshaling a `Built` tree then reading it back changes it only in ways marshaling does
not see.

Reading a marshaled tree back (`run_ser`) gives `rebuilt`: each element named by its start
tag, which drops the namespace it shares with its parent unless the start tags are
explicit, and carries only the attributes the start tag carries; every other node as it is.
Marshaling `rebuilt` again gives the same steps (`ser_rebuilt`): a dropped namespace is
either dropped again or was already empty, and the attributes are filtered once more.

Main results:

* `run_ser` — the machine reads a marshaled `Built` forest back as `rebuilt`.
* `ser_rebuilt` — a rebuilt forest marshals to the steps the forest did.
* `marshal_unmarshal_fixpoint` — the round trip of unmarshal and marshal is a fixed point
  after one iteration, for every option set, every accepted token list, and either
  setting of the explicit-namespace option.
-/

namespace Opr8.Dom

open Xml Store

/-! ## The tokens of a walk -/

/-- The tokens among the steps of a walk. -/
def emitted (steps : List Step) : List Token :=
  steps.filterMap fun
    | .emit t => some t
    | .fail _ => none

@[simp] theorem emitted_nil : emitted [] = [] := rfl

@[simp] theorem emitted_emit (t : Token) (steps : List Step) :
    emitted (.emit t :: steps) = t :: emitted steps := rfl

@[simp] theorem emitted_append (xs ys : List Step) :
    emitted (xs ++ ys) = emitted xs ++ emitted ys := List.filterMap_append _ _ _

/-- The recording encoder keeps the tokens of a walk that never fails. -/
theorem play_recorder : ∀ (st : List Token) (steps : List Step), (∀ e, Step.fail e ∉ steps) →
    play recorder st steps = .ok (st ++ emitted steps)
  | _, [], _ => by simp [play]
  | st, .emit t :: steps, h => by
    have ih := play_recorder (st ++ [t]) steps fun e he => h e (List.mem_cons_of_mem _ he)
    calc play recorder st (.emit t :: steps) = play recorder (st ++ [t]) steps := rfl
      _ = .ok (st ++ emitted (.emit t :: steps)) := by rw [ih]; simp
  | _, .fail e :: _, h => absurd (List.mem_cons_self _ _) (h e)

/-! ## Reading a marshaled tree back -/

mutual
/-- The tree the Builder makes of what the marshaler `m` emits for `t` under a parent with
namespace `ps`: an element named by its start tag and with the attributes the tag
carries; any other node as it is. -/
def rebuilt (m : Marshaler) (ps : Option String) : DTree → DTree
  | .node (.element name _) attrs kids =>
    elementTree ⟨elide (m.opts.Has marshalExplicitNS) ps name,
      attrs.filter fun a => a.name ≠ xmlnsDefault⟩ (rebuiltList m (some name.space) kids)
  | t => t

/-- `rebuilt` over a forest. -/
def rebuiltList (m : Marshaler) (ps : Option String) : List DTree → List DTree
  | [] => []
  | t :: ts => rebuilt m ps t :: rebuiltList m ps ts
end

/-- A node other than an element is read back as it is. -/
theorem rebuilt_of_not_element (m : Marshaler) (ps : Option String) {v : Value}
    (hv : ∀ name pfx, v ≠ .element name pfx) (attrs : List Attr) (kids : List DTree) :
    rebuilt m ps (.node v attrs kids) = .node v attrs kids := by
  cases v with
  | element name pfx => exact absurd rfl (hv name pfx)
  | _ => rfl

section Reread

variable {opts : Bitflag} {rk : NodeType} (m : Marshaler)

mutual
/-- A `Built` tree marshals without failure. -/
theorem ser_noFail : ∀ {nt : NodeType} (t : DTree) (ps : Option String), Built opts nt t →
    ∀ e, Step.fail e ∉ ser m ps t
  | _, .node (.element name _) attrs kids, ps, ⟨_, hkids⟩, e => by
    simpa [startStep, stepsOf, endSteps, Value.xmlName] using serList_noFail kids _ hkids e
  | _, .node (.text _) _ _, _, h, _ => by
    obtain ⟨-, rfl, -⟩ := h
    simp [startStep, stepsOf, endSteps]
  | _, .node (.comment _) _ _, _, h, _ => by
    obtain ⟨-, rfl, -⟩ := h
    simp [startStep, stepsOf, endSteps]
  | _, .node (.declaration _) _ _, _, h, _ => by
    obtain ⟨-, rfl, -⟩ := h
    simp [startStep, stepsOf, endSteps]
  | _, .node (.procinst _) _ _, _, h, _ => by
    obtain ⟨-, rfl, -⟩ := h
    simp [startStep, stepsOf, endSteps]
  | _, .node (.attribute _) _ _, _, h, _ => h.elim
  | _, .node .document _ _, _, h, _ => h.elim
  | _, .node .documentFragment _ _, _, h, _ => h.elim

theorem serList_noFail : ∀ {nt : NodeType} (ts : List DTree) (ps : Option String),
    BuiltList opts nt ts → ∀ e, Step.fail e ∉ serList m ps ts
  | _, [], _, _, _ => by simp
  | _, t :: ts, ps, ⟨ht, hts⟩, e => by
    simpa using ⟨ser_noFail t ps ht e, serList_noFail ts ps hts e⟩
end

/-- An accepted event is read back as the one tree it adds. -/
theorem run_leaf_of_built {t : Token} {a : Build} {u : DTree}
    (hacc : leafAccepts opts (a.cursorType rk) t = true) (hs : ∀ se, t ≠ .startElement se)
    (he : ∀ n, t ≠ .endElement n) (hu : leafTrees opts t = [u]) :
    Build.run opts rk [t] a = some (a.addAll [u]) := by
  cases t with
  | startElement se => exact absurd rfl (hs se)
  | endElement n => exact absurd rfl (he n)
  | _ => simp_all [Build.run, Build.step]

mutual
/-- **Reading back.** On the tokens of a marshaled `Built` tree, the machine adds the
rebuilt tree. -/
theorem run_ser : ∀ (t : DTree) (ps : Option String) (a : Build),
    Built opts (a.cursorType rk) t →
    Build.run opts rk (emitted (ser m ps t)) a = some (a.addAll [rebuilt m ps t])
  | .node (.element name pfx) attrs kids, ps, ⟨ks, os⟩, h => by
    obtain ⟨-, hkids⟩ := h
    have hser : emitted (ser m ps (.node (.element name pfx) attrs kids)) =
        .startElement ⟨elide (m.opts.Has marshalExplicitNS) ps name,
          attrs.filter fun a => a.name ≠ xmlnsDefault⟩ ::
        (emitted (serList m (some name.space) kids) ++
          [.endElement (elide m.emitExplicitNS ps name)]) := by
      simp [startStep, stepsOf, endSteps, Value.xmlName]
    have hrec := run_serList kids (some name.space)
      ⟨ks, (⟨elide (m.opts.Has marshalExplicitNS) ps name,
        attrs.filter fun a => a.name ≠ xmlnsDefault⟩, []) :: os⟩ hkids
    rw [hser, Build.run, Build.step, Option.some_bind, Build.run_append, hrec, Option.some_bind]
    simp [Build.run, Build.step, rebuilt]
  | .node (.text d) attrs kids, _, a, h => by
    obtain ⟨rfl, rfl, hk, hd⟩ := h
    rw [rebuilt_of_not_element m _ (by simp)]
    exact run_leaf_of_built hk (by simp) (by simp) (by simp [leafTrees, hd])
  | .node (.comment c) attrs kids, _, a, h => by
    obtain ⟨rfl, rfl, hc, hk⟩ := h
    rw [rebuilt_of_not_element m _ (by simp)]
    exact run_leaf_of_built (by simp [leafAccepts, hk]) (by simp) (by simp)
      (by simp [leafTrees, hc])
  | .node (.declaration pi) attrs kids, _, a, h => by
    obtain ⟨rfl, rfl, hx, hd, hk⟩ := h
    rw [rebuilt_of_not_element m _ (by simp)]
    exact run_leaf_of_built (by simpa [leafAccepts, Builder.procInstType, hx] using hk)
      (by simp) (by simp) (by simp [leafTrees, procInstTrees, hx, hd])
  | .node (.procinst pi) attrs kids, _, a, h => by
    obtain ⟨rfl, rfl, hx, hd, hk⟩ := h
    rw [rebuilt_of_not_element m _ (by simp)]
    exact run_leaf_of_built (by simpa [leafAccepts, Builder.procInstType, hx] using hk)
      (by simp) (by simp) (by simp [leafTrees, procInstTrees, hx, hd])
  | .node (.attribute _) _ _, _, _, h => h.elim
  | .node .document _ _, _, _, h => h.elim
  | .node .documentFragment _ _, _, _, h => h.elim

theorem run_serList : ∀ (ts : List DTree) (ps : Option String) (a : Build),
    BuiltList opts (a.cursorType rk) ts →
    Build.run opts rk (emitted (serList m ps ts)) a = some (a.addAll (rebuiltList m ps ts))
  | [], _, a, _ => by simp [Build.run, rebuiltList]
  | t :: ts, ps, a, ⟨ht, hts⟩ => by
    have hcur : (a.addAll [rebuilt m ps t]).cursorType rk = a.cursorType rk := by
      rcases a with ⟨_, _ | ⟨⟨_, _⟩, _⟩⟩ <;> rfl
    rw [serList_cons, emitted_append, Build.run_append, run_ser t ps a ht, Option.some_bind,
      run_serList ts ps _ (hcur ▸ hts), Build.addAll_addAll]
    rfl
end

end Reread

/-! ## Marshaling what was read back -/

/-- The parent namespace a reread element sees, against the one the original saw: the
same, or, when start tags drop shared namespaces, possibly the empty one. -/
def SpaceRel (explicit : Bool) (ps ps' : Option String) : Prop :=
  ps' = ps ∨ (explicit = false ∧ ps' = some "")

@[simp] theorem elide_true (ps : Option String) (n : Name) : elide true ps n = n := by
  cases ps <;> simp [elide]

/-- Under a parent in no namespace, a name that lost its namespace is kept as it is. -/
theorem elide_empty (n : Name) : elide false (some "") n = n := by
  simp only [elide, Bool.not_false, Bool.true_and]
  split_ifs with h
  · cases n
    simp_all
  · rfl

theorem elide_idem (ps : Option String) (n : Name) :
    elide false ps (elide false ps n) = elide false ps n := by
  cases ps with
  | none => rfl
  | some sp => by_cases h : sp = n.space <;> simp [elide, h]

/-- Reading an elided name back and eliding it again changes nothing. -/
theorem elide_reread {e : Bool} {ps ps' : Option String} (h : SpaceRel e ps ps') (n : Name) :
    elide e ps' (elide e ps n) = elide e ps n ∧ elide false ps' (elide e ps n) = elide false ps n := by
  cases e with
  | true =>
    obtain rfl : ps' = ps := h.resolve_right (by simp)
    simp
  | false =>
    rcases h with rfl | ⟨-, rfl⟩
    · exact ⟨elide_idem _ _, elide_idem _ _⟩
    · exact ⟨elide_empty _, elide_empty _⟩

/-- The children of a reread element see a namespace related to the original's. -/
theorem spaceRel_elide (e : Bool) (ps : Option String) (n : Name) :
    SpaceRel e (some n.space) (some (elide e ps n).space) := by
  cases e with
  | true => exact .inl (by simp)
  | false =>
    cases ps with
    | none => exact .inl rfl
    | some sp => by_cases h : sp = n.space <;> simp [SpaceRel, elide, h]

/-- A node other than an element marshals the same under any parent. -/
theorem ser_of_not_element (m : Marshaler) (ps ps' : Option String) {v : Value}
    (hv : ∀ name pfx, v ≠ .element name pfx) (attrs : List Attr) (kids : List DTree) :
    ser m ps' (.node v attrs kids) = ser m ps (.node v attrs kids) := by
  cases v with
  | element name pfx => exact absurd rfl (hv name pfx)
  | _ => simp [startStep, endSteps]

section Remarshal

variable (m : Marshaler)

mutual
/-- **Marshaling what was read back.** A rebuilt tree marshals to the steps the tree
did. -/
theorem ser_rebuilt (hm : m.emitExplicitNS = false) : ∀ (t : DTree) {ps ps' : Option String},
    SpaceRel (m.opts.Has marshalExplicitNS) ps ps' → ser m ps' (rebuilt m ps t) = ser m ps t
  | .node (.element name pfx) attrs kids, ps, ps', h => by
    obtain ⟨hs, he⟩ := elide_reread h name
    have hk := serList_rebuilt hm kids (spaceRel_elide (m.opts.Has marshalExplicitNS) ps name)
    simp only [rebuilt, elementTree, ser_node, startStep, endSteps, Value.xmlName, hs, hm, he,
      List.filter_filter, Bool.and_self, hk]
  | .node (.text _) _ _, _, _, _ => ser_of_not_element m _ _ (by simp) _ _
  | .node (.comment _) _ _, _, _, _ => ser_of_not_element m _ _ (by simp) _ _
  | .node (.declaration _) _ _, _, _, _ => ser_of_not_element m _ _ (by simp) _ _
  | .node (.procinst _) _ _, _, _, _ => ser_of_not_element m _ _ (by simp) _ _
  | .node (.attribute _) _ _, _, _, _ => ser_of_not_element m _ _ (by simp) _ _
  | .node .document _ _, _, _, _ => ser_of_not_element m _ _ (by simp) _ _
  | .node .documentFragment _ _, _, _, _ => ser_of_not_element m _ _ (by simp) _ _

theorem serList_rebuilt (hm : m.emitExplicitNS = false) :
    ∀ (ts : List DTree) {ps ps' : Option String},
    SpaceRel (m.opts.Has marshalExplicitNS) ps ps' →
    serList m ps' (rebuiltList m ps ts) = serList m ps ts
  | [], _, _, _ => by simp [rebuiltList]
  | t :: ts, _, _, h => by
    simp only [rebuiltList, serList_cons, ser_rebuilt hm t h, serList_rebuilt hm ts h]
end

end Remarshal

/-! ## The round trip -/

section RoundTrip

variable {opts : Bitflag}

/-- A fresh Builder on the empty Document stands for the empty machine. -/
theorem sim_emptyDocument (opts : Bitflag) :
    Sim opts emptyDocument (fun _ => []) (fun _ => []) 0 ⟨0, opts⟩ emptyDocument ⟨[], []⟩ :=
  ⟨rfl, _, _, [], rfl, Builds.init (Linkless.empty.push _).shape (Bounded.nil _)
    (show 0 < emptyDocument.next by decide) rfl (.inl rfl)⟩

/-- After a run from the empty Document, the Document stands for the finished trees. -/
theorem Builds.document {s : Store} {C A : Nat → List Nat} {a : Build} {ps : List Nat}
    (h : Builds emptyDocument (fun _ => []) (fun _ => []) 0 s C A a ps) :
    Rep s C A 0 (.node .document [] a.kids) ∧ parentSpace s 0 = none := by
  obtain ⟨hC, hA, hv, hp⟩ := h.old 0 (by decide)
  obtain ⟨ks, hks, hrep⟩ := h.root
  refine ⟨repIn_node.mpr ⟨trivial, hv, by simp [hA], by simp [hA], ?_⟩, by
    simp only [parentSpace, hp]
    rfl⟩
  rw [hks]
  exact hrep.mono fun _ _ => trivial

/-- Marshaling the Document of a run from the empty Document emits the tokens of the
finished trees, under a parent in no namespace. -/
theorem treeOrder_document {m : Marshaler} (hm : m.node = 0) {s : Store}
    {C A : Nat → List Nat} {a : Build} {ps : List Nat}
    (h : Builds emptyDocument (fun _ => []) (fun _ => []) 0 s C A a ps)
    (hnf : ∀ e, Step.fail e ∉ serList m (some "") a.kids) :
    ∀ fuel, 2 * (DTree.node .document [] a.kids).size < fuel →
      treeOrder fuel m recorder s [] = some (.ok (emitted (serList m (some "") a.kids))) := by
  intro fuel hf
  obtain ⟨hrep, hps⟩ := h.document
  rw [treeOrder_eq_ser m recorder h.shape (hm ▸ hrep) [] hf, hm, hps, play_recorder]
  · simp [startStep, stepsOf, endSteps, Value.xmlName]
  · simpa [startStep, stepsOf, endSteps, Value.xmlName] using hnf

/-- **Marshal after unmarshal is a fixed point after one iteration.** For every option set
and every token list a fresh Builder on an empty Document accepts, marshal the Document
(with or without `WithExplicitNS`) to `ts₁`; then a fresh Builder accepts `ts₁`, and
marshaling its Document gives `ts₁` again. -/
theorem marshal_unmarshal_fixpoint (opts : Bitflag) (m : Marshaler)
    (hm : m = NewMarshaler 0 [] ∨ m = NewMarshaler 0 [WithExplicitNS]) (ts : List Token)
    {b₁ : Builder} {s₁ : Store}
    (h₁ : Builder.feed ts ⟨0, opts⟩ emptyDocument = some (none, b₁, s₁)) :
    ∃ ts₁ k₁, (∀ fuel, k₁ < fuel → treeOrder fuel m recorder s₁ [] = some (.ok ts₁)) ∧
      ∃ b₂ s₂ k₂, Builder.feed ts₁ ⟨0, opts⟩ emptyDocument = some (none, b₂, s₂) ∧
        ∀ fuel, k₂ < fuel → treeOrder fuel m recorder s₂ [] = some (.ok ts₁) := by
  obtain ⟨hnode, hend⟩ : m.node = 0 ∧ m.emitExplicitNS = false := by
    rcases hm with rfl | rfl <;> exact ⟨rfl, rfl⟩
  have hrk : allowInsertChild NodeType.document .element = true := rfl
  -- the first run, as the machine sees it
  have hnt : emptyDocument.nodeType 0 = .document := rfl
  have hsim₁ := feed_sim ts (sim_emptyDocument opts)
  rw [h₁, hnt] at hsim₁
  rcases hrun₁ : Build.run opts NodeType.document ts ⟨[], []⟩ with _ | a₁
  · simp [hrun₁, Matches] at hsim₁
  rw [hrun₁] at hsim₁
  obtain ⟨-, C₁, A₁, ps₁, -, hB₁⟩ := hsim₁
  have hv₁ := (Build.run_valid hrk
    (show Build.Valid opts .document ⟨[], []⟩ from ⟨builtList_nil, by simp⟩) hrun₁).1
  have hnf₁ := serList_noFail m a₁.kids (some "") hv₁
  -- the second run reads the marshaled trees back
  have hrun₂ : Build.run opts NodeType.document (emitted (serList m (some "") a₁.kids))
      ⟨[], []⟩ = some ⟨rebuiltList m (some "") a₁.kids, []⟩ := by
    simpa using run_serList m a₁.kids (some "") ⟨[], []⟩ hv₁
  have hsim₂ := feed_sim (emitted (serList m (some "") a₁.kids)) (sim_emptyDocument opts)
  rw [hnt, hrun₂] at hsim₂
  rcases hfeed₂ : Builder.feed (emitted (serList m (some "") a₁.kids)) ⟨0, opts⟩ emptyDocument
    with _ | ⟨_ | e, b₂, s₂⟩ <;> rw [hfeed₂] at hsim₂ <;> simp only [Matches] at hsim₂
  obtain ⟨-, C₂, A₂, ps₂, -, hB₂⟩ := hsim₂
  have hser : serList m (some "") (rebuiltList m (some "") a₁.kids) =
      serList m (some "") a₁.kids := serList_rebuilt m hend a₁.kids (.inl rfl)
  refine ⟨_, _, treeOrder_document hnode hB₁ hnf₁, b₂, s₂,
    2 * (DTree.node .document [] (rebuiltList m (some "") a₁.kids)).size, hfeed₂, fun fuel hf => ?_⟩
  rw [treeOrder_document hnode hB₂ (by simpa [hser] using hnf₁) fuel hf]
  simp [hser]

theorem marshal_unmarshal_fixpoint_trimmed :
    ∃ b₁ s₁, Builder.feed [.startElement ⟨⟨"urn:x", "a"⟩, []⟩, .charData " hi ",
        .endElement ⟨"urn:x", "a"⟩] ⟨0, parseTrimPCData⟩ emptyDocument = some (none, b₁, s₁) ∧
      ∃ ts₁ k₁, (∀ fuel, k₁ < fuel →
          treeOrder fuel (NewMarshaler 0 []) recorder s₁ [] = some (.ok ts₁)) ∧
        ∃ b₂ s₂ k₂, Builder.feed ts₁ ⟨0, parseTrimPCData⟩ emptyDocument = some (none, b₂, s₂) ∧
          ∀ fuel, k₂ < fuel →
            treeOrder fuel (NewMarshaler 0 []) recorder s₂ [] = some (.ok ts₁) :=
  ⟨_, _, rfl, marshal_unmarshal_fixpoint parseTrimPCData (NewMarshaler 0 []) (.inl rfl)
    [.startElement ⟨⟨"urn:x", "a"⟩, []⟩, .charData " hi ", .endElement ⟨"urn:x", "a"⟩] rfl⟩

end RoundTrip

end Opr8.Dom
